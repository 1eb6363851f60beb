import Omkit.Lib.Json.Value

/-!
# AES-256-GCM envelopes

An envelope is the nonce followed by what the cipher returns.  The cipher itself is a parameter, with
the one law that it opens what it seals; that it opens nothing else is a hypothesis about a single
sealed message, `AesGcm.Authentic`.
-/

namespace Omkit.Crypto

open Lib

/-- The cipher of the cryptography library: `AESGCM(key).encrypt` and `AESGCM(key).decrypt`, where
`none` is an `InvalidTag`. -/
class AesGcm where
  encrypt (key nonce data : Bytes) (aad : Option Bytes) : Bytes
  decrypt (key nonce data : Bytes) (aad : Option Bytes) : Option Bytes
  decrypt_encrypt (key nonce data : Bytes) (aad : Option Bytes) :
    decrypt key nonce (encrypt key nonce data aad) aad = some data

/-- The message that was sealed under `key` and `aad` is opened under no other key and no other
associated data.  The library takes absent data for empty data. -/
def AesGcm.Authentic [AesGcm] (key nonce data : Bytes) (aad : Option Bytes) : Prop :=
  ∀ key' aad' data', decrypt key' nonce (encrypt key nonce data aad) aad' = some data' →
    key' = key ∧ aad'.getD [] = aad.getD []

/-- `NONCE_SIZE`. -/
def nonceSize : ℕ := 12

/-- `KEK_SIZE`. -/
def kekSize : ℕ := 32

/-- What `os.urandom(NONCE_SIZE)` returns. -/
abbrev Nonce := { n : Bytes // n.length = nonceSize }

/-- The exceptions of the module, with their texts. -/
inductive AesGcmError
  /-- `InvalidKeyError`. -/
  | invalidKey (message : PyStr)
  /-- `InvalidEnvelopeError`. -/
  | invalidEnvelope (message : PyStr)
deriving DecidableEq

/-- `str(exc)`. -/
def AesGcmError.message : AesGcmError → PyStr
  | invalidKey m => m
  | invalidEnvelope m => m

/-- `aad if aad else None`. -/
def orNone (aad : Bytes) : Option Bytes := if aad = [] then none else some aad

/-- `_validate_kek`. -/
def validateKek (kek : Bytes) : Except AesGcmError Unit :=
  if kek.length ≠ kekSize then
    .error (.invalidKey (text "kek must be 32 bytes, got " ++ natText kek.length))
  else .ok ()

lemma getD_orNone (aad : Bytes) : (orNone aad).getD [] = aad := by
  rw [orNone]
  split
  · next h => exact h.symm
  · rfl

lemma validateKek_of_length {kek : Bytes} (h : kek.length = kekSize) : validateKek kek = .ok () := by
  rw [validateKek, if_neg (not_not.mpr h)]

section

variable [AesGcm]

/-- `wrap_with_key`, for the nonce that it draws. -/
def wrapWithKey (nonce : Nonce) (kek plaintext aad : Bytes) : Except AesGcmError Bytes := do
  validateKek kek
  let ct := AesGcm.encrypt kek nonce.1 plaintext (orNone aad)
  pure (nonce.1 ++ ct)

/-- `unwrap_with_key`. -/
def unwrapWithKey (kek blob aad : Bytes) : Except AesGcmError Bytes := do
  validateKek kek
  if blob.length < nonceSize then
    .error (.invalidEnvelope
      (text "blob too short: " ++ natText blob.length ++ text " bytes (need >= 12)"))
  else match AesGcm.decrypt kek (blob.take nonceSize) (blob.drop nonceSize) (orNone aad) with
    | some plaintext => .ok plaintext
    | none => .error (.invalidEnvelope
        (text "authentication failed (kek/aad mismatch or tampered ciphertext)"))

/-! ## Sealing and opening -/

lemma wrapWithKey_of_length {nonce : Nonce} {kek plaintext aad : Bytes}
    (h : kek.length = kekSize) :
    wrapWithKey nonce kek plaintext aad =
      .ok (nonce.1 ++ AesGcm.encrypt kek nonce.1 plaintext (orNone aad)) := by
  rw [wrapWithKey, validateKek_of_length h]
  rfl

/-- What the cipher says of an envelope that starts with the nonce. -/
lemma unwrapWithKey_append {nonce : Nonce} {kek ct aad : Bytes} (h : kek.length = kekSize) :
    unwrapWithKey kek (nonce.1 ++ ct) aad =
      match AesGcm.decrypt kek nonce.1 ct (orNone aad) with
      | some plaintext => .ok plaintext
      | none => .error (.invalidEnvelope
          (text "authentication failed (kek/aad mismatch or tampered ciphertext)")) := by
  have hlen : ¬ (nonce.1 ++ ct).length < nonceSize := by
    rw [List.length_append, nonce.2]
    omega
  have htake : (nonce.1 ++ ct).take nonceSize = nonce.1 := List.take_left' nonce.2
  have hdrop : (nonce.1 ++ ct).drop nonceSize = ct := List.drop_left' nonce.2
  rw [unwrapWithKey, validateKek_of_length h, htake, hdrop]
  exact if_neg hlen

/-- **An envelope opens under the key and the data it was sealed with.** -/
theorem unwrapWithKey_wrapWithKey {nonce : Nonce} {kek plaintext aad blob : Bytes}
    (h : wrapWithKey nonce kek plaintext aad = .ok blob) :
    unwrapWithKey kek blob aad = .ok plaintext := by
  by_cases hkek : kek.length = kekSize
  · rw [wrapWithKey_of_length hkek, Except.ok.injEq] at h
    rw [← h, unwrapWithKey_append hkek, AesGcm.decrypt_encrypt]
  · rw [wrapWithKey, validateKek, if_pos hkek] at h
    exact absurd h (by simp [Bind.bind, Except.bind])

/-- An envelope that opens shows the key and the data it was sealed with. -/
lemma eq_of_unwrapWithKey {nonce : Nonce} {kek kek' plaintext plaintext' aad aad' : Bytes}
    (hkek' : kek'.length = kekSize)
    (hauth : AesGcm.Authentic kek nonce.1 plaintext (orNone aad))
    (h : unwrapWithKey kek' (nonce.1 ++ AesGcm.encrypt kek nonce.1 plaintext (orNone aad)) aad' =
      .ok plaintext') :
    kek' = kek ∧ aad' = aad := by
  rw [unwrapWithKey_append hkek'] at h
  split at h
  · next data' hdata =>
    obtain ⟨hkey, haad⟩ := hauth _ _ _ hdata
    exact ⟨hkey, by rwa [getD_orNone, getD_orNone] at haad⟩
  · cases h

end

/-! ## An ideal cipher

It shows the key and the data in the message, so that opening can compare them. -/

/-- A byte string with its end marked. -/
def frame : Bytes → Bytes
  | [] => [0]
  | x :: b => 1 :: x :: frame b

/-- Read a byte string up to the mark of its end. -/
def unframe : Bytes → Option (Bytes × Bytes)
  | 0 :: r => some ([], r)
  | 1 :: x :: r => (unframe r).map fun p => (x :: p.1, p.2)
  | _ => none

lemma unframe_frame (b r : Bytes) : unframe (frame b ++ r) = some (b, r) := by
  induction b with
  | nil => rfl
  | cons x b ih => rw [frame, List.cons_append, List.cons_append, unframe, ih]; rfl

/-- The message of the ideal cipher. -/
def idealSeal (key nonce data : Bytes) (aad : Option Bytes) : Bytes :=
  frame key ++ (frame nonce ++ (frame (aad.getD []) ++ data))

/-- Open a message of the ideal cipher. -/
def idealOpen (key nonce data : Bytes) (aad : Option Bytes) : Option Bytes := do
  let (k, r) ← unframe data
  let (n, r) ← unframe r
  let (a, r) ← unframe r
  if k = key ∧ n = nonce ∧ a = aad.getD [] then some r else none

lemma idealOpen_idealSeal (key key' nonce data : Bytes) (aad aad' : Option Bytes) :
    idealOpen key' nonce (idealSeal key nonce data aad) aad' =
      if key = key' ∧ aad.getD [] = aad'.getD [] then some data else none := by
  simp [idealOpen, idealSeal, unframe_frame]

/-- The ideal cipher. -/
@[reducible] def ideal : AesGcm where
  encrypt := idealSeal
  decrypt := idealOpen
  decrypt_encrypt key nonce data aad := by
    rw [idealOpen_idealSeal, if_pos ⟨rfl, rfl⟩]

lemma ideal_authentic (key nonce data : Bytes) (aad : Option Bytes) :
    ideal.Authentic key nonce data aad := by
  intro key' aad' data' h
  have hopen : (if key = key' ∧ aad.getD [] = aad'.getD [] then some data else none) =
      some data' := by
    rw [← idealOpen_idealSeal]
    exact h
  split at hopen
  · next hsame => exact ⟨hsame.1.symm, hsame.2.symm⟩
  · cases hopen

end Omkit.Crypto
