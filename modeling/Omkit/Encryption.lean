import Omkit.Crypto.AesGcm
import Omkit.Lib.Base64

/-!
# Tokens of encrypted settings

A short secret is stored as a URL-safe base64 token: the version, and an AES-256-GCM envelope under a
key that is itself URL-safe base64.  A token opens under its key and under no other.
-/

namespace Omkit.Encryption

open Lib Crypto

/-- `KEY_SIZE`. -/
def keySize : ℕ := 32

/-- `_VERSION`. -/
def version : Bytes := utf8 "v1".toList

/-- `_AAD`. -/
def aad : Bytes := utf8 "omkit.encryption.v1".toList

/-- The text of the exception that `urlsafe_b64decode` raises on a text, which the interpreter
words. -/
class Base64Text where
  excText : PyStr → PyStr

/-- What the module raises. -/
inductive TokenExc
  /-- `InvalidKey` or `InvalidToken`. -/
  | crypto (e : AesGcmError)
  | std (e : StdExc)
deriving DecidableEq

/-- `InvalidKey(message)`. -/
def TokenExc.invalidKey (message : PyStr) : TokenExc := .crypto (.invalidKey message)

/-- `InvalidToken(message)`. -/
def TokenExc.invalidToken (message : PyStr) : TokenExc := .crypto (.invalidEnvelope message)

section

variable [Base64Text]

/-- `_decode_key`. -/
def decodeKey (key : PyStr) : Except TokenExc Bytes :=
  match urlsafeB64decode key with
  | none => .error (.invalidKey
      (text "key must be URL-safe base64: " ++ Base64Text.excText key))
  | some raw =>
    if raw.length ≠ keySize then
      .error (.invalidKey (text "key must decode to " ++ natText keySize ++ text " bytes, got " ++
        natText raw.length))
    else .ok raw

/-- `generate_key`, for the bytes that it draws. -/
def generateKey (token : { b : Bytes // b.length = keySize }) : PyStr := urlsafeB64encode token.1

variable [AesGcm]

/-- `encrypt_value`, for the nonce that the envelope draws. -/
def encryptValue (nonce : Nonce) (plaintext key : PyStr) : Except TokenExc PyStr := do
  let kek ← decodeKey key
  match encode plaintext with
  | none => .error (.std .unicodeEncodeError)
  | some data =>
    let blob ← (wrapWithKey nonce kek data aad).mapError .crypto
    pure (urlsafeB64encode (version ++ blob))

/-- `decrypt_value`. -/
def decryptValue (ciphertext key : PyStr) : Except TokenExc PyStr := do
  let kek ← decodeKey key
  match urlsafeB64decode ciphertext with
  | none => .error (.invalidToken (text "invalid base64: " ++ Base64Text.excText ciphertext))
  | some raw =>
    if raw.length < version.length + 12 + 16 then .error (.invalidToken (text "token too short"))
    else if raw.take version.length ≠ version then
      .error (.invalidToken (text "unsupported version prefix"))
    else
      let plain ← (unwrapWithKey kek (raw.drop version.length) aad).mapError .crypto
      match decode plain with
      | none => .error (.std .unicodeDecodeError)
      | some s => .ok s

/-! ## Keys -/

omit [AesGcm] in
/-- A key that decodes has the size that the envelope asks for. -/
lemma length_of_decodeKey {key : PyStr} {kek : Bytes} (h : decodeKey key = .ok kek) :
    kek.length = kekSize := by
  rw [decodeKey] at h
  split at h
  · cases h
  · split at h
    · cases h
    · rename_i hlen
      rw [← Except.ok.inj h]
      exact not_not.mp hlen

omit [AesGcm] in
/-- Every key that is generated decodes to the bytes that were drawn. -/
theorem decodeKey_generateKey (token : { b : Bytes // b.length = keySize }) :
    decodeKey (generateKey token) = .ok token.1 := by
  rw [decodeKey, generateKey, urlsafeB64decode_urlsafeB64encode]
  exact if_neg (not_not.mpr token.2)

/-! ## Tokens -/

/-- What `encrypt_value` returns. -/
lemma encryptValue_eq {nonce : Nonce} {plaintext key : PyStr} {kek data : Bytes}
    (hkey : decodeKey key = .ok kek) (hdata : encode plaintext = some data) :
    encryptValue nonce plaintext key = .ok (urlsafeB64encode
      (version ++ (nonce.1 ++ AesGcm.encrypt kek nonce.1 data (some aad)))) := by
  have hwrap : wrapWithKey nonce kek data aad = .ok _ :=
    wrapWithKey_of_length (length_of_decodeKey hkey)
  have haad : orNone aad = some aad := if_neg (by decide)
  rw [encryptValue, hkey, hdata, ← haad]
  show (do
    let blob ← (wrapWithKey nonce kek data aad).mapError TokenExc.crypto
    pure (urlsafeB64encode (version ++ blob))) = _
  rw [hwrap]
  rfl

/-- What `decrypt_value` makes of a token that carries an envelope of a sufficient length. -/
lemma decryptValue_token {nonce : Nonce} {key : PyStr} {kek ct : Bytes}
    (hkey : decodeKey key = .ok kek) (hct : 16 ≤ ct.length) :
    decryptValue (urlsafeB64encode (version ++ (nonce.1 ++ ct))) key =
      match AesGcm.decrypt kek nonce.1 ct (some aad) with
      | none => .error (.invalidToken
          (text "authentication failed (kek/aad mismatch or tampered ciphertext)"))
      | some plain => match decode plain with
        | none => .error (.std .unicodeDecodeError)
        | some s => .ok s := by
  have hlong : ¬ (version ++ (nonce.1 ++ ct)).length < version.length + 12 + 16 := by
    have hnonce : nonce.1.length = 12 := nonce.2
    simp only [List.length_append, hnonce]
    omega
  have htake : (version ++ (nonce.1 ++ ct)).take version.length = version := List.take_left
  have hdrop : (version ++ (nonce.1 ++ ct)).drop version.length = nonce.1 ++ ct := List.drop_left
  have haad : orNone aad = some aad := if_neg (by decide)
  have hopen : unwrapWithKey kek (nonce.1 ++ ct) aad = _ :=
    unwrapWithKey_append (length_of_decodeKey hkey)
  rw [decryptValue, hkey, urlsafeB64decode_urlsafeB64encode]
  show (if _ then _ else if _ then _ else _) = _
  rw [if_neg hlong, htake, if_neg (not_not.mpr rfl), hdrop, hopen, haad]
  cases AesGcm.decrypt kek nonce.1 ct (some aad) with
  | none => rfl
  | some plain => rfl

/-- **A token opens under the key it was made with, and under no other.** -/
theorem decryptValue_encryptValue {nonce : Nonce} {plaintext key : PyStr} {kek : Bytes}
    (hp : WellFormed plaintext) (hkey : decodeKey key = .ok kek)
    (hlen : ∀ data, (AesGcm.encrypt kek nonce.1 data (some aad)).length = data.length + 16)
    (hauth : ∀ data ∈ encode plaintext, AesGcm.Authentic kek nonce.1 data (some aad)) :
    ∃ token, encryptValue nonce plaintext key = .ok token ∧
      decryptValue token key = .ok plaintext ∧
      ∀ key' kek', decodeKey key' = .ok kek' → kek' ≠ kek →
        ∃ m, decryptValue token key' = .error (.invalidToken m) := by
  obtain ⟨data, hdata⟩ := wellFormed_iff_encode.mp hp
  have hlong : 16 ≤ (AesGcm.encrypt kek nonce.1 data (some aad)).length := by
    rw [hlen]
    omega
  refine ⟨_, encryptValue_eq hkey hdata, ?_, ?_⟩
  · rw [decryptValue_token hkey hlong, AesGcm.decrypt_encrypt]
    show (match decode data with | none => _ | some s => _) = _
    rw [decode_encode hdata]
  · intro key' kek' hkey' hne
    rw [decryptValue_token hkey' hlong]
    cases hopen : AesGcm.decrypt kek' nonce.1 (AesGcm.encrypt kek nonce.1 data (some aad))
        (some aad) with
    | none => exact ⟨_, rfl⟩
    | some data' => exact absurd (hauth data hdata kek' _ data' hopen).1 hne

end

section Example

/-- A tag of 16 bytes that tells one key and one associated data from all others. -/
def tag (key₀ aad₀ key : Bytes) (aad : Option Bytes) : Bytes :=
  List.replicate 16 (if key = key₀ ∧ aad.getD [] = aad₀ then 1 else 0)

/-- Show the data, and append the tag. -/
def tagSeal (key₀ aad₀ key data : Bytes) (aad : Option Bytes) : Bytes :=
  data ++ tag key₀ aad₀ key aad

/-- Compare the tag, and drop it. -/
def tagOpen (key₀ aad₀ key data : Bytes) (aad : Option Bytes) : Option Bytes :=
  if data.drop (data.length - 16) = tag key₀ aad₀ key aad then some (data.take (data.length - 16))
  else none

lemma length_tagSeal (key₀ aad₀ key data : Bytes) (aad : Option Bytes) :
    (tagSeal key₀ aad₀ key data aad).length = data.length + 16 := by
  rw [tagSeal, List.length_append, tag, List.length_replicate]

lemma tagOpen_tagSeal (key₀ aad₀ key key' data : Bytes) (aad aad' : Option Bytes) :
    tagOpen key₀ aad₀ key' (tagSeal key₀ aad₀ key data aad) aad' =
      if tag key₀ aad₀ key aad = tag key₀ aad₀ key' aad' then some data else none := by
  rw [tagOpen, length_tagSeal, Nat.add_sub_cancel, tagSeal, List.drop_left, List.take_left]

/-- The cipher of these tags. -/
@[reducible] def tagging (key₀ aad₀ : Bytes) : AesGcm where
  encrypt key _ data aad := tagSeal key₀ aad₀ key data aad
  decrypt key _ data aad := tagOpen key₀ aad₀ key data aad
  decrypt_encrypt key _ data aad := by rw [tagOpen_tagSeal, if_pos rfl]

/-- What is sealed under the key and the associated data that the tag tells apart is authentic. -/
lemma tagging_authentic (key₀ aad₀ nonce data : Bytes) :
    (tagging key₀ aad₀).Authentic key₀ nonce data (some aad₀) := by
  intro key' aad' data' h
  have hopen : (if tag key₀ aad₀ key₀ (some aad₀) = tag key₀ aad₀ key' aad' then some data
      else none) = some data' := by
    rw [← tagOpen_tagSeal]
    exact h
  split at hopen
  · rename_i htag
    by_contra hno
    have hne : ¬ (key' = key₀ ∧ aad'.getD [] = aad₀) := hno
    rw [tag, tag, if_neg hne] at htag
    simp at htag
  · cases hopen

/-- The key of 32 bytes `b`. -/
def keyOf (b : UInt8) : { b : Bytes // b.length = keySize } :=
  ⟨List.replicate keySize b, List.length_replicate⟩

/-- A nonce of zeros. -/
def sampleNonce : Nonce := ⟨List.replicate nonceSize 0, List.length_replicate⟩

/-- The empty plaintext, under one key and opened with another. -/
theorem empty_encrypted : ∃ token,
    let _ : Base64Text := ⟨fun _ => []⟩
    let _ := tagging (keyOf 7).1 aad
    encryptValue sampleNonce [] (generateKey (keyOf 7)) = .ok token ∧
      decryptValue token (generateKey (keyOf 7)) = .ok [] ∧
      ∃ m, decryptValue token (generateKey (keyOf 8)) = .error (.invalidToken m) := by
  let _ : Base64Text := ⟨fun _ => []⟩
  let _ := tagging (keyOf 7).1 aad
  have hempty : WellFormed [] := ⟨[], rfl⟩
  obtain ⟨token, henc, hdec, hother⟩ :=
    decryptValue_encryptValue hempty (decodeKey_generateKey (keyOf 7))
      (fun data => length_tagSeal _ _ _ data _)
      (fun data _ => tagging_authentic _ _ _ data)
  have hne : (keyOf 8).1 ≠ (keyOf 7).1 := by decide
  exact ⟨token, henc, hdec, hother _ _ (decodeKey_generateKey (keyOf 8)) hne⟩

end Example

end Omkit.Encryption
