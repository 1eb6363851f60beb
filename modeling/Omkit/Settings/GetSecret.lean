import Omkit.Encryption
import Omkit.Settings.Manager

/-!
# Secrets from the database

`get_secret` reads the row of a key each time, and decrypts its token.  The session hands the column
over as the text of the token or, if it does not decode JSON, as a JSON string with its quotes, which
the decoder of the token skips.  So every manager reads the last secret that was written, whatever
its cache holds, and reads none that was written under another encryption key.
-/

namespace Omkit.Settings

open Lib Crypto Encryption

/-- `str(value)` of a value that the session returns. -/
class PyText (F : Type) where
  str : Json F → PyStr
  str_str : ∀ s, str (.str s) = s

section

variable {F : Type} [PyText F]

/-! ## The column -/

/-- The ways in which a session returns a column that holds a JSON string: decoded, or as its
text. -/
inductive Returned (s : PyStr) : Json F → Prop
  | decoded : Returned s (.str s)
  | undecoded (ascii : Bool) : Returned s (.str (strText ascii s))

lemma escapeChar_toUrlSafe : ∀ ascii, ∀ v < 64,
    escapeChar ascii (toUrlSafe (b64Char v)) = [toUrlSafe (b64Char v)] := by
  decide +kernel

/-- The text of a token as a JSON string is the token in quotes. -/
lemma strText_urlsafeB64encode (ascii : Bool) (b : Bytes) :
    strText ascii (urlsafeB64encode b) =
      [.scalar '"'] ++ urlsafeB64encode b ++ [.scalar '"'] := by
  have hplain : ∀ x ∈ urlsafeB64encode b, escapeChar ascii x = [x] := by
    intro x hx
    obtain ⟨y, hy, rfl⟩ := List.mem_map.mp hx
    rcases mem_b64encode hy with rfl | ⟨v, hv, rfl⟩
    · cases ascii <;> decide
    · exact escapeChar_toUrlSafe ascii v hv
  rw [strText, List.flatMap_congr hplain, List.flatMap_singleton']
  rfl

/-- A token is decoded to its bytes however the session returns it. -/
lemma Returned.decode {b : Bytes} {v : Json F} (h : Returned (urlsafeB64encode b) v) :
    urlsafeB64decode (PyText.str v) = some b := by
  cases h with
  | decoded => rw [PyText.str_str, urlsafeB64decode_urlsafeB64encode]
  | undecoded ascii =>
    have hquote : ∀ x ∈ [PyChar.scalar '"'], Skipped (ofUrlSafe x) := by
      rintro x (- | ⟨-, ⟨⟩⟩)
      exact ⟨'"', rfl, by decide, by decide⟩
    rw [PyText.str_str, strText_urlsafeB64encode, urlsafeB64decode_append hquote hquote,
      urlsafeB64decode_urlsafeB64encode]

variable [Base64Text] [AesGcm]

/-! ## Reading and writing -/

/-- `get_secret`, on the rows of `app_settings`. -/
def getSecret (rows : Dict PyStr (DbRow F)) (encryptionKey key : PyStr) : Option PyStr :=
  match rows.get? key with
  | none => none
  | some row =>
    if !row.isSecret then none
    -- every exception is logged, and `None` returned
    else (decryptValue (PyText.str row.value) encryptionKey).toOption

/-- What is done to the row of a key: it gets the token that `encrypt_value` has made of a plaintext
under a key, or another value, or it is deleted.  The values are those that the session returns. -/
inductive Write (F : Type)
  | secret (nonce : Nonce) (plaintext encryptionKey : PyStr) (value : Json F)
  | setting (value : Json F)
  | delete

/-- The rows after a write. -/
def Write.apply (rows : Dict PyStr (DbRow F)) (key : PyStr) : Write F → Dict PyStr (DbRow F)
  | secret _ _ _ value => rows.set key ⟨value, true⟩
  | setting value => rows.set key ⟨value, false⟩
  | delete => rows.pop key

/-- The rows after some writes. -/
def written (rows : Dict PyStr (DbRow F)) (writes : List (PyStr × Write F)) :
    Dict PyStr (DbRow F) :=
  writes.foldl (fun rows w => w.2.apply rows w.1) rows

/-- A secret is the token that `encrypt_value` returns, and the cipher opens it under its key
only. -/
def Write.Sealed : Write F → Prop
  | secret nonce plaintext encryptionKey value => ∃ kek data token,
    decodeKey encryptionKey = .ok kek ∧ encode plaintext = some data ∧
    encryptValue nonce plaintext encryptionKey = .ok token ∧ Returned token value ∧
    AesGcm.Authentic kek nonce.1 data (some aad)
  | setting _ | delete => True

/-- What a manager with the encryption key is to read after a write. -/
def Write.shown (encryptionKey : PyStr) : Write F → Option PyStr
  | secret _ plaintext encryptionKey' _ =>
    if decodeKey encryptionKey = decodeKey encryptionKey' then some plaintext else none
  | setting _ | delete => none

/-- Two texts of the same bytes are decrypted alike. -/
lemma decryptValue_congr {c c' key : PyStr} {raw : Bytes} (h : urlsafeB64decode c = some raw)
    (h' : urlsafeB64decode c' = some raw) : decryptValue c key = decryptValue c' key := by
  simp only [decryptValue, h, h']

/-- What a manager reads in the row of a secret. -/
lemma decrypt_sealed (hlen : ∀ kek nonce data aad,
      (AesGcm.encrypt kek nonce data aad).length = data.length + 16)
    {nonce : Nonce} {plaintext key : PyStr} {v : Json F}
    (h : (Write.secret nonce plaintext key v).Sealed) (key' : PyStr) :
    (decryptValue (PyText.str v) key').toOption =
      (Write.secret nonce plaintext key v).shown key' := by
  obtain ⟨kek, data, token, hkey, hdata, htoken, hv, hauth⟩ := h
  have hlong : 16 ≤ (AesGcm.encrypt kek nonce.1 data (some aad)).length := by
    rw [hlen]
    omega
  rw [encryptValue_eq hkey hdata] at htoken
  obtain rfl := Except.ok.inj htoken
  rw [decryptValue_congr hv.decode (urlsafeB64decode_urlsafeB64encode _), Write.shown, hkey]
  cases hkey' : decodeKey key' with
  | error e => simp [decryptValue, hkey', bind, Except.bind, Except.toOption]
  | ok kek' =>
    rw [decryptValue_token hkey' hlong]
    cases hopen : AesGcm.decrypt kek' nonce.1 (AesGcm.encrypt kek nonce.1 data (some aad))
        (some aad) with
    | none =>
      have hne : kek' ≠ kek := by
        rintro rfl
        rw [AesGcm.decrypt_encrypt] at hopen
        cases hopen
      simp [hne, Except.toOption]
    | some data' =>
      obtain ⟨rfl, -⟩ := hauth kek' _ data' hopen
      rw [AesGcm.decrypt_encrypt] at hopen
      obtain rfl := Option.some.inj hopen
      simp [decode_encode hdata, Except.toOption]

/-! ## After any writes -/

/-- A write is what is read under its key, and nothing under another key. -/
lemma getSecret_apply (hlen : ∀ kek nonce data aad,
      (AesGcm.encrypt kek nonce data aad).length = data.length + 16)
    {w : Write F} (hw : w.Sealed) (rows : Dict PyStr (DbRow F)) (k encryptionKey key : PyStr) :
    getSecret (w.apply rows k) encryptionKey key =
      if key = k then w.shown encryptionKey else getSecret rows encryptionKey key := by
  by_cases hk : key = k
  · subst hk
    rw [if_pos rfl]
    cases w with
    | secret nonce plaintext key₀ v =>
      rw [getSecret, Write.apply, Dict.get?_set_self]
      exact decrypt_sealed hlen hw encryptionKey
    | setting v =>
      rw [getSecret, Write.apply, Dict.get?_set_self]
      rfl
    | delete =>
      rw [getSecret, Write.apply, Dict.get?_pop_self]
      rfl
  · rw [if_neg hk, getSecret, getSecret]
    cases w with
    | secret nonce plaintext key₀ v => rw [Write.apply, Dict.get?_set_ne _ _ hk]
    | setting v => rw [Write.apply, Dict.get?_set_ne _ _ hk]
    | delete => rw [Write.apply, Dict.get?_pop_ne _ hk]

/-- **A manager reads the last secret that was written under a key, if it has the encryption key of
that secret, and none else.** -/
theorem getSecret_written (hlen : ∀ kek nonce data aad,
      (AesGcm.encrypt kek nonce data aad).length = data.length + 16)
    {writes : List (PyStr × Write F)} (h : ∀ w ∈ writes, w.2.Sealed)
    (rows : Dict PyStr (DbRow F)) (encryptionKey key : PyStr) :
    getSecret (written rows writes) encryptionKey key = match writes.reverse.lookup key with
      | none => getSecret rows encryptionKey key
      | some w => w.shown encryptionKey := by
  induction writes using List.reverseRecOn with
  | nil => rfl
  | append_singleton ws w ih =>
    have hlast : written rows (ws ++ [w]) = w.2.apply (written rows ws) w.1 := by
      rw [written, written, List.foldl_append]
      rfl
    have hsealed : w.2.Sealed := h w (by simp)
    rw [hlast, getSecret_apply hlen hsealed, ih fun x hx => h x (by simp [hx]),
      List.reverse_append, List.reverse_singleton, List.singleton_append, List.lookup_cons]
    by_cases hk : key = w.1
    · simp [hk]
    · rw [if_neg hk, beq_false_of_ne hk]

end

section Example

/-- The token of a secret under the key of 32 bytes `7`. -/
def sampleToken : PyStr :=
  urlsafeB64encode (version ++ (sampleNonce.1 ++
    tagSeal (keyOf 7).1 aad (keyOf 7).1 (utf8 "sk".toList) (some aad)))

/-- The secret `sk`, which the session returns with its quotes. -/
def sampleSecret : Write Empty :=
  .secret sampleNonce (text "sk") (generateKey (keyOf 7)) (.str (strText false sampleToken))

/-- A setting becomes a secret. -/
def sampleWrites : List (PyStr × Write Empty) :=
  [(text "api_key", .setting .null), (text "api_key", sampleSecret)]

/-- `str` of a text. -/
@[reducible] def textOnly : PyText Empty where
  str
    | .str s => s
    | _ => []
  str_str _ := rfl

theorem sampleWrites_read :
    let _ : Base64Text := ⟨fun _ => []⟩
    let _ := tagging (keyOf 7).1 aad
    let _ := textOnly
    getSecret (written .empty sampleWrites) (generateKey (keyOf 7)) (text "api_key") =
      some (text "sk") ∧
    getSecret (written .empty sampleWrites) (generateKey (keyOf 8)) (text "api_key") = none := by
  let _ : Base64Text := ⟨fun _ => []⟩
  let _ := tagging (keyOf 7).1 aad
  let _ := textOnly
  have hdata : encode (text "sk") = some (utf8 "sk".toList) := encode_text "sk"
  have hsealed : ∀ w ∈ sampleWrites, w.2.Sealed := by
    intro w hw
    rcases List.mem_cons.mp hw with rfl | hw
    · exact trivial
    · obtain rfl := List.mem_singleton.mp hw
      exact ⟨_, _, sampleToken, decodeKey_generateKey (keyOf 7), hdata,
        encryptValue_eq (decodeKey_generateKey (keyOf 7)) hdata, .undecoded false,
        tagging_authentic _ _ _ _⟩
  have hlast : sampleWrites.reverse.lookup (text "api_key") = some sampleSecret :=
    List.lookup_cons_self
  have hread : ∀ key, getSecret (written .empty sampleWrites) key (text "api_key") =
      if decodeKey key = decodeKey (generateKey (keyOf 7)) then some (text "sk") else none := by
    intro key
    rw [getSecret_written (fun kek nonce data aad => length_tagSeal _ _ _ data _) hsealed, hlast]
    rfl
  have hne : (keyOf 8).1 ≠ (keyOf 7).1 := by decide
  refine ⟨(hread _).trans (if_pos rfl), (hread _).trans (if_neg ?_)⟩
  rw [decodeKey_generateKey, decodeKey_generateKey]
  exact fun h => hne (Except.ok.inj h)

end Example

end Omkit.Settings
