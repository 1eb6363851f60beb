import Omkit.Encryption

/-!
# Spellings of a token

The decoder of a token skips the characters that are not in its alphabet, knows two alphabets, stops
at the padding and drops the bits that are left over, so a token opens in many spellings.  Only one of
them is canonical.
-/

namespace Omkit.Encryption

open Lib Crypto

section

variable [Base64Text] [AesGcm] {c c' key s : PyStr} {kek : Bytes}

/-- The token carries an envelope that opens under the key and shows `plain`. -/
def Opens (c : PyStr) (kek plain : Bytes) : Prop :=
  ∃ raw, urlsafeB64decode c = some raw ∧ version.length + 12 + 16 ≤ raw.length ∧
    raw.take version.length = version ∧ unwrapWithKey kek (raw.drop version.length) aad = .ok plain

/-- The nonce of a token. -/
def nonceOf (c : PyStr) : Option Bytes :=
  (urlsafeB64decode c).map fun raw => (raw.drop version.length).take nonceSize

/-- If the token is decrypted, it is the text of the bytes that it decodes to; if not, then with an
`InvalidToken`. -/
def Strict (c key : PyStr) : Prop :=
  (∀ s, decryptValue c key = .ok s →
    ∃ raw, urlsafeB64decode c = some raw ∧ urlsafeB64encode raw = c) ∧
  ∀ e, decryptValue c key = .error e → ∃ m, e = .invalidToken m

/-! ## The two ways of a token -/

omit [Base64Text] in
lemma unwrapWithKey_cases (blob aad : Bytes) (hkek : kek.length = kekSize) :
    (∃ plain, unwrapWithKey kek blob aad = .ok plain) ∨
      ∃ m, unwrapWithKey kek blob aad = .error (.invalidEnvelope m) := by
  simp only [unwrapWithKey, validateKek_of_length hkek, bind, Except.bind]
  split_ifs
  · exact Or.inr ⟨_, rfl⟩
  · cases AesGcm.decrypt kek (blob.take nonceSize) (blob.drop nonceSize) (orNone aad) with
    | none => exact Or.inr ⟨_, rfl⟩
    | some plain => exact Or.inl ⟨plain, rfl⟩

/-- A token that opens is decrypted if its plaintext can be decoded. -/
lemma decryptValue_of_opens (hkey : decodeKey key = .ok kek) {plain : Bytes}
    (h : Opens c kek plain) :
    decryptValue c key = match decode plain with
      | none => .error (.std .unicodeDecodeError)
      | some s => .ok s := by
  obtain ⟨raw, hraw, hlen, hversion, hopen⟩ := h
  rw [decryptValue, hkey, hraw]
  show (if _ then _ else if _ then _ else _) = _
  rw [if_neg (by omega), if_neg (not_not.mpr hversion), hopen]
  rfl

/-- A token that does not open is an `InvalidToken`. -/
lemma decryptValue_of_not_opens (hkey : decodeKey key = .ok kek)
    (h : ∀ plain, ¬ Opens c kek plain) :
    ∃ m, decryptValue c key = .error (.invalidToken m) := by
  simp only [decryptValue, hkey, bind, Except.bind]
  cases hraw : urlsafeB64decode c with
  | none => exact ⟨_, rfl⟩
  | some raw =>
    dsimp only
    split_ifs with hlen hversion
    · exact ⟨_, rfl⟩
    · exact ⟨_, rfl⟩
    · rcases unwrapWithKey_cases (raw.drop version.length) aad
        (length_of_decodeKey hkey) with ⟨plain, hopen⟩ | ⟨m, hopen⟩
      · exact absurd ⟨raw, hraw, by omega, not_not.mp hversion, hopen⟩ (h plain)
      · rw [hopen]
        exact ⟨m, rfl⟩

lemma decryptValue_eq_ok (hkey : decodeKey key = .ok kek) :
    decryptValue c key = .ok s ↔ ∃ plain, Opens c kek plain ∧ decode plain = some s := by
  by_cases h : ∃ plain, Opens c kek plain
  · obtain ⟨plain, hopens⟩ := h
    have huniq : ∀ plain', Opens c kek plain' → plain' = plain := by
      rintro plain' ⟨raw', hraw', -, -, hopen'⟩
      obtain ⟨raw, hraw, -, -, hopen⟩ := hopens
      obtain rfl := Option.some.inj (hraw'.symm.trans hraw)
      exact Except.ok.inj (hopen'.symm.trans hopen)
    rw [decryptValue_of_opens hkey hopens]
    constructor
    · intro hok
      cases hdec : decode plain with
      | none => simp [hdec] at hok
      | some t =>
        rw [hdec] at hok
        exact ⟨plain, hopens, by rw [hdec, Except.ok.inj hok]⟩
    · rintro ⟨plain', hopens', hdec⟩
      rw [huniq plain' hopens'] at hdec
      rw [hdec]
  · obtain ⟨m, herr⟩ := decryptValue_of_not_opens hkey fun plain hp => h ⟨plain, hp⟩
    rw [herr]
    constructor
    · intro hok
      cases hok
    · rintro ⟨plain, hp, -⟩
      exact absurd ⟨plain, hp⟩ h

/-! ## One spelling -/

omit [Base64Text] [AesGcm] in
lemma canonical_iff_encode : canonical c = true ↔
    ∃ raw, urlsafeB64decode c = some raw ∧ urlsafeB64encode raw = c := by
  rw [canonical_iff]
  constructor
  · rintro ⟨raw, rfl⟩
    exact ⟨raw, urlsafeB64decode_urlsafeB64encode raw, rfl⟩
  · rintro ⟨raw, -, h⟩
    exact ⟨raw, h⟩

omit [Base64Text] in
/-- The bytes of a token that opens are settled by its nonce and its plaintext. -/
lemma raw_of_opens {raw plain : Bytes} (hkek : kek.length = kekSize)
    (hseal : ∀ nonce ct plain, AesGcm.decrypt kek nonce ct (some aad) = some plain →
      AesGcm.encrypt kek nonce plain (some aad) = ct)
    (hlen : version.length + 12 + 16 ≤ raw.length) (hversion : raw.take version.length = version)
    (hopen : unwrapWithKey kek (raw.drop version.length) aad = .ok plain) :
    raw = version ++ ((raw.drop version.length).take nonceSize ++
      AesGcm.encrypt kek ((raw.drop version.length).take nonceSize) plain (some aad)) := by
  obtain ⟨nonce, hnonce⟩ : ∃ nonce : Nonce, nonce.1 = (raw.drop version.length).take nonceSize := by
    refine ⟨⟨(raw.drop version.length).take nonceSize, ?_⟩, rfl⟩
    rw [List.length_take, List.length_drop]
    have hsize : nonceSize = 12 := rfl
    omega
  have hsplit : raw.drop version.length = (raw.drop version.length).take nonceSize ++
      (raw.drop version.length).drop nonceSize := (List.take_append_drop _ _).symm
  have haad : orNone aad = some aad := if_neg (by decide)
  rw [hsplit, ← hnonce, unwrapWithKey_append hkek, haad] at hopen
  split at hopen
  · next plain' hdec =>
    obtain rfl := Except.ok.inj hopen
    rw [← hnonce, hseal _ _ _ hdec]
    conv_lhs => rw [← List.take_append_drop version.length raw, hversion, hsplit, ← hnonce]
  · cases hopen

/-- **A token is taken strictly exactly if it does not open, or it is canonical and its plaintext can
be decoded; and of the canonical ones, only one shows a value with a nonce, if AES-GCM opens only
what it seals.** -/
theorem strict_iff (hkey : decodeKey key = .ok kek) :
    (∀ c, Strict c key ↔
      ∀ plain, Opens c kek plain → canonical c = true ∧ (decode plain).isSome = true) ∧
    ((∀ nonce ct plain, AesGcm.decrypt kek nonce ct (some aad) = some plain →
        AesGcm.encrypt kek nonce plain (some aad) = ct) →
      ∀ c c' s, canonical c = true → canonical c' = true → decryptValue c key = .ok s →
        decryptValue c' key = .ok s → nonceOf c = nonceOf c' → c = c') := by
  constructor
  · intro c
    rw [canonical_iff_encode]
    constructor
    · rintro ⟨hok, herr⟩ plain hopens
      have hdec := decryptValue_of_opens hkey hopens
      cases hp : decode plain with
      | none =>
        rw [hp] at hdec
        obtain ⟨m, hm⟩ := herr _ hdec
        cases hm
      | some s =>
        rw [hp] at hdec
        exact ⟨hok s hdec, rfl⟩
    · intro h
      refine ⟨fun s hs => ?_, fun e he => ?_⟩
      · obtain ⟨plain, hopens, -⟩ := (decryptValue_eq_ok hkey).mp hs
        exact (h plain hopens).1
      · by_cases hopens : ∃ plain, Opens c kek plain
        · -- the plaintext is decoded
          obtain ⟨plain, hopens⟩ := hopens
          obtain ⟨s, hp⟩ := Option.isSome_iff_exists.mp (h plain hopens).2
          rw [decryptValue_of_opens hkey hopens, hp] at he
          cases he
        · obtain ⟨m, hm⟩ := decryptValue_of_not_opens hkey fun plain hp => hopens ⟨plain, hp⟩
          exact ⟨m, Except.error.inj (he.symm.trans hm)⟩
  · -- nonce and plaintext settle the bytes, and canonical strings are settled by their bytes
    intro hseal c c' s hc hc' hs hs' hnonce
    have hkek := length_of_decodeKey hkey
    obtain ⟨plain, ⟨raw, hraw, hlen, hversion, hopen⟩, hp⟩ := (decryptValue_eq_ok hkey).mp hs
    obtain ⟨plain', ⟨raw', hraw', hlen', hversion', hopen'⟩, hp'⟩ := (decryptValue_eq_ok hkey).mp hs'
    have hplain : plain = plain' :=
      Option.some.inj ((encode_of_decode hp).symm.trans (encode_of_decode hp'))
    have hsame : (raw.drop version.length).take nonceSize =
        (raw'.drop version.length).take nonceSize := by
      rw [nonceOf, nonceOf, hraw, hraw'] at hnonce
      exact Option.some.inj hnonce
    have hbytes : raw = raw' := by
      rw [raw_of_opens hkek hseal hlen hversion hopen, raw_of_opens hkek hseal hlen' hversion' hopen',
        hsame, hplain]
    obtain ⟨b, hb, hcb⟩ := canonical_iff_encode.mp hc
    obtain ⟨b', hb', hcb'⟩ := canonical_iff_encode.mp hc'
    obtain rfl := Option.some.inj (hb.symm.trans hraw)
    obtain rfl := Option.some.inj (hb'.symm.trans hraw')
    rw [← hcb, ← hcb', hbytes]

end

section Example

/-- The bytes of a token for the empty plaintext. -/
def emptyToken : Bytes :=
  version ++ (sampleNonce.1 ++ tagSeal (keyOf 7).1 aad (keyOf 7).1 [] (some aad))

lemma tagSeal_of_tagOpen {key₀ aad₀ key ct plain : Bytes} {a : Option Bytes}
    (h : tagOpen key₀ aad₀ key ct a = some plain) : tagSeal key₀ aad₀ key plain a = ct := by
  rw [tagOpen] at h
  split at h
  · next htag =>
    obtain rfl := Option.some.inj h
    rw [tagSeal, ← htag, List.take_append_drop]
  · cases h

/-- The token opens in each of its spellings. -/
lemma emptyToken_opens {c : PyStr} (hc : urlsafeB64decode c = some emptyToken) (plain : Bytes) :
    let _ := tagging (keyOf 7).1 aad
    Opens c (keyOf 7).1 plain ↔ plain = [] := by
  intro _
  have hopen : unwrapWithKey (keyOf 7).1 (emptyToken.drop version.length) aad = .ok [] := by
    decide +kernel
  constructor
  · rintro ⟨raw, hraw, -, -, h⟩
    obtain rfl := Option.some.inj (hraw.symm.trans hc)
    exact Except.ok.inj (h.symm.trans hopen)
  · rintro rfl
    exact ⟨emptyToken, hc, by decide, by decide, hopen⟩

/-- The token is taken strictly, and no other canonical one shows the same with its nonce. -/
theorem emptyToken_strict :
    let _ : Base64Text := ⟨fun _ => []⟩
    let _ := tagging (keyOf 7).1 aad
    Strict (urlsafeB64encode emptyToken) (generateKey (keyOf 7)) ∧
      ∀ c, canonical c = true → decryptValue c (generateKey (keyOf 7)) = .ok [] →
        nonceOf c = nonceOf (urlsafeB64encode emptyToken) → c = urlsafeB64encode emptyToken := by
  intro _ _
  have hkey := decodeKey_generateKey (keyOf 7)
  have hraw := urlsafeB64decode_urlsafeB64encode emptyToken
  obtain ⟨hiff, huniq⟩ := strict_iff hkey
  refine ⟨(hiff _).mpr fun plain hopens => ?_, fun c hc hs hnonce => ?_⟩
  · obtain rfl := (emptyToken_opens hraw plain).mp hopens
    exact ⟨by decide +kernel, by decide +kernel⟩
  · have hshown : decryptValue (urlsafeB64encode emptyToken) (generateKey (keyOf 7)) = .ok [] :=
      (decryptValue_eq_ok hkey).mpr ⟨[], (emptyToken_opens hraw []).mpr rfl, rfl⟩
    exact huniq (fun _ _ _ h => tagSeal_of_tagOpen h) c _ [] hc (by decide +kernel) hs hshown hnonce

/-- The token is also decrypted with a line break at its end. -/
theorem line_break_not_strict :
    let _ : Base64Text := ⟨fun _ => []⟩
    let _ := tagging (keyOf 7).1 aad
    ¬ ∀ c key kek, decodeKey key = .ok kek → Strict c key := by
  intro _ _ hall
  have hraw : urlsafeB64decode (urlsafeB64encode emptyToken ++ text "\n") = some emptyToken := by
    decide +kernel
  obtain ⟨hok, -⟩ := hall (urlsafeB64encode emptyToken ++ text "\n") _ _
    (decodeKey_generateKey (keyOf 7))
  obtain ⟨raw, hraw', hback⟩ := hok [] ((decryptValue_eq_ok (decodeKey_generateKey (keyOf 7))).mpr
    ⟨[], (emptyToken_opens hraw []).mpr rfl, rfl⟩)
  obtain rfl := Option.some.inj (hraw'.symm.trans hraw)
  exact absurd (List.self_eq_append_right.mp hback) (by decide)

end Example

end Omkit.Encryption
