import Omkit.Kms.Base
import Omkit.Lib.Join
import Omkit.Lib.Sha256

/-!
# The in-process KMS

`LocalDevKMS` derives the wrapping key of a user and a purpose by an HMAC of the label
`user-U-P`, and binds the two a second time, as `P|U|`, in the associated data.  Each of the two
texts is ambiguous.  This file shows when they are ambiguous together: exactly when the one pair is
the other one cut at another `-` and, at the same time, at another `|`.
-/

namespace Omkit.Kms

open Lib Crypto

/-! ## The adapter -/

/-- `_MASTER_SIZE`. -/
def masterSize : ℕ := 32

/-- `LocalDevKMS`, with the secret that it keeps. -/
structure LocalDevKMS where
  master : Bytes
  size : master.length = masterSize

/-- `LocalDevKMS(master)`, or the text of its `ValueError`. -/
def LocalDevKMS.init (master : Bytes) : Except PyStr LocalDevKMS :=
  if h : master.length < masterSize then
    .error (text "LocalDevKMS master must be at least 32 bytes, got " ++ natText master.length)
  else .ok ⟨master.take masterSize, by rw [List.length_take]; omega⟩

/-- The label of a static key: `omur-kms-derive-v1:` and the id. -/
def staticLabel (keyId : PyStr) : PyStr := text "omur-kms-derive-v1:" ++ keyId

/-- The label of the key of a user and a purpose: `user-U-P`. -/
def userLabel (userId purpose : PyStr) : PyStr :=
  text "user-" ++ userId ++ .scalar '-' :: purpose

/-- The text that `_bind_aad` puts in front of the associated data: `P|U|`. -/
def bindLabel (purpose userId : PyStr) : PyStr :=
  (purpose ++ .scalar '|' :: userId) ++ [.scalar '|']

/-- `_bind_aad`. -/
def bindAad (purpose userId : PyStr) (aad : Bytes) : Except (KmsExc PyStr) Bytes := do
  let label ← encoded (bindLabel purpose userId)
  pure (label ++ aad)

namespace LocalDevKMS

variable (k : LocalDevKMS)

/-- `_static_key`. -/
def staticKey (keyId : PyStr) : Except (KmsExc PyStr) Bytes := do
  let label ← encoded (staticLabel keyId)
  pure (Sha256.hmac k.master label)

/-- `_user_key`. -/
def userKey (userId purpose : PyStr) : Except (KmsExc PyStr) Bytes := do
  let label ← encoded (userLabel userId purpose)
  pure (Sha256.hmac k.master label)

variable [AesGcm]

/-- `wrap`. -/
def wrap (nonce : Nonce) (keyId : PyStr) (plaintext aad : Bytes) :
    Except (KmsExc PyStr) Bytes := do
  let kek ← k.staticKey keyId
  (wrapWithKey nonce kek plaintext aad).mapError .crypto

/-- `unwrap`. -/
def unwrap (keyId : PyStr) (blob aad : Bytes) : Except (KmsExc PyStr) Bytes := do
  let kek ← k.staticKey keyId
  (unwrapWithKey kek blob aad).mapError .crypto

/-- `wrap_dek`: the wrapped key, and the version token. -/
def wrapDek (nonce : Nonce) (userId purpose : PyStr) (plainDek aad : Bytes) :
    Except (KmsExc PyStr) (Bytes × PyStr) := do
  let kek ← k.userKey userId purpose
  let bound ← bindAad purpose userId aad
  let wrapped ← (wrapWithKey nonce kek plainDek bound).mapError .crypto
  pure (wrapped, text "localdev-v1")

/-- `unwrap_dek`: every exception of the envelope becomes a `KMSAuthError`. -/
def unwrapDek (userId purpose : PyStr) (wrapped aad : Bytes) :
    Except (KmsExc PyStr) Bytes := do
  let kek ← k.userKey userId purpose
  let bound ← bindAad purpose userId aad
  match unwrapWithKey kek wrapped bound with
  | .ok dek => .ok dek
  | .error e => .error (.auth e.message 400)

end LocalDevKMS

/-! ## Labels that collide -/

/-- The pair `U`, `P` is the pair `U'`, `P'` cut at a later `-` of its key label, and at an earlier
`|` of its binding. -/
def Reframed (U P U' P' : PyStr) : Prop :=
  Recut (.scalar '-') U P U' P' ∧ Recut (.scalar '|') P' U' P U

lemma userLabel_inj {U P U' P' : PyStr} :
    userLabel U P = userLabel U' P' ↔ U ++ .scalar '-' :: P = U' ++ .scalar '-' :: P' := by
  simp only [userLabel, List.append_assoc, List.append_cancel_left_eq]

lemma bindLabel_inj {U P U' P' : PyStr} :
    bindLabel P U = bindLabel P' U' ↔ P ++ .scalar '|' :: U = P' ++ .scalar '|' :: U' := by
  simp only [bindLabel, List.append_cancel_right_eq]

/-- **The two labels agree at once exactly for one pair, or for a pair and its reframing.** -/
theorem labels_eq_iff {U P U' P' : PyStr} :
    (userLabel U P = userLabel U' P' ∧ bindLabel P U = bindLabel P' U') ↔
      (U = U' ∧ P = P') ∨ Reframed U P U' P' ∨ Reframed U' P' U P := by
  rw [userLabel_inj, bindLabel_inj, join_eq_join_iff, join_eq_join_iff]
  constructor
  · rintro ⟨h | h | h, hb⟩
    · exact Or.inl h
    · -- The purpose grows, so the binding is cut where it grows as well.
      have hlen := h.length_lt
      rcases hb with ⟨hp, -⟩ | hb | hb
      · rw [hp] at hlen
        omega
      · have := hb.length_lt
        omega
      · exact Or.inr (Or.inl ⟨h, hb⟩)
    · have hlen := h.length_lt
      rcases hb with ⟨hp, -⟩ | hb | hb
      · rw [hp] at hlen
        omega
      · exact Or.inr (Or.inr ⟨h, hb⟩)
      · have := hb.length_lt
        omega
  · rintro (⟨rfl, rfl⟩ | ⟨hk, hb⟩ | ⟨hk, hb⟩)
    · exact ⟨Or.inl ⟨rfl, rfl⟩, Or.inl ⟨rfl, rfl⟩⟩
    · exact ⟨Or.inr (Or.inl hk), Or.inr (Or.inr hb)⟩
    · exact ⟨Or.inr (Or.inr hk), Or.inr (Or.inl hb)⟩

/-! ## Keys and bindings of pairs that can be encoded -/

lemma userLabel_wellFormed {U P : PyStr} :
    WellFormed (userLabel U P) ↔ WellFormed U ∧ WellFormed P := by
  rw [userLabel, wellFormed_append, wellFormed_append, wellFormed_scalar_cons]
  simp only [wellFormed_text, true_and]

lemma bindLabel_wellFormed {U P : PyStr} :
    WellFormed (bindLabel P U) ↔ WellFormed U ∧ WellFormed P := by
  have hbar : WellFormed [PyChar.scalar '|'] := ⟨['|'], rfl⟩
  rw [bindLabel, wellFormed_append, wellFormed_append, wellFormed_scalar_cons,
    and_iff_left hbar, and_comm]

/-- The two labels of a pair have the same length in bytes, but for what they add. -/
lemma encode_labels_length {U P : PyStr} {key bnd : Bytes}
    (hkey : encode (userLabel U P) = some key) (hbnd : encode (bindLabel P U) = some bnd) :
    key.length = bnd.length + 4 := by
  obtain ⟨⟨u, rfl⟩, ⟨p, rfl⟩⟩ := userLabel_wellFormed.mp (wellFormed_iff_encode.mpr ⟨key, hkey⟩)
  have hk : userLabel (u.map .scalar) (p.map .scalar) =
      ("user-".toList ++ u ++ '-' :: p).map PyChar.scalar := by
    simp [userLabel, text]
  have hb : bindLabel (p.map .scalar) (u.map .scalar) =
      (p ++ '|' :: u ++ ['|']).map PyChar.scalar := by
    simp [bindLabel]
  rw [hk, encode_map_scalar, Option.some.injEq] at hkey
  rw [hb, encode_map_scalar, Option.some.injEq] at hbnd
  rw [← hkey, ← hbnd]
  have hperm : (utf8 (u ++ p)).length = (utf8 (p ++ u)).length :=
    utf8_length_perm List.perm_append_comm
  have hdash : (utf8 ['-']).length = 1 := rfl
  have hbar : (utf8 ['|']).length = 1 := rfl
  have huser : (utf8 "user-".toList).length = 5 := rfl
  have hd : '-' :: p = ['-'] ++ p := rfl
  have hc : '|' :: u = ['|'] ++ u := rfl
  simp only [hd, hc, utf8_append, List.length_append] at hperm ⊢
  omega

/-- A pair of labels that can be encoded, and their bytes. -/
lemma exists_encode_labels {U P : PyStr} (hU : WellFormed U) (hP : WellFormed P) :
    ∃ key bnd, encode (userLabel U P) = some key ∧ encode (bindLabel P U) = some bnd := by
  obtain ⟨key, hkey⟩ := wellFormed_iff_encode.mp (userLabel_wellFormed.mpr ⟨hU, hP⟩)
  obtain ⟨bnd, hbnd⟩ := wellFormed_iff_encode.mp (bindLabel_wellFormed.mpr ⟨hU, hP⟩)
  exact ⟨key, bnd, hkey, hbnd⟩

/-- **Key label and binding agree as bytes exactly when the data agree and the pairs are one, or
reframed.**  The data are found again because the two bindings have the same length. -/
theorem encoded_labels_eq_iff {U P U' P' : PyStr} {key bnd key' bnd' aad aad' : Bytes}
    (hkey : encode (userLabel U P) = some key) (hbnd : encode (bindLabel P U) = some bnd)
    (hkey' : encode (userLabel U' P') = some key') (hbnd' : encode (bindLabel P' U') = some bnd') :
    (key = key' ∧ bnd ++ aad = bnd' ++ aad') ↔
      aad = aad' ∧ ((U = U' ∧ P = P') ∨ Reframed U P U' P' ∨ Reframed U' P' U P) := by
  rw [← labels_eq_iff, ← encode_eq_iff hkey hkey', ← encode_eq_iff hbnd hbnd']
  constructor
  · rintro ⟨rfl, h⟩
    -- equal keys have equally long bind labels, so the context begins at the same place
    have hlen : bnd.length = bnd'.length := by
      have h₁ := encode_labels_length hkey hbnd
      have h₂ := encode_labels_length hkey' hbnd'
      omega
    obtain ⟨hb', ha⟩ := (append_eq_append_of_length hlen).mp h
    exact ⟨ha, rfl, hb'⟩
  · rintro ⟨rfl, hk', rfl⟩
    exact ⟨hk', rfl⟩

namespace LocalDevKMS

variable {k : LocalDevKMS} {U P U' P' : PyStr} {key bnd dek aad aad' : Bytes}

lemma userKey_of_encode (hkey : encode (userLabel U P) = some key) :
    k.userKey U P = .ok (Sha256.hmac k.master key) := by
  rw [userKey, encoded_eq_ok.mpr hkey]
  rfl

omit k in
lemma bindAad_of_encode (hbnd : encode (bindLabel P U) = some bnd) :
    bindAad P U aad = .ok (bnd ++ aad) := by
  rw [bindAad, encoded_eq_ok.mpr hbnd]
  rfl

lemma userKey_of_not_wellFormed (h : ¬ (WellFormed U ∧ WellFormed P)) :
    k.userKey U P = .error (.std .unicodeEncodeError) := by
  rw [userKey, encoded_of_not_wellFormed fun hw => h (userLabel_wellFormed.mp hw)]
  rfl

section

variable [AesGcm] {nonce : Nonce} {wrapped : Bytes} {version : PyStr}

lemma wrapDek_of_encode (hkey : encode (userLabel U P) = some key)
    (hbnd : encode (bindLabel P U) = some bnd) :
    k.wrapDek nonce U P dek aad =
      .ok (nonce.1 ++ AesGcm.encrypt (Sha256.hmac k.master key) nonce.1 dek (orNone (bnd ++ aad)),
        text "localdev-v1") := by
  rw [wrapDek, userKey_of_encode hkey, bindAad_of_encode hbnd]
  simp only [Bind.bind, Except.bind, wrapWithKey_of_length (Sha256.hmac_length _ _)]
  rfl

lemma unwrapDek_of_encode (hkey : encode (userLabel U P) = some key)
    (hbnd : encode (bindLabel P U) = some bnd) :
    k.unwrapDek U P wrapped aad =
      match unwrapWithKey (Sha256.hmac k.master key) wrapped (bnd ++ aad) with
      | .ok dek => .ok dek
      | .error e => .error (.auth e.message 400) := by
  rw [unwrapDek, userKey_of_encode hkey, bindAad_of_encode hbnd]
  simp only [Bind.bind, Except.bind]

lemma unwrapDek_of_not_wellFormed (h : ¬ (WellFormed U ∧ WellFormed P)) :
    k.unwrapDek U P wrapped aad = .error (.std .unicodeEncodeError) := by
  rw [unwrapDek, userKey_of_not_wellFormed h]
  rfl

lemma wellFormed_of_wrapDek (h : k.wrapDek nonce U P dek aad = .ok (wrapped, version)) :
    WellFormed U ∧ WellFormed P := by
  by_contra hw
  rw [wrapDek, userKey_of_not_wellFormed hw] at h
  cases h

/-- What `wrap_dek` returns, for the labels of its pair. -/
lemma wrapDek_eq_ok (h : k.wrapDek nonce U P dek aad = .ok (wrapped, version)) :
    ∃ key bnd, encode (userLabel U P) = some key ∧ encode (bindLabel P U) = some bnd ∧
      wrapped = nonce.1 ++
        AesGcm.encrypt (Sha256.hmac k.master key) nonce.1 dek (orNone (bnd ++ aad)) := by
  obtain ⟨hU, hP⟩ := wellFormed_of_wrapDek h
  obtain ⟨key, bnd, hkey, hbnd⟩ := exists_encode_labels hU hP
  rw [wrapDek_of_encode hkey hbnd, Except.ok.injEq, Prod.mk.injEq] at h
  exact ⟨key, bnd, hkey, hbnd, h.1.symm⟩

/-- **A wrapped key is unwrapped by the pair and the data it was wrapped for.** -/
theorem unwrapDek_wrapDek (h : k.wrapDek nonce U P dek aad = .ok (wrapped, version)) :
    k.unwrapDek U P wrapped aad = .ok dek := by
  obtain ⟨key, bnd, hkey, hbnd, rfl⟩ := wrapDek_eq_ok h
  have hwrap := @wrapWithKey_of_length _ nonce _ dek (bnd ++ aad) (Sha256.hmac_length k.master key)
  have hopen := unwrapWithKey_wrapWithKey hwrap
  rw [unwrapDek_of_encode hkey hbnd, hopen]

/-! ## Isolation -/

/-- HMAC does not take the labels of the two pairs to one key, unless they are one label. -/
def CollisionFree (k : LocalDevKMS) (U P U' P' : PyStr) : Prop :=
  ∀ l l', encode (userLabel U P) = some l → encode (userLabel U' P') = some l' →
    Sha256.hmac k.master l = Sha256.hmac k.master l' → l = l'

/-- The cipher opens the wrapped key only under the key and the associated data of `wrap_dek`. -/
def SealedFor (k : LocalDevKMS) (nonce : Nonce) (U P : PyStr) (dek aad : Bytes) : Prop :=
  ∀ kek bound, k.userKey U P = .ok kek → bindAad P U aad = .ok bound →
    AesGcm.Authentic kek nonce.1 dek (orNone bound)

/-- `unwrap_dek` rejects the blob with a `KMSAuthError`. -/
def Rejected (k : LocalDevKMS) (U P : PyStr) (wrapped aad : Bytes) : Prop :=
  ∃ message status, k.unwrapDek U P wrapped aad = .error (.auth message status)

/-- The triples that the adapter confuses: the same data for a pair and its reframing. -/
def Confused (U P : PyStr) (aad : Bytes) (U' P' : PyStr) (aad' : Bytes) : Prop :=
  aad = aad' ∧ (Reframed U P U' P' ∨ Reframed U' P' U P)

/-- A blob is opened for the triples whose key label and binding are those of its own. -/
lemma rejected_iff_of_encode {key' bnd' : Bytes}
    (hkey : encode (userLabel U P) = some key) (hbnd : encode (bindLabel P U) = some bnd)
    (hkey' : encode (userLabel U' P') = some key') (hbnd' : encode (bindLabel P' U') = some bnd')
    (hmac : k.CollisionFree U P U' P') (haes : k.SealedFor nonce U P dek aad)
    (hwrap : k.wrapDek nonce U P dek aad = .ok (wrapped, version)) :
    k.Rejected U' P' wrapped aad' ↔ ¬ (key = key' ∧ bnd ++ aad = bnd' ++ aad') := by
  rw [wrapDek_of_encode hkey hbnd, Except.ok.injEq, Prod.mk.injEq] at hwrap
  obtain ⟨rfl, -⟩ := hwrap
  rw [Rejected, unwrapDek_of_encode hkey' hbnd']
  constructor
  · rintro ⟨message, status, h⟩ ⟨rfl, hsame⟩
    rw [← hsame, unwrapWithKey_append (Sha256.hmac_length _ _), AesGcm.decrypt_encrypt] at h
    cases h
  · intro hdiff
    cases hopen : unwrapWithKey (Sha256.hmac k.master key')
        (nonce.1 ++ AesGcm.encrypt (Sha256.hmac k.master key) nonce.1 dek (orNone (bnd ++ aad)))
        (bnd' ++ aad') with
    | error e => exact ⟨e.message, 400, rfl⟩
    | ok dek' =>
      have hauth := haes _ _ (userKey_of_encode hkey) (bindAad_of_encode hbnd)
      obtain ⟨hk, ha⟩ := eq_of_unwrapWithKey (Sha256.hmac_length _ _) hauth hopen
      exact absurd ⟨hmac _ _ hkey hkey' hk.symm, ha.symm⟩ hdiff

/-- **A wrapped key is rejected under another triple exactly when that triple can be encoded and is
not a reframing.** -/
theorem rejected_iff (k : LocalDevKMS) (nonce : Nonce) (U P U' P' : PyStr)
    (dek aad aad' wrapped : Bytes) (version : PyStr)
    (hne : (U, P, aad) ≠ (U', P', aad'))
    (hmac : k.CollisionFree U P U' P') (haes : k.SealedFor nonce U P dek aad)
    (hwrap : k.wrapDek nonce U P dek aad = .ok (wrapped, version)) :
    k.Rejected U' P' wrapped aad' ↔
      WellFormed U' ∧ WellFormed P' ∧ ¬ Confused U P aad U' P' aad' := by
  obtain ⟨hU, hP⟩ := wellFormed_of_wrapDek hwrap
  obtain ⟨key, bnd, hkey, hbnd⟩ := exists_encode_labels hU hP
  by_cases hw : WellFormed U' ∧ WellFormed P'
  · obtain ⟨key', bnd', hkey', hbnd'⟩ := exists_encode_labels hw.1 hw.2
    rw [rejected_iff_of_encode hkey hbnd hkey' hbnd' hmac haes hwrap,
      encoded_labels_eq_iff hkey hbnd hkey' hbnd']
    constructor
    · intro h
      exact ⟨hw.1, hw.2, fun hc => h ⟨hc.1, Or.inr hc.2⟩⟩
    · rintro ⟨-, -, hc⟩ ⟨rfl, ⟨rfl, rfl⟩ | hr⟩
      · exact hne rfl
      · exact hc ⟨rfl, hr⟩
  · constructor
    · rintro ⟨message, status, h⟩
      rw [unwrapDek_of_not_wellFormed hw] at h
      cases h
    · rintro ⟨hU', hP', -⟩
      exact absurd ⟨hU', hP'⟩ hw

end

/-! ## Runs of the adapter -/

/-- A master secret of zeros. -/
def sampleKms : LocalDevKMS := ⟨List.replicate 32 0, rfl⟩

/-- A nonce. -/
def sampleNonce : Nonce := ⟨List.replicate 12 7, rfl⟩

/-- What `wrap_dek` returns with the ideal cipher, for a user, a purpose and a key. -/
def sampleWrapped (U P : PyStr) (dek aad : Bytes) : Bytes :=
  letI := ideal
  ((sampleKms.wrapDek sampleNonce U P dek aad).toOption.map Prod.fst).getD []

lemma sampleKms_sealedFor (U P : PyStr) (dek aad : Bytes) :
    @SealedFor ideal sampleKms sampleNonce U P dek aad :=
  fun _ _ _ _ => ideal_authentic _ _ _ _

lemma wrapDek_sampleKms (dek aad : Bytes) (hU : WellFormed U) (hP : WellFormed P) :
    @wrapDek sampleKms ideal sampleNonce U P dek aad =
      .ok (sampleWrapped U P dek aad, text "localdev-v1") := by
  obtain ⟨key, bnd, hkey, hbnd⟩ := exists_encode_labels hU hP
  rw [sampleWrapped, @wrapDek_of_encode sampleKms U P key bnd dek aad ideal sampleNonce hkey hbnd]
  rfl

lemma collisionFree_of_ne {l l' : Bytes} (hl : encode (userLabel U P) = some l)
    (hl' : encode (userLabel U' P') = some l')
    (hne : Sha256.hmac k.master l ≠ Sha256.hmac k.master l') : k.CollisionFree U P U' P' := by
  intro m m' hm hm' heq
  rw [hl, Option.some.injEq] at hm
  rw [hl', Option.some.injEq] at hm'
  subst hm hm'
  exact absurd heq hne

lemma not_confused_of_length (h : P.length = P'.length) : ¬ Confused U P aad U' P' aad' := by
  rintro ⟨-, ⟨hr, -⟩ | ⟨hr, -⟩⟩
  · have := hr.length_lt
    omega
  · have := hr.length_lt
    omega

/-- The key of `alice` is rejected for `bob`. -/
theorem alice_rejected_for_bob :
    @Rejected ideal sampleKms (text "bob") (text "dek")
      (sampleWrapped (text "alice") (text "dek") [1, 2, 3] [9]) [9] :=
  (@rejected_iff ideal sampleKms sampleNonce (text "alice") (text "dek") (text "bob") (text "dek")
    [1, 2, 3] [9] [9] (sampleWrapped (text "alice") (text "dek") [1, 2, 3] [9])
    (text "localdev-v1") (by decide)
    (collisionFree_of_ne (encode_text "user-alice-dek") (encode_text "user-bob-dek")
      (by decide +kernel))
    (sampleKms_sealedFor _ _ _ _)
    (wrapDek_sampleKms _ _ (wellFormed_text _) (wellFormed_text _))).mpr
    ⟨wellFormed_text _, wellFormed_text _, not_confused_of_length rfl⟩

/-- The user `u-p|u` with the purpose `p`, and the user `u` with the purpose `p|u-p`: the second
opens the key that was wrapped for the first. -/
theorem reframed_pair_unwraps :
    (text "u-p|u", text "p", ([] : Bytes)) ≠ (text "u", text "p|u-p", []) ∧
      sampleKms.CollisionFree (text "u-p|u") (text "p") (text "u") (text "p|u-p") ∧
      @SealedFor ideal sampleKms sampleNonce (text "u-p|u") (text "p") [1, 2, 3] [] ∧
      @wrapDek sampleKms ideal sampleNonce (text "u-p|u") (text "p") [1, 2, 3] [] =
        .ok (sampleWrapped (text "u-p|u") (text "p") [1, 2, 3] [], text "localdev-v1") ∧
      @unwrapDek sampleKms ideal (text "u") (text "p|u-p")
        (sampleWrapped (text "u-p|u") (text "p") [1, 2, 3] []) [] = .ok [1, 2, 3] := by
  have huser : userLabel (text "u-p|u") (text "p") = userLabel (text "u") (text "p|u-p") := by
    decide
  have hbind : bindLabel (text "p") (text "u-p|u") = bindLabel (text "p|u-p") (text "u") := by
    decide
  have hwrap := wrapDek_sampleKms [1, 2, 3] [] (wellFormed_text "u-p|u") (wellFormed_text "p")
  refine ⟨by decide, ?_, sampleKms_sealedFor _ _ _ _, hwrap, ?_⟩
  · intro l l' hl hl' _
    rw [huser, hl'] at hl
    exact (Option.some.inj hl).symm
  · have hunwrap := @unwrapDek_wrapDek sampleKms _ _ _ _ ideal _ _ _ hwrap
    rw [← hunwrap, unwrapDek, unwrapDek, userKey, userKey, bindAad, bindAad, huser, hbind]

end LocalDevKMS

end Omkit.Kms
