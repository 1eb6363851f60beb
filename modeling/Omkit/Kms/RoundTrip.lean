import Omkit.Kms.LocalDev
import Omkit.Kms.Transit

/-!
# What is wrapped is unwrapped

Both adapters give a key back for the pair and the data that it was wrapped under, with one
exception.  An engine returns the empty plaintext as the empty text, and `OpenBaoKMS` takes an empty
text for a field that is missing.
-/

namespace Omkit.Kms

open Lib Crypto

/-! ## The in-process adapter -/

namespace LocalDevKMS

variable [AesGcm] {k : LocalDevKMS} {nonce : Nonce} {keyId U P : PyStr} {plaintext dek aad : Bytes}

/-- `unwrap(key_id, wrap(key_id, plaintext, aad), aad)`. -/
def wrapUnwrap (k : LocalDevKMS) (nonce : Nonce) (keyId : PyStr) (plaintext aad : Bytes) :
    Except (KmsExc PyStr) Bytes := do
  let blob ← k.wrap nonce keyId plaintext aad
  k.unwrap keyId blob aad

/-- `unwrap_dek(user, purpose, wrap_dek(user, purpose, dek, aad)[0], aad)`. -/
def wrapUnwrapDek (k : LocalDevKMS) (nonce : Nonce) (userId purpose : PyStr) (dek aad : Bytes) :
    Except (KmsExc PyStr) Bytes := do
  let (wrapped, _) ← k.wrapDek nonce userId purpose dek aad
  k.unwrapDek userId purpose wrapped aad

omit [AesGcm] in
lemma staticKey_of_not_wellFormed (h : ¬ WellFormed keyId) :
    k.staticKey keyId = .error (.std .unicodeEncodeError) := by
  have hlabel : ¬ WellFormed (staticLabel keyId) := fun hw => h (wellFormed_append.mp hw).2
  rw [staticKey, encoded_of_not_wellFormed hlabel]
  rfl

omit [AesGcm] in
lemma staticKey_of_wellFormed (h : WellFormed keyId) :
    ∃ kek, k.staticKey keyId = .ok kek ∧ kek.length = kekSize := by
  obtain ⟨label, hlabel⟩ := wellFormed_iff_encode.mp
    (wellFormed_append.mpr ⟨wellFormed_text "omur-kms-derive-v1:", h⟩)
  refine ⟨Sha256.hmac k.master label, ?_, Sha256.hmac_length _ _⟩
  rw [staticKey, staticLabel, encoded_eq_ok.mpr hlabel]
  rfl

theorem wrapUnwrap_eq_ok_iff :
    k.wrapUnwrap nonce keyId plaintext aad = .ok plaintext ↔ WellFormed keyId := by
  constructor
  · intro h
    by_contra hw
    rw [wrapUnwrap, wrap, staticKey_of_not_wellFormed hw] at h
    cases h
  · intro hw
    obtain ⟨kek, hkek, hlen⟩ := k.staticKey_of_wellFormed hw
    have hwrap : wrapWithKey nonce kek plaintext aad = .ok _ := wrapWithKey_of_length hlen
    have hopen := unwrapWithKey_wrapWithKey hwrap
    rw [wrapUnwrap, wrap, hkek]
    show (do
      let blob ← (wrapWithKey nonce kek plaintext aad).mapError KmsExc.crypto
      k.unwrap keyId blob aad) = _
    rw [hwrap]
    show k.unwrap keyId _ aad = _
    rw [unwrap, hkek]
    show (unwrapWithKey kek _ aad).mapError KmsExc.crypto = _
    rw [hopen]
    rfl

theorem wrapUnwrapDek_eq_ok_iff :
    k.wrapUnwrapDek nonce U P dek aad = .ok dek ↔ WellFormed U ∧ WellFormed P := by
  constructor
  · intro h
    by_contra hw
    rw [wrapUnwrapDek, wrapDek, userKey_of_not_wellFormed hw] at h
    cases h
  · rintro ⟨hU, hP⟩
    obtain ⟨key, bnd, hkey, hbnd⟩ := exists_encode_labels hU hP
    have hlen := Sha256.hmac_length k.master key
    have hwrap : wrapWithKey nonce (Sha256.hmac k.master key) dek (bnd ++ aad) = .ok _ :=
      wrapWithKey_of_length hlen
    rw [wrapUnwrapDek, wrapDek_of_encode hkey hbnd]
    show k.unwrapDek U P _ aad = _
    rw [unwrapDek_of_encode hkey hbnd, unwrapWithKey_wrapWithKey hwrap]

end LocalDevKMS

/-! ## An engine at work -/

section Engine

variable {F : Type} [JsonRuntime F]

/-- The JSON of a response with status 200 and a body under 64 KiB. -/
def Exchange.json (F : Type) [JsonRuntime F] : Exchange → Option (Json F)
  | .response 200 content =>
    if content.length < maxRespBytes then
      (Exchange.response 200 content).read (F := F) |>.toOption
    else none
  | _ => none

/-- The path of a login. -/
def loginPath : PyStr := text "/v1/auth/approle/login"

variable [PyNumbers F]

/-- A login that is granted: a token, for a number of seconds that a clock can hold. -/
def grantsLogin (v : Json F) : Bool :=
  match OpenBaoKMS.loginFields v with
  | .ok (.str t, lease) => t ≠ [] ∧ lease < 2 ^ 1024 - 2 ^ 970
  | _ => false

/-- A plaintext that is encrypted: a ciphertext in ASCII, and the version of its key. -/
def grantsEncrypt (v : Json F) : Bool :=
  match OpenBaoKMS.dataOf v with
  | .ok data => match data.get (text "ciphertext"), data.get (text "key_version") with
    | .ok (.str ct), .ok kv => ct ≠ [] ∧ (encodeAscii ct).isSome ∧ kv.instanceInt.isSome
    | _, _ => false
  | .error _ => false

/-- A ciphertext that is decrypted: some text. -/
def grantsDecrypt (v : Json F) : Bool :=
  match OpenBaoKMS.dataOf v >>= (·.get (text "plaintext")) with
  | .ok (.str _) => true
  | _ => false

/-- Does the engine grant the request?  It need not decrypt what it has not issued, nor answer
anything else. -/
def Transit.grants (addr : PyStr) (w : Transit) (r : Request F) (ex : Exchange) : Bool :=
  if r.url = addr ++ loginPath then (ex.json F).any grantsLogin
  else match after (addr ++ encryptPath) r.url, after (addr ++ decryptPath) r.url with
    | some _, _ => (ex.json F).any grantsEncrypt
    | none, some key =>
      (ex.json F).any grantsDecrypt || w.issued.all fun i =>
        i.key ≠ key ∨ i.ciphertext ≠ r.field (text "ciphertext") ∨
          i.context ≠ r.field (text "context")
    | none, none => true

/-- An engine at work: it answers as an engine does, and it grants what it is asked. -/
def Transit.serve (addr : PyStr) (w : Transit) : (c : BaoCall F) → BaoAnswer c → Option Transit
  | .request r, ex => if w.grants addr r ex then w.answer addr (.request r) ex else none
  | c, a => w.answer addr c a

variable {addr : PyStr} {w v : Transit}

lemma Transit.answer_of_serve {c : BaoCall F} {a : BaoAnswer c} (h : w.serve addr c a = some v) :
    w.answer addr c a = some v := by
  unfold Transit.serve at h
  split at h
  · split at h
    · exact h
    · cases h
  · exact h

lemma Transit.grants_of_serve {r : Request F} {ex : Exchange}
    (h : w.serve addr (.request r) ex = some v) : w.grants addr r ex = true := by
  simp only [Transit.serve] at h
  split at h
  · assumption
  · cases h

omit [PyNumbers F] in
lemma Exchange.read_of_json {ex : Exchange} {v : Json F} (h : ex.json F = some v) :
    (ex.read : Except (BaoExc F) (Json F)) = .ok v := by
  unfold Exchange.json at h
  split at h
  · split at h
    · rename_i content _
      cases hread : ((Exchange.response 200 content).read : Except (BaoExc F) (Json F)) with
      | ok u =>
        rw [hread] at h
        exact congrArg Except.ok (Option.some.inj h)
      | error e =>
        rw [hread] at h
        cases h
    · cases h
  · cases h

/-! ## Requests that are granted -/

section Requests

variable {k : OpenBaoKMS} {s : TokenState F} {method path : PyStr}
variable {body : Option (List (PyStr × Json F))} {I : Transit → Prop}

/-- A request whose answers can all be read. -/
lemma wp_doRaw_of_read {token : Json F} {Q : Except (BaoExc F) (Json F) → TokenState F → Transit → Prop}
    (h : ∀ tok ex v, w.serve k.addr (.request ⟨method, k.addr ++ path, tok, body⟩) ex = some v →
      ∃ j, (ex.read : Except (BaoExc F) (Json F)) = .ok j ∧ Q (.ok j) s v) :
    Coro.wp (Transit.serve k.addr) Q (k.doRaw method path token body).run s w := by
  rw [OpenBaoKMS.doRaw, Coro.wp_bindE, wp_send]
  intro ex v hv
  obtain ⟨j, hj, hQ⟩ := h _ ex v hv
  show Q ex.read s v
  rw [hj]
  exact hQ

omit [JsonRuntime F] [PyNumbers F] in
/-- The lease that stands in for one that is not positive. -/
lemma hour_lt_maxFloat : (3600 : ℤ) < 2 ^ 1024 - 2 ^ 970 := by
  have hpos : (0 : ℤ) < 2 ^ 970 := by positivity
  have hpow : (2 : ℤ) ^ 1024 = 2 ^ 970 * 2 ^ 54 := pow_add 2 970 54
  rw [hpow]
  generalize (2 : ℤ) ^ 970 = x at *
  omega

omit [JsonRuntime F] [PyNumbers F] in
lemma addSeconds_of_lt {t : ℚ} {n : ℤ} (h : n < 2 ^ 1024 - 2 ^ 970) :
    ∃ u, addSeconds t (if n ≤ 0 then 3600 else n) = .ok u := by
  refine ⟨_, if_neg (not_le.mpr ?_)⟩
  split
  · exact hour_lt_maxFloat
  · exact h

/-- What is preserved by every answer of the engine. -/
def Kept (F : Type) [JsonRuntime F] [PyNumbers F] (addr : PyStr) (I : Transit → Prop) : Prop :=
  ∀ {w v : Transit} {c : BaoCall F} {a : BaoAnswer c}, I w → w.answer addr c a = some v → I v

/-- A login succeeds. -/
lemma wp_loginLocked_served (hI : Kept F k.addr I) (hw : I w) :
    Coro.wp (Transit.serve k.addr) (fun r _ v => I v ∧ ∃ tok, r = .ok tok)
      (k.loginLocked : Bao F (Json F)).run s w := by
  rw [OpenBaoKMS.loginLocked, Coro.wp_bindE]
  refine wp_doRaw_of_read fun tok ex v hv => ?_
  have hgrants := Transit.grants_of_serve hv
  simp only [Transit.grants, loginPath, if_pos] at hgrants
  obtain ⟨j, hj, hlogin⟩ := (Option.any_eq_true _ _).mp hgrants
  refine ⟨j, Exchange.read_of_json hj, ?_⟩
  have hv' : I v := hI hw (Transit.answer_of_serve hv)
  unfold grantsLogin at hlogin
  split at hlogin
  · rename_i t lease hfields
    simp only [decide_eq_true_eq] at hlogin
    have htruthy : ((.str t : Json F).truthy = false) ↔ False := by
      simp [Json.truthy, hlogin.1]
    simp only [hfields, htruthy, if_false]
    rw [wp_modify_bind, wp_monotonic_bind]
    intro now u hu
    have hu' : I u := hI hv' (Transit.answer_of_serve hu)
    obtain ⟨expiry, hexpiry⟩ := addSeconds_of_lt (t := now) hlogin.2
    rw [hexpiry]
    exact ⟨hu', .str t, rfl⟩
  · cases hlogin

/-- The adapter gets a token. -/
lemma wp_getToken_served (hI : Kept F k.addr I) (hw : I w) :
    Coro.wp (Transit.serve k.addr) (fun r _ v => I v ∧ ∃ tok, r = .ok tok)
      (k.getToken : Bao F (Json F)).run s w := by
  have hlocked : ∀ v : Transit, I v →
      Coro.wp (Transit.serve k.addr) (fun r _ v => I v ∧ ∃ tok, r = .ok tok)
        (k.tokenLocked : Bao F (Json F)).run s v := by
    intro v hv
    rw [OpenBaoKMS.tokenLocked, wp_read_bind]
    split
    · rw [wp_monotonic_bind]
      intro now u hu
      have hu' : I u := hI hv (Transit.answer_of_serve hu)
      split
      · exact ⟨hu', s.token, rfl⟩
      · exact wp_loginLocked_served hI hu'
    · exact wp_loginLocked_served hI hv
  rw [OpenBaoKMS.getToken, wp_withLock]
  intro a v hv
  refine (hlocked v (hI hw (Transit.answer_of_serve hv))).mono fun r s' v' hr => ?_
  intro b u hu
  exact ⟨hI hr.1 (Transit.answer_of_serve hu), hr.2⟩

/-- A request whose answers can all be read is answered, and at once: no token is refused. -/
lemma wp_doAuthed_served {P : Json F → Transit → Prop} (hI : Kept F k.addr I) (hw : I w)
    (hserve : ∀ tok ex u v, I u →
      u.serve k.addr (.request ⟨method, k.addr ++ path, tok, body⟩) ex = some v →
        ∃ j, (ex.read : Except (BaoExc F) (Json F)) = .ok j ∧ P j v) :
    Coro.wp (Transit.serve k.addr) (fun r _ v => ∃ j, r = .ok j ∧ P j v)
      (k.doAuthed method path body : Bao F (Json F)).run s w := by
  rw [OpenBaoKMS.doAuthed, Coro.wp_bindE]
  refine (wp_getToken_served hI hw).mono fun r s v hr => ?_
  obtain ⟨hv, tok, rfl⟩ := hr
  dsimp only
  rw [Coro.wp_bindE, wp_lift]
  refine wp_doRaw_of_read fun tok' ex u hu => ?_
  obtain ⟨j, hj, hP⟩ := hserve tok' ex v u hv hu
  exact ⟨j, hj, j, rfl, hP⟩

end Requests

/-! ## The two requests -/

section Ciphertexts

variable {k : OpenBaoKMS} {s : TokenState F} {key pt64 ctx ct : PyStr}

omit [JsonRuntime F] [PyNumbers F] in
lemma after_login_ne {path key : PyStr} (h : path = encryptPath ∨ path = decryptPath) :
    ¬ addr ++ (path ++ key) = addr ++ loginPath := by
  intro he
  have htake := congrArg (List.take 5) (List.append_cancel_left he)
  rcases h with rfl | rfl <;>
  · rw [List.take_append_of_le_length (by decide)] at htake
    exact absurd htake (by decide)

/-- The engine encrypts: it issues a ciphertext in ASCII for what is in the request. -/
lemma wp_encrypt_served {body : List (PyStr × Json F)}
    (hpt : body.lookup (text "plaintext") = some (.str pt64))
    (hctx : body.lookup (text "context") = some (.str ctx)) :
    Coro.wp (Transit.serve k.addr)
      (fun r _ v => ∃ resp, r = .ok resp ∧ ∃ data ct kv blob,
        OpenBaoKMS.dataOf resp = .ok data ∧ data.get (text "ciphertext") = .ok (.str ct) ∧
        data.get (text "key_version") = .ok kv ∧ kv.instanceInt.isSome = true ∧ ct ≠ [] ∧
        encodeAscii ct = some blob ∧ ⟨key, ct, pt64, ctx⟩ ∈ v.issued)
      (k.doAuthed (text "POST") (text "/v1/transit/encrypt/" ++ key) (some body)).run s w := by
  refine wp_doAuthed_served (I := fun _ => True) (fun _ _ => trivial) trivial ?_
  intro tok ex u v _ hv
  have hgrants := Transit.grants_of_serve hv
  have hanswer := Transit.answer_of_serve hv
  have hurl : ¬ k.addr ++ (text "/v1/transit/encrypt/" ++ key) = k.addr ++ loginPath :=
    after_login_ne (Or.inl rfl)
  have hafter : after (k.addr ++ encryptPath) (k.addr ++ (text "/v1/transit/encrypt/" ++ key)) =
      some key := after_encrypt k.addr key
  simp only [Transit.grants, if_neg hurl, hafter] at hgrants
  obtain ⟨resp, hresp, hgrant⟩ := (Option.any_eq_true _ _).mp hgrants
  have hread := Exchange.read_of_json hresp
  refine ⟨resp, hread, ?_⟩
  unfold grantsEncrypt at hgrant
  split at hgrant
  · rename_i data hdata
    split at hgrant
    · rename_i ct kv hct hkv
      simp only [decide_eq_true_eq] at hgrant
      obtain ⟨hne, hascii, hint⟩ := hgrant
      obtain ⟨blob, hblob⟩ := Option.isSome_iff_exists.mp hascii
      refine ⟨data, ct, kv, blob, hdata, hct, hkv, hint, hne, hblob, ?_⟩
      have hfield : Exchange.field F ex (text "ciphertext") = some ct :=
        field_of_read hread hdata hct
      simp only [Transit.answer, hafter, hfield] at hanswer
      split at hanswer
      · cases hanswer
      · rw [← Option.some.inj hanswer]
        simp [Request.field, hpt, hctx]
    · cases hgrant
  · cases hgrant

/-- The engine decrypts what it has issued, for the context that it was issued for. -/
lemma wp_decrypt_served {body : List (PyStr × Json F)} (hw : w.Functional)
    (hissued : ⟨key, ct, pt64, ctx⟩ ∈ w.issued)
    (hct : body.lookup (text "ciphertext") = some (.str ct))
    (hctx : body.lookup (text "context") = some (.str ctx)) :
    Coro.wp (Transit.serve k.addr)
      (fun r _ _ => ∃ resp, r = .ok resp ∧
        (OpenBaoKMS.dataOf resp >>= (·.get (text "plaintext"))) = .ok (.str pt64))
      (k.doAuthed (text "POST") (text "/v1/transit/decrypt/" ++ key) (some body)).run s w := by
  refine wp_doAuthed_served (I := fun w => w.Functional ∧ ⟨key, ct, pt64, ctx⟩ ∈ w.issued)
    (fun h ha => ⟨Transit.functional_of_answer h.1 ha, Transit.mem_of_answer ha h.2⟩)
    ⟨hw, hissued⟩ ?_
  rintro tok ex u v ⟨hfun, hmem⟩ hv
  have hgrants := Transit.grants_of_serve hv
  have hanswer := Transit.answer_of_serve hv
  have hurl : ¬ k.addr ++ (text "/v1/transit/decrypt/" ++ key) = k.addr ++ loginPath :=
    after_login_ne (Or.inr rfl)
  have hafter : after (k.addr ++ decryptPath) (k.addr ++ (text "/v1/transit/decrypt/" ++ key)) =
      some key := after_decrypt k.addr key
  have hnone : after (k.addr ++ encryptPath) (k.addr ++ (text "/v1/transit/decrypt/" ++ key)) =
      none := after_encrypt_decrypt k.addr key
  have hknown : (u.issued.all fun i => i.key ≠ key ∨ i.ciphertext ≠ ct ∨ i.context ≠ ctx) =
      false := by
    rw [List.all_eq_false]
    exact ⟨_, hmem, by simp⟩
  simp only [Transit.grants, if_neg hurl, hafter, hnone, Request.field, Option.bind_some, hct,
    hctx, hknown, Bool.or_false] at hgrants
  obtain ⟨resp, hresp, hgrant⟩ := (Option.any_eq_true _ _).mp hgrants
  have hread := Exchange.read_of_json hresp
  refine ⟨resp, hread, ?_⟩
  unfold grantsDecrypt at hgrant
  split at hgrant
  · rename_i pt hpt
    have hfield : Exchange.field F ex (text "plaintext") = some pt := by
      simp only [Exchange.field, hread, hpt]
    simp only [Transit.answer, hafter, hnone, hfield, Request.field, Option.bind_some, hct,
      hctx] at hanswer
    split at hanswer
    · rename_i hsame
      -- a ciphertext is issued once
      have := hfun _ hsame _ hmem rfl rfl
      rw [hpt, (Issue.mk.inj this).2.2.1]
    · cases hanswer
  · cases hgrant

end Ciphertexts

/-! ## The methods -/

namespace OpenBaoKMS

variable {k : OpenBaoKMS} {s : TokenState F} {keyId ct ctx U P : PyStr}
variable {plaintext dek aad blob wrapped : Bytes}

lemma wp_wrap_served :
    Coro.wp (Transit.serve k.addr)
      (fun r _ v => ∃ blob ct, r = .ok blob ∧ encodeAscii ct = some blob ∧
        ⟨keyId, ct, b64encode plaintext, b64encode aad⟩ ∈ v.issued)
      (k.wrap keyId plaintext aad : Bao F Bytes).run s w := by
  have hpt : [(text "plaintext", (.str (b64encode plaintext) : Json F)),
      (text "context", .str (b64encode aad))].lookup (text "plaintext") =
      some (.str (b64encode plaintext)) := rfl
  have hctx : [(text "plaintext", (.str (b64encode plaintext) : Json F)),
      (text "context", .str (b64encode aad))].lookup (text "context") =
      some (.str (b64encode aad)) := rfl
  rw [wrap, Coro.wp_bindE]
  refine (wp_encrypt_served hpt hctx).mono fun r s v hr => ?_
  obtain ⟨resp, rfl, data, ct, kv, blob, hdata, hct, -, -, hne, hblob, hissued⟩ := hr
  have htruthy : (.str ct : Json F).truthy = true := by simp [Json.truthy, hne]
  have hfield : (dataOf resp >>= (·.get (text "ciphertext"))) = .ok (.str ct) := by
    rw [hdata]
    exact hct
  have hbytes : asciiBytes (.str ct : Json F) = .ok blob := by rw [asciiBytes, hblob]
  simp only [hfield]
  show Coro.wp _ _ (if (Json.orElse (.str ct) (.str []) : Json F).truthy = false then _
    else Bao.ofStd (asciiBytes (Json.orElse (.str ct) (.str []) : Json F))).run s v
  rw [Json.orElse, if_pos htruthy, htruthy, if_neg (by decide), hbytes]
  exact ⟨blob, ct, rfl, hblob, hissued⟩

lemma wp_wrapDek_served (hctx : derivedContext U P aad = (.ok ctx : Except (BaoExc F) PyStr)) :
    Coro.wp (Transit.serve k.addr)
      (fun r _ v => ∃ wrapped version ct, r = .ok (wrapped, version) ∧
        encodeAscii ct = some wrapped ∧ ⟨k.keyName, ct, b64encode dek, ctx⟩ ∈ v.issued)
      (k.wrapDek U P dek aad : Bao F _).run s w := by
  rw [wrapDek, hctx]
  show Coro.wp _ _ (k.doAuthed _ _ _ >>= _).run s w
  have hpt : [(text "plaintext", (.str (b64encode dek) : Json F)),
      (text "context", .str ctx)].lookup (text "plaintext") = some (.str (b64encode dek)) := rfl
  have hbody : [(text "plaintext", (.str (b64encode dek) : Json F)),
      (text "context", .str ctx)].lookup (text "context") = some (.str ctx) := rfl
  rw [Coro.wp_bindE]
  refine (wp_encrypt_served hpt hbody).mono fun r s v hr => ?_
  obtain ⟨resp, rfl, data, ct, kv, blob, hdata, hct, hkv, hint, hne, hblob, hissued⟩ := hr
  obtain ⟨version, hversion⟩ := Option.isSome_iff_exists.mp hint
  have htruthy : (.str ct : Json F).truthy = true := by simp [Json.truthy, hne]
  have hbytes : asciiBytes (.str ct : Json F) = .ok blob := by rw [asciiBytes, hblob]
  simp only [hdata]
  show Coro.wp _ _ (Bao.ofStd (data.get (text "ciphertext")) >>= _).run s v
  rw [hct, Bao.ofStd_ok_bind, hkv, Bao.ofStd_ok_bind, Json.orElse, if_pos htruthy, htruthy, hversion]
  show Coro.wp _ _ (Bao.ofStd (asciiBytes (.str ct : Json F)) >>= _).run s v
  rw [hbytes]
  exact ⟨blob, _, ct, rfl, hblob, hissued⟩

omit [JsonRuntime F] in
/-- What becomes of a plaintext in a response: the empty one is taken for a missing one. -/
lemma wp_plaintext {E : Transit → (c : BaoCall F) → BaoAnswer c → Option Transit} {resp : Json F}
    {what message : PyStr}
    (hpt : (dataOf resp >>= (·.get (text "plaintext"))) = .ok (.str (b64encode plaintext))) :
    Coro.wp E (fun r _ _ => r = .ok plaintext ↔ plaintext ≠ [])
      (do
        let pt ← Bao.ofStd (dataOf resp >>= (·.get (text "plaintext")))
        let pt := pt.orElse (.str [])
        if pt.truthy = false then throw (.unavailable (.text message) 0)
        else Bao.ofExcept (plaintextOf what pt) : Bao F Bytes).run s w := by
  rw [hpt]
  show Coro.wp E _ (if (Json.orElse (.str (b64encode plaintext)) (.str []) : Json F).truthy = false
    then throw (.unavailable (.text message) 0)
    else Bao.ofExcept (plaintextOf what
      (Json.orElse (.str (b64encode plaintext)) (.str []) : Json F)) : Bao F Bytes).run s w
  by_cases hne : plaintext = []
  · subst hne
    refine iff_of_false (fun h => ?_) (not_not.mpr rfl)
    cases h
  · have hb64 : b64encode plaintext ≠ [] := fun h => hne (b64encode_injective h)
    have htruthy : (.str (b64encode plaintext) : Json F).truthy = true := by
      simp [Json.truthy, hb64]
    have hplain : plaintextOf what (.str (b64encode plaintext) : Json F) = .ok plaintext := by
      rw [plaintextOf, b64decode_b64encode]
    rw [Json.orElse, if_pos htruthy, htruthy, if_neg (by decide), hplain]
    exact iff_of_true rfl hne

omit [JsonRuntime F] [PyNumbers F] in
lemma asciiText_of_encodeAscii (h : encodeAscii ct = some blob) : asciiText blob = .ok ct := by
  rw [asciiText, decodeAscii_encodeAscii h]

lemma wp_unwrap_served (hw : w.Functional) (hblob : encodeAscii ct = some blob)
    (hissued : ⟨keyId, ct, b64encode plaintext, b64encode aad⟩ ∈ w.issued) :
    Coro.wp (Transit.serve k.addr) (fun r _ _ => r = .ok plaintext ↔ plaintext ≠ [])
      (k.unwrap keyId blob aad : Bao F Bytes).run s w := by
  rw [unwrap, asciiText_of_encodeAscii hblob]
  show Coro.wp _ _ (k.doAuthed _ _ _ >>= _).run s w
  rw [Coro.wp_bindE]
  refine (wp_decrypt_served hw hissued rfl rfl).mono fun r s v hr => ?_
  obtain ⟨resp, rfl, hpt⟩ := hr
  exact wp_plaintext hpt

lemma wp_unwrapDek_served (hctx : derivedContext U P aad = (.ok ctx : Except (BaoExc F) PyStr))
    (hw : w.Functional) (hwrapped : encodeAscii ct = some wrapped)
    (hissued : ⟨k.keyName, ct, b64encode dek, ctx⟩ ∈ w.issued) :
    Coro.wp (Transit.serve k.addr) (fun r _ _ => r = .ok dek ↔ dek ≠ [])
      (k.unwrapDek U P wrapped aad : Bao F Bytes).run s w := by
  rw [unwrapDek, hctx, asciiText_of_encodeAscii hwrapped]
  show Coro.wp _ _ (k.doAuthed _ _ _ >>= _).run s w
  rw [Coro.wp_bindE]
  refine (wp_decrypt_served hw hissued rfl rfl).mono fun r s v hr => ?_
  obtain ⟨resp, rfl, hpt⟩ := hr
  exact wp_plaintext hpt

/-! ## Round trips -/

/-- A result of `unwrap(key_id, wrap(key_id, plaintext, aad), aad)` with an engine at work, in any
state of the kept token.  Between the two, anybody may do anything with the engine. -/
def WrapUnwrap (F : Type) [JsonRuntime F] [PyNumbers F] (k : OpenBaoKMS) (keyId : PyStr)
    (plaintext aad : Bytes) (r' : Except (BaoExc F) Bytes) : Prop :=
  ∃ (s s₁ : TokenState F) (w w₁ : Transit) (r : Except (BaoExc F) Bytes),
    Transit.Later F k.addr Transit.empty w ∧
    Coro.Runs (Transit.serve k.addr) (k.wrap keyId plaintext aad).run s w r s₁ w₁ ∧
    match r with
    | .error e => r' = .error e
    | .ok blob => ∃ (s₂ s₃ : TokenState F) (w₂ w₃ : Transit), Transit.Later F k.addr w₁ w₂ ∧
      Coro.Runs (Transit.serve k.addr) (k.unwrap keyId blob aad).run s₂ w₂ r' s₃ w₃

/-- A result of `unwrap_dek(user, purpose, wrap_dek(user, purpose, dek, aad)[0], aad)`. -/
def WrapUnwrapDek (F : Type) [JsonRuntime F] [PyNumbers F] (k : OpenBaoKMS) (userId purpose : PyStr)
    (dek aad : Bytes) (r' : Except (BaoExc F) Bytes) : Prop :=
  ∃ (s s₁ : TokenState F) (w w₁ : Transit) (r : Except (BaoExc F) (Bytes × PyStr)),
    Transit.Later F k.addr Transit.empty w ∧
    Coro.Runs (Transit.serve k.addr) (k.wrapDek userId purpose dek aad).run s w r s₁ w₁ ∧
    match r with
    | .error e => r' = .error e
    | .ok (wrapped, _) => ∃ (s₂ s₃ : TokenState F) (w₂ w₃ : Transit),
      Transit.Later F k.addr w₁ w₂ ∧
      Coro.Runs (Transit.serve k.addr) (k.unwrapDek userId purpose wrapped aad).run s₂ w₂ r' s₃ w₃

/-- Every exchange with an engine at work is one that an engine may have. -/
lemma later_of_serves {α : Type} {x : BaoIo F α} {s s' : TokenState F} {a : α}
    (h : Coro.Runs (Transit.serve k.addr) x s w a s' v) : Transit.Later F k.addr w v :=
  h.outside (fun _ => .refl) (fun h₁ h₂ => h₁.trans h₂)
    (fun hE => .single ⟨_, _, Transit.answer_of_serve hE⟩)

theorem wrapUnwrap_eq_ok_iff {r : Except (BaoExc F) Bytes}
    (h : k.WrapUnwrap F keyId plaintext aad r) : r = .ok plaintext ↔ plaintext ≠ [] := by
  obtain ⟨s, s₁, w, w₁, r₁, hw, hwrap, hrest⟩ := h
  obtain ⟨blob, ct, rfl, hblob, hissued⟩ := wp_wrap_served.runs hwrap
  obtain ⟨s₂, s₃, w₂, w₃, hlater, hunwrap⟩ := hrest
  have hall := (hw.trans (later_of_serves hwrap)).trans hlater
  exact (wp_unwrap_served (Transit.Later.functional hall Transit.empty_functional) hblob
    (Transit.Later.mem hlater hissued)).runs hunwrap

theorem wrapUnwrapDek_eq_ok_iff {r : Except (BaoExc F) Bytes}
    (h : k.WrapUnwrapDek F U P dek aad r) :
    r = .ok dek ↔ dek ≠ [] ∧ WellFormed U ∧ WellFormed P := by
  obtain ⟨s, s₁, w, w₁, r₁, hw, hwrap, hrest⟩ := h
  by_cases hUP : WellFormed U ∧ WellFormed P
  · have hwf : WellFormed (contextText U P aad) := contextText_wellFormed.mpr hUP
    obtain ⟨b, hb⟩ := wellFormed_iff_encode.mp hwf
    have hctx : derivedContext U P aad = (.ok (b64encode b) : Except (BaoExc F) PyStr) :=
      derivedContext_eq_ok.mpr ⟨b, hb, rfl⟩
    obtain ⟨wrapped, version, ct, rfl, hwrapped, hissued⟩ := (wp_wrapDek_served hctx).runs hwrap
    obtain ⟨s₂, s₃, w₂, w₃, hlater, hunwrap⟩ := hrest
    have hall := (hw.trans (later_of_serves hwrap)).trans hlater
    rw [and_iff_left hUP]
    exact (wp_unwrapDek_served hctx (Transit.Later.functional hall Transit.empty_functional) hwrapped
      (Transit.Later.mem hlater hissued)).runs hunwrap
  · -- nothing is sent for a text that cannot be encoded
    have hwp : Coro.wp (Transit.serve k.addr) (fun r _ _ => ∃ e, r = .error e)
        (k.wrapDek U P dek aad : Bao F _).run s w := by
      refine wp_ofExcept_bind (fun e _ => ⟨e, rfl⟩) fun ctx hctx => ?_
      obtain ⟨b, hb, -⟩ := derivedContext_eq_ok.mp hctx
      exact absurd (contextText_wellFormed.mp (wellFormed_iff_encode.mpr ⟨b, hb⟩)) hUP
    obtain ⟨e, rfl⟩ := hwp.runs hwrap
    refine iff_of_false ?_ fun h => hUP h.2
    have hr : r = .error e := hrest
    rw [hr]
    intro h
    cases h

end OpenBaoKMS

end Engine

/-- **Both adapters give a key back exactly when the texts can be encoded and, for `OpenBaoKMS`, the
key is not empty.** -/
theorem round_trip_iff [AesGcm] {F : Type} [JsonRuntime F] [PyNumbers F] (l : LocalDevKMS)
    (k : OpenBaoKMS) (nonce : Nonce) (keyId userId purpose : PyStr) (plaintext aad : Bytes) :
    (l.wrapUnwrap nonce keyId plaintext aad = .ok plaintext ↔ WellFormed keyId) ∧
    (l.wrapUnwrapDek nonce userId purpose plaintext aad = .ok plaintext ↔
      WellFormed userId ∧ WellFormed purpose) ∧
    (∀ r, k.WrapUnwrap F keyId plaintext aad r → (r = .ok plaintext ↔ plaintext ≠ [])) ∧
    ∀ r, k.WrapUnwrapDek F userId purpose plaintext aad r →
      (r = .ok plaintext ↔ plaintext ≠ [] ∧ WellFormed userId ∧ WellFormed purpose) :=
  ⟨LocalDevKMS.wrapUnwrap_eq_ok_iff, LocalDevKMS.wrapUnwrapDek_eq_ok_iff,
    fun _ => OpenBaoKMS.wrapUnwrap_eq_ok_iff, fun _ => OpenBaoKMS.wrapUnwrapDek_eq_ok_iff⟩

section Example

open LocalDevKMS (sampleKms sampleNonce)

/-- An engine that grants everything, for one plaintext. -/
def servingOracle (pt64 : String) (_ : Transit) : (c : BaoCall Empty) → BaoAnswer c
  | .lock => ()
  | .unlock => ()
  | .monotonic => (0 : ℚ)
  | .request r =>
    if r.url = sampleBao.addr ++ loginPath then
      okResponse "\x7b\"auth\":\x7b\"client_token\":\"t\"\x7d\x7d"
    else if (after (sampleBao.addr ++ encryptPath) r.url).isSome then
      okResponse "\x7b\"data\":\x7b\"ciphertext\":\"vault:v1:x\",\"key_version\":1\x7d\x7d"
    else okResponse ("\x7b\"data\":\x7b\"plaintext\":\"" ++ pt64 ++ "\"\x7d\x7d")

/-- A result of `unwrap_dek` after `wrap_dek` with that engine. -/
lemma wrapUnwrapDek_of_eval (pt64 : String) (U P : PyStr) (dek : Bytes) (i : Issue)
    (p : Except (BaoExc Empty) Bytes → Bool)
    (hwrap : (Coro.eval (Transit.serve sampleBao.addr) (servingOracle pt64)
      (sampleBao.wrapDek U P dek []).run .initial Transit.empty).any (fun e =>
        e.1.toOption = some (utf8 "vault:v1:x".toList, text "v1") ∧ e.2.2.issued = [i]) = true)
    (hunwrap : (Coro.eval (Transit.serve sampleBao.addr) (servingOracle pt64)
      (sampleBao.unwrapDek U P (utf8 "vault:v1:x".toList) []).run .initial ⟨[i]⟩).any
        (fun e => p e.1) = true) :
    ∃ r, p r = true ∧ sampleBao.WrapUnwrapDek Empty U P dek [] r := by
  obtain ⟨r, s₁, w₁, hrun, hr⟩ := Coro.exists_runs_of_eval hwrap
  obtain ⟨r', s₃, w₃, hrun', hr'⟩ := Coro.exists_runs_of_eval hunwrap
  simp only [decide_eq_true_eq] at hr
  obtain ⟨rfl⟩ : w₁ = ⟨[i]⟩ := by rw [← hr.2]
  cases r with
  | error e => exact absurd hr.1 (by simp [Except.toOption])
  | ok result =>
    obtain rfl := Option.some.inj hr.1
    exact ⟨r', hr', _, _, _, _, _, .refl, hrun, _, _, _, _, .refl, hrun'⟩

/-- A result of `unwrap` after `wrap` with that engine. -/
lemma wrapUnwrap_of_eval (pt64 : String) (keyId : PyStr) (pt : Bytes) (i : Issue)
    (p : Except (BaoExc Empty) Bytes → Bool)
    (hwrap : (Coro.eval (Transit.serve sampleBao.addr) (servingOracle pt64)
      (sampleBao.wrap keyId pt []).run .initial Transit.empty).any (fun e =>
        e.1.toOption = some (utf8 "vault:v1:x".toList) ∧ e.2.2.issued = [i]) = true)
    (hunwrap : (Coro.eval (Transit.serve sampleBao.addr) (servingOracle pt64)
      (sampleBao.unwrap keyId (utf8 "vault:v1:x".toList) []).run .initial ⟨[i]⟩).any
        (fun e => p e.1) = true) :
    ∃ r, p r = true ∧ sampleBao.WrapUnwrap Empty keyId pt [] r := by
  obtain ⟨r, s₁, w₁, hrun, hr⟩ := Coro.exists_runs_of_eval hwrap
  obtain ⟨r', s₃, w₃, hrun', hr'⟩ := Coro.exists_runs_of_eval hunwrap
  simp only [decide_eq_true_eq] at hr
  obtain ⟨rfl⟩ : w₁ = ⟨[i]⟩ := by rw [← hr.2]
  cases r with
  | error e => exact absurd hr.1 (by simp [Except.toOption])
  | ok blob =>
    obtain rfl := Option.some.inj hr.1
    exact ⟨r', hr', _, _, _, _, _, .refl, hrun, _, _, _, _, .refl, hrun'⟩

/-- A key of three bytes comes back from both adapters. -/
theorem three_bytes_round_trip :
    @LocalDevKMS.wrapUnwrap ideal sampleKms sampleNonce (text "k") [1, 2, 3] [] =
      .ok [1, 2, 3] ∧
    @LocalDevKMS.wrapUnwrapDek ideal sampleKms sampleNonce (text "alice") (text "dek") [1, 2, 3] [] =
      .ok [1, 2, 3] ∧
    (∃ r, sampleBao.WrapUnwrap Empty (text "k") [1, 2, 3] [] r ∧ r = .ok [1, 2, 3]) ∧
    ∃ r, sampleBao.WrapUnwrapDek Empty (text "alice") (text "dek") [1, 2, 3] [] r ∧
      r = .ok [1, 2, 3] := by
  let _ := ideal
  obtain ⟨hlocal, hlocalDek, hbao, hbaoDek⟩ := round_trip_iff (F := Empty) sampleKms sampleBao
    sampleNonce (text "k") (text "alice") (text "dek") [1, 2, 3] []
  obtain ⟨r, -, hr⟩ := wrapUnwrap_of_eval "AQID" (text "k") [1, 2, 3]
    ⟨text "k", text "vault:v1:x", text "AQID", []⟩ (fun _ => true) (by decide +kernel)
    (by decide +kernel)
  obtain ⟨r', -, hr'⟩ := wrapUnwrapDek_of_eval "AQID" (text "alice") (text "dek") [1, 2, 3]
    ⟨text "dek", text "vault:v1:x", text "AQID", b64encode (utf8 "alice:dek:".toList)⟩
    (fun _ => true) (by decide +kernel) (by decide +kernel)
  have hwf := And.intro (wellFormed_text "alice") (wellFormed_text "dek")
  exact ⟨hlocal.mpr (wellFormed_text "k"), hlocalDek.mpr hwf,
    ⟨r, hr, (hbao r hr).mpr (by decide)⟩, ⟨r', hr', (hbaoDek r' hr').mpr ⟨by decide, hwf⟩⟩⟩

/-- The empty key is lost by `OpenBaoKMS`, and kept by `LocalDevKMS`. -/
theorem empty_dek_lost :
    (∃ r, sampleBao.WrapUnwrapDek Empty (text "alice") (text "dek") [] [] r ∧ r ≠ .ok []) ∧
      @LocalDevKMS.wrapUnwrapDek ideal sampleKms sampleNonce (text "alice") (text "dek") [] [] =
        .ok [] := by
  constructor
  · obtain ⟨r, hr, hres⟩ := wrapUnwrapDek_of_eval "" (text "alice") (text "dek") []
      ⟨text "dek", text "vault:v1:x", [], b64encode (utf8 "alice:dek:".toList)⟩
      (fun r => r.toOption = none) (by decide +kernel) (by decide +kernel)
    refine ⟨r, hres, ?_⟩
    rintro rfl
    simp [Except.toOption] at hr
  · exact (@LocalDevKMS.wrapUnwrapDek_eq_ok_iff ideal _ _ _ _ _ _).mpr
      ⟨wellFormed_text _, wellFormed_text _⟩

end Example

end Omkit.Kms
