import Omkit.Kms.RoundTrip

/-!
# One family of errors

Callers of a KMS are promised that it returns or raises a `KMSError`.  This file says, for each
method, when the promise is kept: the texts have to be encodable, an envelope has to open in
`LocalDevKMS.unwrap`, and the responses that `OpenBaoKMS` reads have to be of the shape that its code
takes for granted.
-/

namespace Omkit.Kms

open Lib Crypto

/-- The call returns, or raises a `KMSError`. -/
def Uniform {M α : Type} (r : Except (KmsExc M) α) : Prop :=
  ∀ e, r = .error e → e.isKmsError = true

@[simp] lemma uniform_ok {M α : Type} (a : α) : Uniform (.ok a : Except (KmsExc M) α) := by
  intro e h
  cases h

@[simp] lemma uniform_error {M α : Type} {e : KmsExc M} :
    Uniform (.error e : Except (KmsExc M) α) ↔ e.isKmsError = true :=
  ⟨fun h => h e rfl, fun h _ he => Except.error.inj he ▸ h⟩

lemma not_exists_ok {ε α : Type} {e : ε} : ¬ ∃ a, (.error e : Except ε α) = .ok a := by
  rintro ⟨a, h⟩
  cases h

/-! ## The in-process adapter -/

section

variable [AesGcm] {kek blob aad : Bytes}

/-- The blob is an envelope that the cipher opens. -/
def Opens (kek blob aad : Bytes) : Prop :=
  nonceSize ≤ blob.length ∧
    (AesGcm.decrypt kek (blob.take nonceSize) (blob.drop nonceSize) (orNone aad)).isSome = true

lemma unwrapWithKey_ok_iff (hkek : kek.length = kekSize) :
    (∃ plaintext, unwrapWithKey kek blob aad = .ok plaintext) ↔ Opens kek blob aad := by
  rw [unwrapWithKey, validateKek_of_length hkek, Opens]
  show (∃ plaintext, (if blob.length < nonceSize then _ else _) = Except.ok plaintext) ↔ _
  by_cases hlen : blob.length < nonceSize
  · rw [if_pos hlen]
    exact iff_of_false not_exists_ok fun h => absurd h.1 (not_le.mpr hlen)
  · rw [if_neg hlen, and_iff_right (not_lt.mp hlen)]
    cases AesGcm.decrypt kek (blob.take nonceSize) (blob.drop nonceSize) (orNone aad) with
    | none => exact iff_of_false not_exists_ok (by decide)
    | some plaintext => exact iff_of_true ⟨plaintext, rfl⟩ rfl

omit [AesGcm] in
/-- No error of an envelope is a `KMSError`. -/
lemma uniform_mapError_crypto {r : Except AesGcmError Bytes} :
    Uniform (r.mapError KmsExc.crypto : Except (KmsExc PyStr) Bytes) ↔ ∃ b, r = .ok b := by
  cases r with
  | ok b => exact iff_of_true (uniform_ok b) ⟨b, rfl⟩
  | error e => exact iff_of_false (fun h => Bool.noConfusion (h _ rfl)) not_exists_ok

end

namespace LocalDevKMS

variable [AesGcm] {k : LocalDevKMS} {keyId U P : PyStr} {blob wrapped aad : Bytes}

/-- `unwrap` does not turn the errors of an envelope into its own. -/
theorem unwrap_uniform_iff : Uniform (k.unwrap keyId blob aad) ↔
    WellFormed keyId ∧ ∀ kek, k.staticKey keyId = .ok kek → Opens kek blob aad := by
  by_cases hw : WellFormed keyId
  · obtain ⟨kek, hkek, hlen⟩ := k.staticKey_of_wellFormed hw
    have hall : (∀ kek', k.staticKey keyId = .ok kek' → Opens kek' blob aad) ↔
        Opens kek blob aad := by
      simp [hkek]
    rw [and_iff_right hw, hall, unwrap, hkek, ← unwrapWithKey_ok_iff hlen]
    exact uniform_mapError_crypto
  · refine iff_of_false ?_ fun h => hw h.1
    rw [unwrap, staticKey_of_not_wellFormed hw]
    exact fun h => Bool.noConfusion (h _ rfl)

/-- `unwrap_dek` does. -/
theorem unwrapDek_uniform_iff :
    Uniform (k.unwrapDek U P wrapped aad) ↔ WellFormed U ∧ WellFormed P := by
  by_cases hw : WellFormed U ∧ WellFormed P
  · obtain ⟨key, bnd, hkey, hbnd⟩ := exists_encode_labels hw.1 hw.2
    refine iff_of_true ?_ hw
    rw [unwrapDek_of_encode hkey hbnd]
    cases unwrapWithKey (Sha256.hmac k.master key) wrapped (bnd ++ aad) with
    | ok dek => exact uniform_ok dek
    | error e => exact uniform_error.mpr rfl
  · refine iff_of_false ?_ hw
    rw [unwrapDek_of_not_wellFormed hw]
    exact fun h => Bool.noConfusion (h _ rfl)

end LocalDevKMS

/-! ## Exchanges -/

section Exchanges

variable {F : Type} [JsonRuntime F] [PyNumbers F]

/-- The HTTP client raises nothing but an `HTTPError`, and the JSON decoder nothing but a
`ValueError`. -/
def Exchange.Plain (F : Type) [JsonRuntime F] : Exchange → Prop
  | httpError _ => True
  | raised _ => False
  | response status content => status < 400 → content ≠ [] →
    ∀ e, loadsBytes (F := F) (content.take maxRespBytes) = .error e → e.isValueError = true

omit [PyNumbers F] in
lemma Exchange.read_uniform_iff {ex : Exchange} :
    Uniform (ex.read : Except (BaoExc F) (Json F)) ↔ ex.Plain F := by
  cases ex with
  | httpError m => exact iff_of_true (uniform_error.mpr rfl) trivial
  | raised e => exact iff_of_false (fun h => Bool.noConfusion (h _ rfl)) id
  | response status content =>
    simp only [Exchange.read, Exchange.Plain]
    by_cases h₅ : 500 ≤ status
    · rw [if_pos h₅]
      exact iff_of_true (uniform_error.mpr rfl) fun h => absurd h (by omega)
    rw [if_neg h₅]
    by_cases h₄ : 400 ≤ status
    · rw [if_pos h₄]
      exact iff_of_true (uniform_error.mpr rfl) fun h => absurd h (by omega)
    have hbody : content.take maxRespBytes = [] ↔ content = [] := by
      simp [maxRespBytes]
    rw [if_neg h₄]
    by_cases hc : content = []
    · rw [if_pos (hbody.mpr hc)]
      exact iff_of_true (uniform_ok _) fun _ hne => absurd hc hne
    rw [if_neg fun h => hc (hbody.mp h)]
    cases hload : loadsBytes (F := F) (content.take maxRespBytes) with
    | ok v =>
      refine iff_of_true (uniform_ok v) fun _ _ e h => ?_
      cases h
    | error e =>
      have hplain : (status < 400 → content ≠ [] → ∀ e', (Except.error e : Except StdExc (Json F)) =
          .error e' → e'.isValueError = true) ↔ e.isValueError = true :=
        ⟨fun h => h (by omega) hc e rfl, fun h _ _ e' he => Except.error.inj he ▸ h⟩
      rw [hplain]
      dsimp only
      split
      · rename_i he
        exact iff_of_true (uniform_error.mpr rfl) he
      · rename_i he
        exact iff_of_false (fun h => Bool.noConfusion (h _ rfl)) he

/-- `d.get(name)`. -/
def fieldOf (d : List (PyStr × Json F)) (name : PyStr) : Json F := (d.lookup name).getD .null

/-- A clock can hold the number of seconds. -/
def FitsClock (n : ℤ) : Prop := n < 2 ^ 1024 - 2 ^ 970

/-- The `lease_duration` of a login is no number that `int` or the clock refuses, unless there is no
token. -/
def LoginPlain (v : Json F) : Prop :=
  ∀ l a, v = .obj l → fieldOf l (text "auth") = .obj a →
    (∀ e, ((fieldOf a (text "lease_duration")).orElse (.int 0)).toInt = .error e →
      e = .typeError) ∧
    ((fieldOf a (text "client_token")).truthy = true → ∀ n,
      ((fieldOf a (text "lease_duration")).orElse (.int 0)).toInt = .ok n →
        FitsClock n)

/-- The response is an object, whose `data`, unless it is false, is an object with `P`. -/
def DataPlain (P : List (PyStr × Json F) → Prop) (v : Json F) : Prop :=
  ∃ l, v = .obj l ∧ ((fieldOf l (text "data")).truthy = true →
    ∃ d, fieldOf l (text "data") = .obj d ∧ P d)

/-- A ciphertext, unless it is false, is a string in ASCII. -/
def CiphertextPlain (d : List (PyStr × Json F)) : Prop :=
  (fieldOf d (text "ciphertext")).truthy = true →
    ∃ s, fieldOf d (text "ciphertext") = .str s ∧ (encodeAscii s).isSome = true

/-- A plaintext, unless it is false, is a string. -/
def PlaintextPlain (d : List (PyStr × Json F)) : Prop :=
  (fieldOf d (text "plaintext")).truthy = true → ∃ s, fieldOf d (text "plaintext") = .str s

/-- A ciphertext beside the number of a version, unless it is false, is a string in ASCII. -/
def VersionedPlain (d : List (PyStr × Json F)) : Prop :=
  (fieldOf d (text "key_version")).instanceInt.isSome = true → CiphertextPlain d

/-- The exchange is plain, and what it says is plain: for a login, and else by `P`. -/
def TamePair (k : OpenBaoKMS) (P : Json F → Prop) (p : Request F × Exchange) : Prop :=
  p.2.Plain F ∧ ∀ v, (p.2.read : Except (BaoExc F) (Json F)) = .ok v →
    if p.1.url = k.addr ++ loginPath then LoginPlain v else P v

/-- The exchanges of a method, in their order. -/
abbrev Transcript (F : Type) := List (Request F × Exchange)

/-- The outside may answer anything; its answers are written down. -/
def Transcript.answer (w : Transcript F) : (c : BaoCall F) → BaoAnswer c → Option (Transcript F)
  | .request r, (ex : Exchange) => some (w ++ [(r, ex)])
  | _, _ => some w

/-- The exchanges of the method that ended in `r` are the ones after `w`, and it was uniform exactly
if they all meet `T`. -/
def Logs {α : Type} (T : Request F × Exchange → Prop) (w : Transcript F)
    (r : Except (BaoExc F) α) (w' : Transcript F) : Prop :=
  ∃ new, w' = w ++ new ∧ (Uniform r ↔ ∀ p ∈ new, T p)

/-- The method made no exchange, and it was uniform exactly if `P`. -/
def Silent {α : Type} (P : Prop) (w : Transcript F) (r : Except (BaoExc F) α)
    (w' : Transcript F) : Prop :=
  w' = w ∧ (Uniform r ↔ P)

/-! ## Logins -/

section Logins

variable {k : OpenBaoKMS} {P : Json F → Prop} {s : TokenState F} {w : Transcript F}
variable {method path : PyStr} {body : Option (List (PyStr × Json F))}

omit [JsonRuntime F] in
lemma toInt_ne_attributeError (v : Json F) : v.toInt ≠ .error .attributeError := by
  intro h
  unfold Json.toInt at h
  split at h <;> try cases h
  split at h <;> cases h

omit [JsonRuntime F] in
lemma truthy_orElse_str (v : Json F) : (v.orElse (.str [])).truthy = v.truthy := by
  rw [Json.orElse]
  split
  · rfl
  · rename_i h
    simpa [Json.truthy] using h

omit [JsonRuntime F] [PyNumbers F] in
lemma get_obj (d : List (PyStr × Json F)) (name : PyStr) :
    (Json.obj d).get name = .ok (fieldOf d name) := rfl

omit [JsonRuntime F] in
/-- What `_login_locked` reads in the `auth` of a response. -/
lemma loginFields_obj {l a : List (PyStr × Json F)}
    (h : (fieldOf l (text "auth")).orElse (.obj []) = .obj a) :
    OpenBaoKMS.loginFields (.obj l) =
      ((fieldOf a (text "lease_duration")).orElse (.int 0)).toInt.map fun lease =>
        ((fieldOf a (text "client_token")).orElse (.str []), lease) := by
  simp only [OpenBaoKMS.loginFields, get_obj, Bind.bind, Except.bind, h]
  cases ((fieldOf a (text "lease_duration")).orElse (.int 0)).toInt <;> rfl

omit [JsonRuntime F] in
lemma loginFields_not_obj {l : List (PyStr × Json F)}
    (h : ((fieldOf l (text "auth")).orElse (.obj [])).get (text "client_token") =
      .error .attributeError) :
    OpenBaoKMS.loginFields (.obj l) = .error .attributeError := by
  simp only [OpenBaoKMS.loginFields, get_obj, Bind.bind, Except.bind, h]

omit [JsonRuntime F] in
/-- A member that is false counts as an empty object. -/
lemma orElse_obj_cases (v : Json F) : (v.truthy = true ∧ v.orElse (.obj []) = v) ∨
    (v.truthy = false ∧ v.orElse (.obj []) = .obj []) := by
  rw [Json.orElse]
  cases h : v.truthy <;> simp

omit [JsonRuntime F] in
/-- What is plain in the response to a login, by what `_login_locked` makes of it. -/
lemma loginPlain_iff (v : Json F) : LoginPlain v ↔ match OpenBaoKMS.loginFields v with
    | .error e => e = .attributeError ∨ e = .typeError
    | .ok (token, lease) => token.truthy = true → FitsClock lease := by
  have hread : ∀ a : List (PyStr × Json F),
      ((∀ e, ((fieldOf a (text "lease_duration")).orElse (.int 0)).toInt = .error e →
        e = .typeError) ∧
      ((fieldOf a (text "client_token")).truthy = true → ∀ n,
        ((fieldOf a (text "lease_duration")).orElse (.int 0)).toInt = .ok n → FitsClock n)) ↔
      match ((fieldOf a (text "lease_duration")).orElse (.int 0)).toInt.map fun lease =>
          ((fieldOf a (text "client_token")).orElse (.str []), lease) with
        | .error e => e = .attributeError ∨ e = .typeError
        | .ok (token, lease) => token.truthy = true → FitsClock lease := by
    intro a
    cases hlease : ((fieldOf a (text "lease_duration")).orElse (.int 0)).toInt with
    | error e =>
      have hne : e ≠ .attributeError := fun he => toInt_ne_attributeError _ (he ▸ hlease)
      simp [Except.map, hne]
    | ok n => simp [Except.map, truthy_orElse_str]
  cases v with
  | obj l =>
    rcases orElse_obj_cases (fieldOf l (text "auth")) with ⟨htrue, hor⟩ | ⟨hfalse, hor⟩
    · cases hauth : fieldOf l (text "auth") with
      | obj a =>
        rw [loginFields_obj (hor.trans hauth), ← hread]
        constructor
        · exact fun h => h l a rfl hauth
        · intro h l' a' hl ha'
          obtain rfl : l = l' := Json.obj.inj hl
          obtain rfl : a = a' := Json.obj.inj (hauth.symm.trans ha')
          exact h
      | _ =>
        refine iff_of_true ?_ ?_
        · intro l' a hl ha
          obtain rfl : l = l' := Json.obj.inj hl
          rw [hauth] at ha
          cases ha
        · rw [loginFields_not_obj (by rw [hor, hauth]; rfl)]
          exact Or.inl rfl
    · -- a false `auth` is read as the empty object
      rw [loginFields_obj hor]
      refine iff_of_true ?_ ?_
      · intro l' a hl ha
        obtain rfl : l = l' := Json.obj.inj hl
        obtain rfl : a = [] := by simpa [ha, Json.truthy] using hfalse
        rw [hread]
        simp [fieldOf, Json.orElse, Json.truthy, Json.toInt, Except.map]
      · simp [fieldOf, Json.orElse, Json.truthy, Json.toInt, Except.map]
  | _ =>
    refine iff_of_true (fun l a hl => ?_) (Or.inl rfl)
    cases hl

/-- A request is one exchange. -/
lemma wp_doRaw_logged {token : Json F} : Coro.wp Transcript.answer
    (fun r _ w' => ∃ p : Request F × Exchange, w' = w ++ [p] ∧ p.1.url = k.addr ++ path ∧
      r = p.2.read) (k.doRaw method path token body).run s w := by
  rw [OpenBaoKMS.doRaw, Coro.wp_bindE, wp_send]
  intro ex v hv
  obtain rfl := Option.some.inj hv
  exact ⟨_, rfl, rfl, rfl⟩

lemma tamePair_of_read_error {p : Request F × Exchange} {e : BaoExc F}
    (h : (p.2.read : Except (BaoExc F) (Json F)) = .error e) :
    TamePair k P p ↔ e.isKmsError = true := by
  rw [TamePair, ← Exchange.read_uniform_iff, h, uniform_error]
  refine and_iff_left fun v hv => ?_
  cases hv

lemma tamePair_of_read_ok {p : Request F × Exchange} {v : Json F}
    (h : (p.2.read : Except (BaoExc F) (Json F)) = .ok v) :
    TamePair k P p ↔ if p.1.url = k.addr ++ loginPath then LoginPlain v else P v := by
  rw [TamePair, ← Exchange.read_uniform_iff, h, and_iff_right (uniform_ok v)]
  exact ⟨fun hall => hall v rfl, fun hv _ he => Except.ok.inj he ▸ hv⟩

omit [JsonRuntime F] [PyNumbers F] in
/-- A method that ends after one exchange. -/
lemma logs_one {α : Type} {T : Request F × Exchange → Prop} {p : Request F × Exchange}
    {r : Except (BaoExc F) α} (h : Uniform r ↔ T p) : Logs T w r (w ++ [p]) :=
  ⟨[p], rfl, by rw [h, List.forall_mem_singleton]⟩

omit [JsonRuntime F] [PyNumbers F] in
lemma addSeconds_ok_iff {t : ℚ} {n : ℤ} :
    (∃ u, addSeconds t (if n ≤ 0 then 3600 else n) = .ok u) ↔ FitsClock n := by
  constructor
  · rintro ⟨u, hu⟩
    by_contra hn
    have hlarge : 2 ^ 1024 - 2 ^ 970 ≤ n := not_lt.mp hn
    have hpos : (0 : ℤ) < 2 ^ 1024 - 2 ^ 970 := (by decide : (0 : ℤ) < 3600).trans hour_lt_maxFloat
    rw [if_neg (not_le.mpr (hpos.trans_le hlarge)), addSeconds, if_pos hlarge] at hu
    cases hu
  · exact addSeconds_of_lt

/-- A login is uniform exactly if its exchange is tame. -/
lemma wp_loginLocked_logged : Coro.wp Transcript.answer
    (fun r _ w' => Logs (TamePair k P) w r w') (k.loginLocked : Bao F (Json F)).run s w := by
  rw [OpenBaoKMS.loginLocked, Coro.wp_bindE]
  refine wp_doRaw_logged.mono fun r s' w' hr => ?_
  obtain ⟨p, rfl, hurl, rfl⟩ := hr
  have hlogin : p.1.url = k.addr ++ loginPath := hurl
  cases hread : (p.2.read : Except (BaoExc F) (Json F)) with
  | error e => exact logs_one (uniform_error.trans (tamePair_of_read_error hread).symm)
  | ok v =>
    have htame := tamePair_of_read_ok (k := k) (P := P) hread
    rw [if_pos hlogin, loginPlain_iff] at htame
    dsimp only
    cases hfields : OpenBaoKMS.loginFields v with
    | error e =>
      rw [hfields] at htame
      have hiff : TamePair k P p ↔ e = .attributeError ∨ e = .typeError := htame
      by_cases he : e = .attributeError ∨ e = .typeError
      · have hcaught : Coro.wp Transcript.answer
            (fun (r : Except (BaoExc F) (Json F)) _ w' => Logs (TamePair k P) w r w')
            (throw (.unavailable (.login v) 0) : Bao F (Json F)).run s' (w ++ [p]) :=
          logs_one (iff_of_true (uniform_error.mpr rfl) (hiff.mpr he))
        rcases he with rfl | rfl
        · exact hcaught
        · exact hcaught
      · -- a `ValueError` or an `OverflowError` of `int` is not caught
        have hother : Coro.wp Transcript.answer
            (fun (r : Except (BaoExc F) (Json F)) _ w' => Logs (TamePair k P) w r w')
            (throw (.std e) : Bao F (Json F)).run s' (w ++ [p]) :=
          logs_one (iff_of_false (fun h => Bool.noConfusion (h _ rfl)) (mt hiff.mp he))
        rw [not_or] at he
        cases e with
        | attributeError => exact absurd rfl he.1
        | typeError => exact absurd rfl he.2
        | _ => exact hother
    | ok fields =>
      obtain ⟨clientToken, lease⟩ := fields
      rw [hfields] at htame
      have hiff : TamePair k P p ↔ (clientToken.truthy = true → FitsClock lease) := htame
      dsimp only
      -- a token is kept only if the clock can hold the time at which it expires
      by_cases htoken : clientToken.truthy = false
      · rw [if_pos htoken]
        exact logs_one (iff_of_true (uniform_error.mpr rfl) (hiff.mpr (by simp [htoken])))
      · have htrue : clientToken.truthy = true := by simpa using htoken
        rw [if_neg htoken, wp_modify_bind, wp_monotonic_bind]
        intro now u hu
        obtain rfl := Option.some.inj hu
        have hfits : TamePair k P p ↔ FitsClock lease := by simpa [htrue] using hiff
        rw [← addSeconds_ok_iff (t := now)] at hfits
        cases hadd : addSeconds now (if lease ≤ 0 then 3600 else lease) with
        | error e =>
          rw [hadd] at hfits
          refine logs_one (iff_of_false (fun h => Bool.noConfusion (h _ rfl)) ?_)
          rw [hfits]
          exact not_exists_ok
        | ok t =>
          rw [hadd] at hfits
          exact logs_one (iff_of_true (uniform_ok _) (hfits.mpr ⟨t, rfl⟩))

/-- So is the way to a token. -/
lemma wp_getToken_logged : Coro.wp Transcript.answer
    (fun r _ w' => Logs (TamePair k P) w r w') (k.getToken : Bao F (Json F)).run s w := by
  have hlocked : Coro.wp Transcript.answer (fun r _ w' => Logs (TamePair k P) w r w')
      (k.tokenLocked : Bao F (Json F)).run s w := by
    rw [OpenBaoKMS.tokenLocked, wp_read_bind]
    split
    · rw [wp_monotonic_bind]
      intro now u hu
      obtain rfl := Option.some.inj hu
      split
      · exact ⟨[], (List.append_nil w).symm, iff_of_true (uniform_ok _) (by simp)⟩
      · exact wp_loginLocked_logged
    · exact wp_loginLocked_logged
  rw [OpenBaoKMS.getToken, wp_withLock]
  intro a v hv
  obtain rfl := Option.some.inj hv
  refine hlocked.mono fun r s' w' hr => ?_
  intro b u hu
  obtain rfl := Option.some.inj hu
  exact hr

end Logins

/-! ## Requests with a token -/

section Requests

variable {k : OpenBaoKMS} {P : Json F → Prop} {s : TokenState F} {w : Transcript F}
variable {method path : PyStr} {body : Option (List (PyStr × Json F))}

omit [JsonRuntime F] [PyNumbers F] in
/-- What is tame comes before what the rest of a method does. -/
lemma Logs.after {α : Type} {T : Request F × Exchange → Prop} {pre w' : Transcript F}
    {r : Except (BaoExc F) α} (hpre : ∀ q ∈ pre, T q) (h : Logs T (w ++ pre) r w') :
    Logs T w r w' := by
  obtain ⟨new, rfl, hnew⟩ := h
  refine ⟨pre ++ new, List.append_assoc _ _ _, hnew.trans ?_⟩
  rw [List.forall_mem_append, and_iff_right hpre]

/-- What a request with a token ends in: an exception, which is uniform exactly if all exchanges are
tame, or the response in the last exchange, after others that are tame. -/
def Answers (k : OpenBaoKMS) (P : Json F → Prop) (path : PyStr) (w : Transcript F)
    (r : Except (BaoExc F) (Json F)) (w' : Transcript F) : Prop :=
  match r with
  | .error _ => Logs (TamePair k P) w r w'
  | .ok v => ∃ pre, ∃ p : Request F × Exchange, w' = w ++ (pre ++ [p]) ∧
    (∀ q ∈ pre, TamePair k P q) ∧ p.1.url = k.addr ++ path ∧
    (p.2.read : Except (BaoExc F) (Json F)) = .ok v

/-- A request after exchanges that are tame. -/
lemma answers_of_read {pre : Transcript F} {p : Request F × Exchange}
    (hpre : ∀ q ∈ pre, TamePair k P q) (hurl : p.1.url = k.addr ++ path) :
    Answers k P path w p.2.read (w ++ pre ++ [p]) := by
  cases hread : (p.2.read : Except (BaoExc F) (Json F)) with
  | error e =>
    exact Logs.after hpre (logs_one (uniform_error.trans (tamePair_of_read_error hread).symm))
  | ok v => exact ⟨pre, p, List.append_assoc _ _ _, hpre, hurl, hread⟩

lemma wp_doAuthed_logged : Coro.wp Transcript.answer (fun r _ w' => Answers k P path w r w')
    (k.doAuthed method path body : Bao F (Json F)).run s w := by
  rw [OpenBaoKMS.doAuthed, Coro.wp_bindE]
  refine (wp_getToken_logged (P := P)).mono fun r s w₁ hr => ?_
  cases r with
  | error e => exact hr
  | ok tok =>
    obtain ⟨new, rfl, hall⟩ := hr
    have hnew : ∀ q ∈ new, TamePair k P q := hall.mp (uniform_ok tok)
    dsimp only
    rw [Coro.wp_bindE, wp_lift]
    refine wp_doRaw_logged.mono fun r s w₂ hr => ?_
    obtain ⟨p, rfl, hurl, rfl⟩ := hr
    have hend : Answers k P path w p.2.read (w ++ new ++ [p]) := answers_of_read hnew hurl
    dsimp only
    split
    · rename_i m status hread
      split
      · -- a refused token is tame, and the request is sent again
        have hp : TamePair k P p := (tamePair_of_read_error hread).mpr rfl
        have hpre : ∀ q ∈ new ++ [p], TamePair k P q :=
          List.forall_mem_append.mpr ⟨hnew, List.forall_mem_singleton.mpr hp⟩
        rw [Coro.wp_bindE, wp_withLock]
        intro a v hv
        obtain rfl := Option.some.inj hv
        rw [wp_lift, Coro.wp_modify]
        intro b u hu
        obtain rfl := Option.some.inj hu
        dsimp only
        rw [Coro.wp_bindE, List.append_assoc]
        refine (wp_getToken_logged (P := P)).mono fun r s w₃ hr => ?_
        cases r with
        | error e => exact Logs.after hpre hr
        | ok tok₂ =>
          obtain ⟨new₂, rfl, hall₂⟩ := hr
          have hpre₂ : ∀ q ∈ new ++ [p] ++ new₂, TamePair k P q :=
            List.forall_mem_append.mpr ⟨hpre, hall₂.mp (uniform_ok tok₂)⟩
          refine wp_doRaw_logged.mono fun r s w₄ hr => ?_
          obtain ⟨p₂, rfl, hurl₂, rfl⟩ := hr
          rw [List.append_assoc w]
          exact answers_of_read hpre₂ hurl₂
      · rw [hread] at hend
        exact hend
    · exact hend

/-- A method that goes on with the response and makes no other request. -/
lemma wp_doAuthed_bind {α : Type} {f : Json F → Bao F α}
    (hurl : k.addr ++ path ≠ k.addr ++ loginPath)
    (hf : ∀ v s w, Coro.wp Transcript.answer (fun r _ w' => Silent (P v) w r w') (f v).run s w) :
    Coro.wp Transcript.answer (fun r _ w' => Logs (TamePair k P) w r w')
      (k.doAuthed method path body >>= f).run s w := by
  rw [Coro.wp_bindE]
  refine (wp_doAuthed_logged (P := P)).mono fun r s w' hr => ?_
  cases r with
  | error e =>
    obtain ⟨new, rfl, h⟩ := hr
    exact ⟨new, rfl, by rwa [uniform_error] at h ⊢⟩
  | ok v =>
    obtain ⟨pre, p, rfl, hpre, hp, hread⟩ := hr
    refine (hf v s _).mono fun r' s' w'' hr' => ?_
    obtain ⟨rfl, huniform⟩ := hr'
    have htame : TamePair k P p ↔ P v := by
      rw [tamePair_of_read_ok hread, if_neg (by rw [hp]; exact hurl)]
    rw [← List.append_assoc]
    exact Logs.after hpre (logs_one (huniform.trans htame.symm))

end Requests

/-! ## The methods -/

section Methods

variable {α : Type} {Q : List (PyStr × Json F) → Prop} {v : Json F} {s : TokenState F}
variable {w : Transcript F}

omit [JsonRuntime F] in
/-- The `data` of a response: an object, which is what has to be plain, or nothing that fields can be
read in. -/
lemma dataOf_cases (v : Json F) :
    (∃ d, OpenBaoKMS.dataOf v = .ok (.obj d) ∧
      ∀ Q : List (PyStr × Json F) → Prop, Q [] → (DataPlain Q v ↔ Q d)) ∨
    ((∀ name, (OpenBaoKMS.dataOf v >>= (·.get name)) = .error .attributeError) ∧
      ∀ Q, ¬ DataPlain Q v) := by
  cases v with
  | obj l =>
    have hdata : OpenBaoKMS.dataOf (.obj l) = .ok ((fieldOf l (text "data")).orElse (.obj [])) := rfl
    have hplain : ∀ Q, DataPlain Q (.obj l) ↔ ((fieldOf l (text "data")).truthy = true →
        ∃ d, fieldOf l (text "data") = .obj d ∧ Q d) := fun Q =>
      ⟨fun ⟨l', hl, h⟩ => Json.obj.inj hl ▸ h, fun h => ⟨l, rfl, h⟩⟩
    rcases orElse_obj_cases (fieldOf l (text "data")) with ⟨htrue, hor⟩ | ⟨hfalse, hor⟩
    · cases hfield : fieldOf l (text "data") with
      | obj d =>
        refine Or.inl ⟨d, by rw [hdata, hor, hfield], fun Q _ => ?_⟩
        rw [hplain, imp_iff_right htrue, hfield]
        exact ⟨fun ⟨d', hd, h⟩ => Json.obj.inj hd ▸ h, fun h => ⟨d, rfl, h⟩⟩
      | _ =>
        refine Or.inr ⟨fun name => ?_, fun Q h => ?_⟩
        · rw [hdata, hor, hfield]
          rfl
        · obtain ⟨d, hd, -⟩ := (hplain Q).mp h htrue
          rw [hfield] at hd
          cases hd
    · -- a missing or empty `data` is read as the empty object
      refine Or.inl ⟨[], by rw [hdata, hor], fun Q hQ => ?_⟩
      rw [hplain]
      exact iff_of_true (fun h => absurd (hfalse.symm.trans h) (by decide)) hQ
  | _ =>
    refine Or.inr ⟨fun _ => rfl, ?_⟩
    rintro Q ⟨l, hl, -⟩
    cases hl

omit [JsonRuntime F] in
/-- A field of `data`, and what the method makes of it. -/
lemma wp_field_bind {name : PyStr} {f : Json F → Bao F α} (hQ : Q [])
    (hf : ∀ d, Coro.wp Transcript.answer (fun r _ w' => Silent (Q d) w r w')
      (f (fieldOf d name)).run s w) :
    Coro.wp Transcript.answer (fun r _ w' => Silent (DataPlain Q v) w r w')
      (Bao.ofStd (OpenBaoKMS.dataOf v >>= (·.get name)) >>= f).run s w := by
  rcases dataOf_cases v with ⟨d, hd, hplain⟩ | ⟨herr, hplain⟩
  · have hfield : (OpenBaoKMS.dataOf v >>= (·.get name)) = .ok (fieldOf d name) := by
      rw [hd]
      rfl
    rw [hfield]
    refine (hf d).mono fun r s w' hr => ?_
    exact ⟨hr.1, hr.2.trans (hplain Q hQ).symm⟩
  · rw [herr]
    exact ⟨rfl, iff_of_false (fun h => Bool.noConfusion (h _ rfl)) (hplain Q)⟩

omit [JsonRuntime F] in
/-- The whole of `data`, and what the method makes of it. -/
lemma wp_data_bind {f : Json F → Bao F α} (hQ : Q [])
    (hobj : ∀ d, Coro.wp Transcript.answer (fun r _ w' => Silent (Q d) w r w') (f (.obj d)).run s w)
    (hother : ∀ x : Json F, (∀ name, x.get name = .error .attributeError) →
      Coro.wp Transcript.answer (fun r _ w' => Silent False w r w') (f x).run s w) :
    Coro.wp Transcript.answer (fun r _ w' => Silent (DataPlain Q v) w r w')
      (Bao.ofStd (OpenBaoKMS.dataOf v) >>= f).run s w := by
  rcases dataOf_cases v with ⟨d, hd, hplain⟩ | ⟨herr, hplain⟩
  · rw [hd]
    refine (hobj d).mono fun r s w' hr => ?_
    exact ⟨hr.1, hr.2.trans (hplain Q hQ).symm⟩
  · cases hdata : OpenBaoKMS.dataOf v with
    | error e => exact ⟨rfl, iff_of_false (fun h => Bool.noConfusion (h _ rfl)) (hplain Q)⟩
    | ok x =>
      rw [hdata] at herr
      refine (hother x herr).mono fun r s w' hr => ?_
      exact ⟨hr.1, hr.2.trans (iff_of_false id (hplain Q)).symm.symm⟩

omit [JsonRuntime F] [PyNumbers F] in
lemma asciiBytes_uniform_iff {ct : Json F} :
    Uniform ((OpenBaoKMS.asciiBytes ct).mapError .std : Except (BaoExc F) Bytes) ↔
      ∃ t, ct = .str t ∧ (encodeAscii t).isSome = true := by
  cases ct with
  | str t =>
    rw [OpenBaoKMS.asciiBytes]
    cases h : encodeAscii t with
    | some b => exact iff_of_true (uniform_ok b) ⟨t, rfl, by rw [h]; rfl⟩
    | none =>
      refine iff_of_false (fun hu => Bool.noConfusion (hu _ rfl)) ?_
      rintro ⟨t', ht, hsome⟩
      rw [← Json.str.inj ht, h] at hsome
      cases hsome
  | _ =>
    refine iff_of_false (fun hu => Bool.noConfusion (hu _ rfl)) ?_
    rintro ⟨t, ht, -⟩
    cases ht

omit [JsonRuntime F] in
lemma orElse_str_of_truthy {x : Json F} (h : x.truthy = true) : x.orElse (.str []) = x := by
  rw [Json.orElse, if_pos h]

omit [JsonRuntime F] in
/-- The end of `wrap`. -/
lemma wp_ciphertext {ct : Json F} {message : PyStr} :
    Coro.wp Transcript.answer
      (fun r _ w' => Silent (ct.truthy = true → ∃ t, ct = .str t ∧ (encodeAscii t).isSome = true)
        w r w')
      (if (ct.orElse (.str [])).truthy = false then throw (.unavailable (.text message) 0)
        else Bao.ofStd (OpenBaoKMS.asciiBytes (ct.orElse (.str []))) : Bao F Bytes).run s w := by
  rw [truthy_orElse_str]
  by_cases h : ct.truthy = true
  · rw [if_neg (by simp [h]), orElse_str_of_truthy h]
    exact ⟨rfl, by rw [imp_iff_right h]; exact asciiBytes_uniform_iff⟩
  · rw [if_pos (by simpa using h)]
    exact ⟨rfl, iff_of_true (uniform_error.mpr rfl) fun ht => absurd ht h⟩

omit [JsonRuntime F] [PyNumbers F] in
lemma plaintextOf_uniform_iff {what : PyStr} {pt : Json F} :
    Uniform (OpenBaoKMS.plaintextOf what pt) ↔ ∃ t, pt = .str t := by
  cases pt with
  | str t =>
    refine iff_of_true ?_ ⟨t, rfl⟩
    rw [OpenBaoKMS.plaintextOf]
    cases b64decode t with
    | some b => exact uniform_ok b
    | none => exact uniform_error.mpr rfl
  | _ =>
    refine iff_of_false (fun hu => Bool.noConfusion (hu _ rfl)) ?_
    rintro ⟨t, ht⟩
    cases ht

omit [JsonRuntime F] in
/-- The end of `unwrap` and of `unwrap_dek`. -/
lemma wp_plaintext {pt : Json F} {message what : PyStr} :
    Coro.wp Transcript.answer
      (fun r _ w' => Silent (pt.truthy = true → ∃ t, pt = .str t) w r w')
      (if (pt.orElse (.str [])).truthy = false then throw (.unavailable (.text message) 0)
        else Bao.ofExcept (OpenBaoKMS.plaintextOf what (pt.orElse (.str []))) :
        Bao F Bytes).run s w := by
  rw [truthy_orElse_str]
  by_cases h : pt.truthy = true
  · rw [if_neg (by simp [h]), orElse_str_of_truthy h]
    exact ⟨rfl, by rw [imp_iff_right h]; exact plaintextOf_uniform_iff⟩
  · rw [if_pos (by simpa using h)]
    exact ⟨rfl, iff_of_true (uniform_error.mpr rfl) fun ht => absurd ht h⟩

omit [JsonRuntime F] in
lemma fieldOf_nil_truthy (name : PyStr) :
    ¬ (fieldOf ([] : List (PyStr × Json F)) name).truthy = true :=
  Bool.false_ne_true

variable {k : OpenBaoKMS} {keyId U P : PyStr} {plaintext blob dek wrapped aad : Bytes}

lemma wp_wrap_logged : Coro.wp Transcript.answer
    (fun r _ w' => Logs (TamePair k (DataPlain CiphertextPlain)) w r w')
    (k.wrap keyId plaintext aad : Bao F Bytes).run s w :=
  wp_doAuthed_bind (after_login_ne (Or.inl rfl)) fun _ _ _ =>
    wp_field_bind (fun h => absurd h (fieldOf_nil_truthy _)) fun _ => wp_ciphertext

/-- `current_version` looks at the type of what it reads. -/
lemma wp_currentVersion_logged : Coro.wp Transcript.answer
    (fun r _ w' => Logs (TamePair k (DataPlain fun _ => True)) w r w')
    (k.currentVersion keyId : Bao F PyStr).run s w := by
  have hurl : k.addr ++ (text "/v1/transit/keys/" ++ keyId) ≠ k.addr ++ loginPath := by
    intro he
    have htake := congrArg (List.take 5) (List.append_cancel_left he)
    rw [List.take_append_of_le_length (by decide)] at htake
    exact absurd htake (by decide)
  refine wp_doAuthed_bind hurl fun v s w => wp_field_bind trivial fun d => ?_
  cases (fieldOf d (text "latest_version")).instanceInt with
  | some n => exact ⟨rfl, iff_of_true (uniform_ok _) trivial⟩
  | none => exact ⟨rfl, iff_of_true (uniform_error.mpr rfl) trivial⟩

lemma wp_unwrap_logged {ct : PyStr} (hct : OpenBaoKMS.asciiText blob = .ok ct) :
    Coro.wp Transcript.answer (fun r _ w' => Logs (TamePair k (DataPlain PlaintextPlain)) w r w')
      (k.unwrap keyId blob aad : Bao F Bytes).run s w := by
  rw [OpenBaoKMS.unwrap, hct]
  exact wp_doAuthed_bind (after_login_ne (Or.inr rfl)) fun _ _ _ =>
    wp_field_bind (fun h => absurd h (fieldOf_nil_truthy _)) fun _ => wp_plaintext

lemma wp_unwrapDek_logged {ctx ct : PyStr}
    (hctx : derivedContext U P aad = (.ok ctx : Except (BaoExc F) PyStr))
    (hct : OpenBaoKMS.asciiText wrapped = .ok ct) :
    Coro.wp Transcript.answer (fun r _ w' => Logs (TamePair k (DataPlain PlaintextPlain)) w r w')
      (k.unwrapDek U P wrapped aad : Bao F Bytes).run s w := by
  rw [OpenBaoKMS.unwrapDek, hctx, hct]
  exact wp_doAuthed_bind (after_login_ne (Or.inr rfl)) fun _ _ _ =>
    wp_field_bind (fun h => absurd h (fieldOf_nil_truthy _)) fun _ => wp_plaintext

lemma wp_wrapDek_logged {ctx : PyStr}
    (hctx : derivedContext U P aad = (.ok ctx : Except (BaoExc F) PyStr)) :
    Coro.wp Transcript.answer (fun r _ w' => Logs (TamePair k (DataPlain VersionedPlain)) w r w')
      (k.wrapDek U P dek aad : Bao F _).run s w := by
  rw [OpenBaoKMS.wrapDek, hctx]
  refine wp_doAuthed_bind (after_login_ne (Or.inl rfl)) fun v s w =>
    wp_data_bind (fun _ h => absurd h (fieldOf_nil_truthy _)) (fun d => ?_) fun x hx => ?_
  · have hget : ∀ name, (Json.obj d : Json F).get name = .ok (fieldOf d name) := fun _ => rfl
    simp only [hget, Bao.ofStd_ok_bind]
    rw [truthy_orElse_str]
    by_cases htrue : (fieldOf d (text "ciphertext")).truthy = true
    · cases hkv : (fieldOf d (text "key_version")).instanceInt with
      | none =>
        rw [htrue]
        refine ⟨rfl, iff_of_true (uniform_error.mpr rfl) fun h => ?_⟩
        rw [hkv] at h
        cases h
      | some n =>
        have hplain : VersionedPlain d ↔ ∃ t, fieldOf d (text "ciphertext") = .str t ∧
            (encodeAscii t).isSome = true := by
          rw [VersionedPlain, hkv, imp_iff_right Option.isSome_some, CiphertextPlain,
            imp_iff_right htrue]
        rw [htrue, orElse_str_of_truthy htrue, hplain, ← asciiBytes_uniform_iff]
        cases OpenBaoKMS.asciiBytes (fieldOf d (text "ciphertext")) with
        | ok b => exact ⟨rfl, iff_of_true (uniform_ok _) (uniform_ok _)⟩
        | error e =>
          exact ⟨rfl, iff_of_false (fun h => Bool.noConfusion (h _ rfl))
            fun h => Bool.noConfusion (h _ rfl)⟩
    · have hfalse : (fieldOf d (text "ciphertext")).truthy = false := by simpa using htrue
      rw [hfalse]
      exact ⟨rfl, iff_of_true (uniform_error.mpr rfl) fun _ h => absurd h htrue⟩
  · rw [hx]
    exact ⟨rfl, iff_of_false (fun h => Bool.noConfusion (h _ rfl)) id⟩

omit [JsonRuntime F] [PyNumbers F] in
lemma derivedContext_cases : (∃ ctx, derivedContext U P aad = (.ok ctx : Except (BaoExc F) PyStr) ∧
      WellFormed U ∧ WellFormed P) ∨
    derivedContext U P aad = (.error (.std .unicodeEncodeError) : Except (BaoExc F) PyStr) ∧
      ¬ (WellFormed U ∧ WellFormed P) := by
  by_cases h : WellFormed U ∧ WellFormed P
  · have hwf : WellFormed (contextText U P aad) := contextText_wellFormed.mpr h
    obtain ⟨b, hb⟩ := wellFormed_iff_encode.mp hwf
    exact Or.inl ⟨b64encode b, derivedContext_eq_ok.mpr ⟨b, hb, rfl⟩, h⟩
  · refine Or.inr ⟨?_, h⟩
    have hwf : ¬ WellFormed (contextText U P aad) := mt contextText_wellFormed.mp h
    rw [derivedContext, encoded_of_not_wellFormed hwf]
    rfl

omit [JsonRuntime F] [PyNumbers F] in
/-- The exchanges of a run that begins with none. -/
lemma Logs.from_nil {T : Request F × Exchange → Prop} {r : Except (BaoExc F) α} {w' : Transcript F}
    (h : Logs T [] r w') : Uniform r ↔ ∀ p ∈ w', T p := by
  obtain ⟨new, rfl, hnew⟩ := h
  exact hnew

end Methods

/-! ## The promise -/

/-- The results of a method, with the exchanges that it made. -/
def Returns {α : Type} (x : Bao F α) (r : Except (BaoExc F) α) (log : Transcript F) : Prop :=
  ∃ s s', Coro.Runs Transcript.answer x.run s [] r s' log

variable {k : OpenBaoKMS} {keyId U P : PyStr} {plaintext blob dek wrapped aad : Bytes}
variable {log : Transcript F}

theorem wrap_uniform_iff {r : Except (BaoExc F) Bytes}
    (h : Returns (k.wrap keyId plaintext aad) r log) :
    Uniform r ↔ ∀ p ∈ log, TamePair k (DataPlain CiphertextPlain) p := by
  obtain ⟨s, s', hrun⟩ := h
  exact (wp_wrap_logged.runs hrun).from_nil

theorem currentVersion_uniform_iff {r : Except (BaoExc F) PyStr}
    (h : Returns (k.currentVersion keyId) r log) :
    Uniform r ↔ ∀ p ∈ log, TamePair k (DataPlain fun _ => True) p := by
  obtain ⟨s, s', hrun⟩ := h
  exact (wp_currentVersion_logged.runs hrun).from_nil

theorem unwrap_uniform_iff {r : Except (BaoExc F) Bytes}
    (h : Returns (k.unwrap keyId blob aad) r log) :
    Uniform r ↔ (decodeAscii blob).isSome = true ∧
      ∀ p ∈ log, TamePair k (DataPlain PlaintextPlain) p := by
  obtain ⟨s, s', hrun⟩ := h
  cases hct : decodeAscii blob with
  | some ct =>
    have htext : OpenBaoKMS.asciiText blob = .ok ct := by rw [OpenBaoKMS.asciiText, hct]
    rw [and_iff_right Option.isSome_some]
    exact ((wp_unwrap_logged htext).runs hrun).from_nil
  | none =>
    have hstray : Coro.wp Transcript.answer (fun r _ _ => ¬ Uniform r)
        (k.unwrap keyId blob aad : Bao F Bytes).run s [] := by
      rw [OpenBaoKMS.unwrap, OpenBaoKMS.asciiText, hct]
      exact fun h => Bool.noConfusion (h _ rfl)
    exact iff_of_false (hstray.runs hrun) fun h => Bool.noConfusion h.1

theorem wrapDek_uniform_iff {r : Except (BaoExc F) (Bytes × PyStr)}
    (h : Returns (k.wrapDek U P dek aad) r log) :
    Uniform r ↔ (WellFormed U ∧ WellFormed P) ∧
      ∀ p ∈ log, TamePair k (DataPlain VersionedPlain) p := by
  obtain ⟨s, s', hrun⟩ := h
  rcases derivedContext_cases (F := F) (U := U) (P := P) with ⟨ctx, hctx, hw⟩ | ⟨herr, hw⟩
  · rw [and_iff_right hw]
    exact ((wp_wrapDek_logged hctx).runs hrun).from_nil
  · have hstray : Coro.wp Transcript.answer (fun r _ _ => ¬ Uniform r)
        (k.wrapDek U P dek aad : Bao F _).run s [] := by
      rw [OpenBaoKMS.wrapDek, herr]
      exact fun h => Bool.noConfusion (h _ rfl)
    exact iff_of_false (hstray.runs hrun) fun h => hw h.1

theorem unwrapDek_uniform_iff {r : Except (BaoExc F) Bytes}
    (h : Returns (k.unwrapDek U P wrapped aad) r log) :
    Uniform r ↔ (WellFormed U ∧ WellFormed P) ∧ (decodeAscii wrapped).isSome = true ∧
      ∀ p ∈ log, TamePair k (DataPlain PlaintextPlain) p := by
  obtain ⟨s, s', hrun⟩ := h
  rcases derivedContext_cases (F := F) (U := U) (P := P) with ⟨ctx, hctx, hw⟩ | ⟨herr, hw⟩
  · rw [and_iff_right hw]
    cases hct : decodeAscii wrapped with
    | some ct =>
      have htext : OpenBaoKMS.asciiText wrapped = .ok ct := by rw [OpenBaoKMS.asciiText, hct]
      rw [and_iff_right Option.isSome_some]
      exact ((wp_unwrapDek_logged hctx htext).runs hrun).from_nil
    | none =>
      have hstray : Coro.wp Transcript.answer (fun r _ _ => ¬ Uniform r)
          (k.unwrapDek U P wrapped aad : Bao F Bytes).run s [] := by
        rw [OpenBaoKMS.unwrapDek, hctx, OpenBaoKMS.asciiText, hct]
        exact fun h => Bool.noConfusion (h _ rfl)
      exact iff_of_false (hstray.runs hrun) fun h => Bool.noConfusion h.1
  · have hstray : Coro.wp Transcript.answer (fun r _ _ => ¬ Uniform r)
        (k.unwrapDek U P wrapped aad : Bao F Bytes).run s [] := by
      rw [OpenBaoKMS.unwrapDek, herr]
      exact fun h => Bool.noConfusion (h _ rfl)
    exact iff_of_false (hstray.runs hrun) fun h => hw h.1

end Exchanges

/-- **A method returns or raises a `KMSError` exactly when its texts can be encoded, its envelope
opens (for `LocalDevKMS.unwrap`), and its exchanges are tame (for `OpenBaoKMS`).** -/
theorem uniform_errors_iff [AesGcm] {F : Type} [JsonRuntime F] [PyNumbers F] (l : LocalDevKMS)
    (k : OpenBaoKMS) (keyId userId purpose : PyStr) (blob plaintext aad : Bytes) :
    (Uniform (l.unwrap keyId blob aad) ↔
      WellFormed keyId ∧ ∀ kek, l.staticKey keyId = .ok kek → Opens kek blob aad) ∧
    (Uniform (l.unwrapDek userId purpose blob aad) ↔ WellFormed userId ∧ WellFormed purpose) ∧
    (∀ (r : Except (BaoExc F) Bytes) log, Returns (k.wrap keyId plaintext aad) r log →
      (Uniform r ↔ ∀ p ∈ log, TamePair k (DataPlain CiphertextPlain) p)) ∧
    (∀ (r : Except (BaoExc F) Bytes) log, Returns (k.unwrap keyId blob aad) r log →
      (Uniform r ↔ (decodeAscii blob).isSome = true ∧
        ∀ p ∈ log, TamePair k (DataPlain PlaintextPlain) p)) ∧
    (∀ (r : Except (BaoExc F) PyStr) log, Returns (k.currentVersion keyId) r log →
      (Uniform r ↔ ∀ p ∈ log, TamePair k (DataPlain fun _ => True) p)) ∧
    (∀ (r : Except (BaoExc F) (Bytes × PyStr)) log,
      Returns (k.wrapDek userId purpose plaintext aad) r log →
      (Uniform r ↔ (WellFormed userId ∧ WellFormed purpose) ∧
        ∀ p ∈ log, TamePair k (DataPlain VersionedPlain) p)) ∧
    ∀ (r : Except (BaoExc F) Bytes) log, Returns (k.unwrapDek userId purpose blob aad) r log →
      (Uniform r ↔ (WellFormed userId ∧ WellFormed purpose) ∧ (decodeAscii blob).isSome = true ∧
        ∀ p ∈ log, TamePair k (DataPlain PlaintextPlain) p) :=
  ⟨LocalDevKMS.unwrap_uniform_iff, LocalDevKMS.unwrapDek_uniform_iff,
    fun _ _ => wrap_uniform_iff, fun _ _ => unwrap_uniform_iff,
    fun _ _ => currentVersion_uniform_iff, fun _ _ => wrapDek_uniform_iff,
    fun _ _ => unwrapDek_uniform_iff⟩

section Example

open LocalDevKMS (sampleKms)

/-- An engine that is sealed answers every request with the status 503. -/
def sealedOracle (_ : Transcript Empty) : (c : BaoCall Empty) → BaoAnswer c
  | .lock => ()
  | .unlock => ()
  | .monotonic => (0 : ℚ)
  | .request _ => Exchange.response 503 []

/-- Is it the answer of a sealed engine? -/
def isSealed : Exchange → Bool
  | .httpError _ => false
  | .raised _ => false
  | .response status _ => status == 503

lemma tame_of_isSealed {P : Json Empty → Prop} {p : Request Empty × Exchange}
    (h : isSealed p.2 = true) : TamePair sampleBao P p := by
  obtain ⟨r, ex⟩ := p
  cases ex with
  | httpError m => cases h
  | raised e => cases h
  | response status content =>
    obtain rfl : status = 503 := of_decide_eq_true h
    refine ⟨fun hlt => absurd hlt (by decide), fun v hv => ?_⟩
    cases hv

/-- A method that asks a sealed engine comes to its end. -/
lemma exists_sealed {α : Type} {x : Bao Empty α}
    (h : (Coro.eval Transcript.answer sealedOracle x.run TokenState.initial []).any
      (fun e => !e.2.2.isEmpty && e.2.2.all fun p => isSealed p.2) = true) :
    ∃ r log, Returns x r log ∧ log ≠ [] ∧ ∀ P, ∀ p ∈ log, TamePair sampleBao P p := by
  obtain ⟨r, s', log, hrun, hlog⟩ := Coro.exists_runs_of_eval h
  simp only [Bool.and_eq_true, List.all_eq_true] at hlog
  exact ⟨r, log, ⟨_, s', hrun⟩, by simpa using hlog.1,
    fun P p hp => tame_of_isSealed (hlog.2 p hp)⟩

/-- While the engine is sealed, every method of `OpenBaoKMS` raises an error of its own, if any. -/
theorem sealed_errors :
    (∃ r log, Returns (sampleBao.wrap (text "k") [] [] : Bao Empty Bytes) r log ∧ log ≠ [] ∧
      Uniform r) ∧
    (∃ r log, Returns (sampleBao.unwrap (text "k") [] [] : Bao Empty Bytes) r log ∧ log ≠ [] ∧
      Uniform r) ∧
    (∃ r log, Returns (sampleBao.currentVersion (text "k") : Bao Empty PyStr) r log ∧ log ≠ [] ∧
      Uniform r) ∧
    (∃ r log, Returns (sampleBao.wrapDek (text "u") (text "p") [] [] : Bao Empty _) r log ∧
      log ≠ [] ∧ Uniform r) ∧
    ∃ r log, Returns (sampleBao.unwrapDek (text "u") (text "p") [] [] : Bao Empty Bytes) r log ∧
      log ≠ [] ∧ Uniform r := by
  let _ := ideal
  obtain ⟨-, -, hwrap, hunwrap, hversion, hwrapDek, hunwrapDek⟩ := uniform_errors_iff (F := Empty)
    sampleKms sampleBao (text "k") (text "u") (text "p") [] [] []
  have hnames : WellFormed (text "u") ∧ WellFormed (text "p") :=
    ⟨wellFormed_text _, wellFormed_text _⟩
  obtain ⟨r₁, log₁, h₁, hne₁, htame₁⟩ :=
    exists_sealed (x := sampleBao.wrap (text "k") [] []) (by decide +kernel)
  obtain ⟨r₂, log₂, h₂, hne₂, htame₂⟩ :=
    exists_sealed (x := sampleBao.unwrap (text "k") [] []) (by decide +kernel)
  obtain ⟨r₃, log₃, h₃, hne₃, htame₃⟩ :=
    exists_sealed (x := sampleBao.currentVersion (text "k")) (by decide +kernel)
  obtain ⟨r₄, log₄, h₄, hne₄, htame₄⟩ :=
    exists_sealed (x := sampleBao.wrapDek (text "u") (text "p") [] []) (by decide +kernel)
  obtain ⟨r₅, log₅, h₅, hne₅, htame₅⟩ :=
    exists_sealed (x := sampleBao.unwrapDek (text "u") (text "p") [] []) (by decide +kernel)
  exact ⟨⟨r₁, log₁, h₁, hne₁, (hwrap r₁ log₁ h₁).mpr (htame₁ _)⟩,
    ⟨r₂, log₂, h₂, hne₂, (hunwrap r₂ log₂ h₂).mpr ⟨rfl, htame₂ _⟩⟩,
    ⟨r₃, log₃, h₃, hne₃, (hversion r₃ log₃ h₃).mpr (htame₃ _)⟩,
    ⟨r₄, log₄, h₄, hne₄, (hwrapDek r₄ log₄ h₄).mpr ⟨hnames, htame₄ _⟩⟩,
    r₅, log₅, h₅, hne₅, (hunwrapDek r₅ log₅ h₅).mpr ⟨hnames, rfl, htame₅ _⟩⟩

/-- An engine that accepts the login, and answers everything else with an empty array. -/
def arrayOracle (_ : Transcript Empty) : (c : BaoCall Empty) → BaoAnswer c
  | .lock => ()
  | .unlock => ()
  | .monotonic => (0 : ℚ)
  | .request r =>
    if r.url = sampleBao.addr ++ loginPath then
      okResponse "\x7b\"auth\":\x7b\"client_token\":\"t\"\x7d\x7d"
    else okResponse "[]"

/-- Is it an error, and not a `KMSError`? -/
def isStray : Except (BaoExc Empty) Bytes → Bool
  | .ok _ => false
  | .error e => !e.isKmsError

/-- Is it a response with the status 200? -/
def isOkResponse : Exchange → Bool
  | .httpError _ => false
  | .raised _ => false
  | .response status _ => status == 200

/-- The empty blob is refused with an error of its own by `LocalDevKMS`, and a response that is an
array is an `AttributeError` in `OpenBaoKMS`. -/
theorem stray_errors :
    ¬ Uniform (@LocalDevKMS.unwrap sampleKms ideal (text "k") [] []) ∧
      ∃ r log, Returns (sampleBao.wrap (text "k") [1] [] : Bao Empty Bytes) r log ∧
        (∀ p ∈ log, ∃ content, p.2 = .response 200 content) ∧ ¬ Uniform r := by
  constructor
  · let _ := ideal
    rw [LocalDevKMS.unwrap_uniform_iff]
    rintro ⟨hw, h⟩
    obtain ⟨kek, hkek, -⟩ := sampleKms.staticKey_of_wellFormed hw
    exact absurd (h kek hkek).1 (by decide)
  · obtain ⟨r, s', log, hrun, hr⟩ := Coro.exists_runs_of_eval (f := arrayOracle)
      (E := Transcript.answer) (s := TokenState.initial) (w := [])
      (x := (sampleBao.wrap (text "k") [1] [] : Bao Empty Bytes).run)
      (p := fun e => isStray e.1 && e.2.2.all fun p => isOkResponse p.2)
      (by decide +kernel)
    simp only [Bool.and_eq_true, List.all_eq_true] at hr
    refine ⟨r, log, ⟨_, s', hrun⟩, fun p hp => ?_, fun hu => ?_⟩
    · have hok := hr.2 p hp
      cases hex : p.2 with
      | response status content =>
        rw [hex] at hok
        exact ⟨content, by rw [of_decide_eq_true hok]⟩
      | _ =>
        rw [hex] at hok
        cases hok
    · cases r with
      | ok b => exact Bool.noConfusion hr.1
      | error e =>
        have he : (!e.isKmsError) = true := hr.1
        rw [hu e rfl] at he
        cases he

end Example

end Omkit.Kms
