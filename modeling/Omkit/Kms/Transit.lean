import Omkit.Kms.OpenBao
import Omkit.Lib.Join
import Mathlib.Logic.Relation

/-!
# Isolation by derived contexts

A Transit engine opens a ciphertext only for the context it was issued for.  `OpenBaoKMS` makes the
context of a triple by joining its parts with `:`, and so two triples have one context exactly when
the one pair of user and purpose is the other one cut at another `:`.
-/

namespace Omkit.Kms

open Lib Crypto

/-! ## The engine -/

/-- A ciphertext that the engine has issued, and what it was issued for. -/
structure Issue where
  key : PyStr
  ciphertext : PyStr
  plaintext : PyStr
  context : PyStr
deriving DecidableEq

/-- The ciphertexts that an engine has issued. -/
structure Transit where
  issued : List Issue

/-- The engine before it has issued anything. -/
def Transit.empty : Transit := ⟨[]⟩

/-- What follows `pre` in a text that starts with it. -/
def after (pre s : PyStr) : Option PyStr :=
  if pre.isPrefixOf s then some (s.drop pre.length) else none

/-- The path of the requests that encrypt. -/
def encryptPath : PyStr := text "/v1/transit/encrypt/"

/-- The path of the requests that decrypt. -/
def decryptPath : PyStr := text "/v1/transit/decrypt/"

variable {F : Type}

/-- A text in the body of a request. -/
def Request.field (r : Request F) (name : PyStr) : PyStr :=
  match r.body.bind (·.lookup name) with
  | some (.str s) => s
  | _ => []

variable [JsonRuntime F] [PyNumbers F]

/-- A text in the data of a response. -/
def Exchange.field (F : Type) [JsonRuntime F] [PyNumbers F] (ex : Exchange) (name : PyStr) :
    Option PyStr :=
  match (ex.read : Except (BaoExc F) (Json F)) with
  | .ok v => match OpenBaoKMS.dataOf v >>= (·.get name) with
    | .ok (.str s) => some s
    | _ => none
  | .error _ => none

/-- The engine at `addr` after it has answered a call, if it may give the answer.  It issues a
ciphertext only once, and it returns a plaintext only for the ciphertext and the context that it was
issued with.  It may answer anything else at any time. -/
def Transit.answer (addr : PyStr) (w : Transit) : (c : BaoCall F) → BaoAnswer c → Option Transit
  | .request r, ex =>
    match after (addr ++ encryptPath) r.url, after (addr ++ decryptPath) r.url with
    | some key, _ => match Exchange.field F ex (text "ciphertext") with
      | some ct =>
        if w.issued.any fun i => i.key = key ∧ i.ciphertext = ct then none
        else some ⟨⟨key, ct, r.field (text "plaintext"), r.field (text "context")⟩ :: w.issued⟩
      | none => some w
    | none, some key => match Exchange.field F ex (text "plaintext") with
      | some pt =>
        if ⟨key, r.field (text "ciphertext"), pt, r.field (text "context")⟩ ∈ w.issued then some w
        else none
      | none => some w
    | none, none => some w
  | _, _ => some w

/-- The engine after any exchanges with anybody. -/
def Transit.Later (F : Type) [JsonRuntime F] [PyNumbers F] (addr : PyStr) :
    Transit → Transit → Prop :=
  Relation.ReflTransGen fun w v => ∃ (c : BaoCall F) (a : BaoAnswer c), w.answer addr c a = some v

/-- A ciphertext is issued once under a key. -/
def Transit.Functional (w : Transit) : Prop :=
  ∀ i ∈ w.issued, ∀ j ∈ w.issued, i.key = j.key → i.ciphertext = j.ciphertext → i = j

section Engine

variable {addr : PyStr} {w v u : Transit}

/-- What an answer does: nothing, or it issues a new ciphertext. -/
lemma Transit.answer_cases {c : BaoCall F} {a : BaoAnswer c} (h : w.answer addr c a = some v) :
    v = w ∨ ∃ i, (∀ j ∈ w.issued, ¬ (j.key = i.key ∧ j.ciphertext = i.ciphertext)) ∧
      v = ⟨i :: w.issued⟩ := by
  unfold answer at h
  split at h
  · split at h
    · split at h
      · split at h
        · cases h
        · next hfresh =>
          refine Or.inr ⟨_, ?_, (Option.some.inj h).symm⟩
          intro j hj hsame
          exact hfresh (List.any_eq_true.mpr ⟨j, hj, by simpa using hsame⟩)
      · exact Or.inl (Option.some.inj h).symm
    · split at h
      · split at h
        · exact Or.inl (Option.some.inj h).symm
        · cases h
      · exact Or.inl (Option.some.inj h).symm
    · exact Or.inl (Option.some.inj h).symm
  · exact Or.inl (Option.some.inj h).symm

lemma Transit.functional_of_answer {c : BaoCall F} {a : BaoAnswer c} (hw : w.Functional)
    (h : w.answer addr c a = some v) : v.Functional := by
  rcases Transit.answer_cases h with rfl | ⟨i, hi, rfl⟩
  · exact hw
  · intro j hj l hl hk hc
    rcases List.mem_cons.mp hj with hj | hj <;> rcases List.mem_cons.mp hl with hl | hl
    · rw [hj, hl]
    · exact absurd ⟨hk.symm.trans (by rw [hj]), hc.symm.trans (by rw [hj])⟩ (hi l hl)
    · exact absurd ⟨hk.trans (by rw [hl]), hc.trans (by rw [hl])⟩ (hi j hj)
    · exact hw j hj l hl hk hc

lemma Transit.mem_of_answer {c : BaoCall F} {a : BaoAnswer c} (h : w.answer addr c a = some v)
    {i : Issue} (hi : i ∈ w.issued) : i ∈ v.issued := by
  rcases Transit.answer_cases h with rfl | ⟨j, -, rfl⟩
  · exact hi
  · exact List.mem_cons_of_mem _ hi

lemma Transit.Later.functional (h : Transit.Later F addr w v) (hw : w.Functional) :
    v.Functional := by
  induction h with
  | refl => exact hw
  | tail _ hstep ih =>
    obtain ⟨c, a, ha⟩ := hstep
    exact Transit.functional_of_answer ih ha

lemma Transit.Later.mem (h : Transit.Later F addr w v) {i : Issue} (hi : i ∈ w.issued) :
    i ∈ v.issued := by
  induction h with
  | refl => exact hi
  | tail _ hstep ih =>
    obtain ⟨c, a, ha⟩ := hstep
    exact Transit.mem_of_answer ha ih

omit [JsonRuntime F] [PyNumbers F] in
lemma Transit.empty_functional : Transit.empty.Functional := by
  simp [Transit.Functional, Transit.empty]

/-- A run of a coroutine is a sequence of exchanges. -/
lemma Transit.later_of_runs {α : Type} {x : BaoIo F α} {s s' : TokenState F} {a : α}
    (h : Coro.Runs (Transit.answer addr) x s w a s' v) : Transit.Later F addr w v :=
  h.outside (fun _ => .refl) (fun h₁ h₂ => h₁.trans h₂) (fun hE => .single ⟨_, _, hE⟩)

end Engine

/-! ## What is behind the result of a request -/

section Requests

variable {ω : Type} {E : ω → (c : BaoCall F) → BaoAnswer c → Option ω} {k : OpenBaoKMS}
variable {method path : PyStr} {token : Json F} {body : Option (List (PyStr × Json F))}

/-- The last answer of the outside was the JSON `v`, to a request with the given body. -/
def Answered (E : ω → (c : BaoCall F) → BaoAnswer c → Option ω) (method url : PyStr)
    (body : Option (List (PyStr × Json F))) (v : Json F) (w : ω) : Prop :=
  ∃ w₀ tok, ∃ ex : Exchange, E w₀ (.request ⟨method, url, tok, body⟩) ex = some w ∧
    ex.read = .ok v

omit [JsonRuntime F] [PyNumbers F] in
lemma wp_ofExcept {α : Type} {r : Except (BaoExc F) α} {s : TokenState F} {w : ω}
    {Q : Except (BaoExc F) α → TokenState F → ω → Prop} :
    Coro.wp E Q (Bao.ofExcept r).run s w ↔ Q r s w := Iff.rfl

omit [JsonRuntime F] [PyNumbers F] in
lemma wp_lift {α : Type} {x : BaoIo F α} {s : TokenState F} {w : ω}
    {Q : Except (BaoExc F) α → TokenState F → ω → Prop} :
    Coro.wp E Q (Bao.lift x).run s w ↔ Coro.wp E (fun a => Q (.ok a)) x s w := by
  show Coro.wp E Q (x.bind fun a => .ret (.ok a)) s w ↔ _
  rw [Coro.wp_bind]
  rfl

omit [JsonRuntime F] [PyNumbers F] in
lemma wp_send {r : Request F} {s : TokenState F} {w : ω}
    {Q : Except (BaoExc F) Exchange → TokenState F → ω → Prop} :
    Coro.wp E Q (Bao.send r).run s w ↔
      ∀ (ex : Exchange) v, E w (.request r) ex = some v → Q (.ok ex) s v := Iff.rfl

section Calls

omit [JsonRuntime F] [PyNumbers F]

variable {α β : Type} {s : TokenState F} {w : ω} {Q : Except (BaoExc F) β → TokenState F → ω → Prop}

lemma wp_monotonic_bind {f : ℚ → Bao F β} : Coro.wp E Q (Bao.monotonic >>= f).run s w ↔
    ∀ now v, E w .monotonic now = some v → Coro.wp E Q (f now).run s v := Iff.rfl

lemma wp_modify_bind {g : TokenState F → TokenState F} {f : Unit → Bao F β} :
    Coro.wp E Q (Bao.lift (Coro.modify g) >>= f).run s w ↔ Coro.wp E Q (f ()).run (g s) w := Iff.rfl

lemma wp_read_bind {f : TokenState F → Bao F β} :
    Coro.wp E Q (Bao.lift Coro.read >>= f).run s w ↔ Coro.wp E Q (f s).run s w := Iff.rfl

/-- What runs under the lock, between taking it and giving it back. -/
lemma wp_withLock {x : Bao F β} : Coro.wp E Q (Bao.withLock x).run s w ↔
    ∀ a v, E w .lock a = some v → Coro.wp E (fun r s v => ∀ a u, E v .unlock a = some u → Q r s u)
      x.run s v := by
  show (∀ a v, E w .lock a = some v → Coro.wp E Q ((Bao.lift x.run >>= fun r => do
    Bao.lift (Coro.ask BaoCall.unlock)
    Bao.ofExcept r).run) s v) ↔ _
  simp only [Coro.wp_bindE, wp_lift]
  rfl

end Calls

lemma wp_doRaw {s : TokenState F} {w : ω} :
    Coro.wp E (fun r _ w => ∀ v, r = .ok v → Answered E method (k.addr ++ path) body v w)
      (k.doRaw method path token body).run s w := by
  rw [OpenBaoKMS.doRaw, Coro.wp_bindE, wp_send]
  intro ex w' hw' v hv
  exact ⟨w, _, ex, hw', hv⟩

lemma wp_doAuthed {s : TokenState F} {w : ω} :
    Coro.wp E (fun r _ w => ∀ v, r = .ok v → Answered E method (k.addr ++ path) body v w)
      (k.doAuthed method path body).run s w := by
  rw [OpenBaoKMS.doAuthed, Coro.wp_bindE]
  refine Coro.wp_true.mono fun r s w _ => ?_
  cases r with
  | error e => exact fun v hv => nomatch hv
  | ok tok =>
    dsimp only
    rw [Coro.wp_bindE, wp_lift]
    refine wp_doRaw.mono fun r s w hr => ?_
    dsimp only
    split
    · -- A refused token is dropped, and the request is sent again with a new one.
      split
      · rw [Coro.wp_bindE]
        refine Coro.wp_true.mono fun r s w _ => ?_
        cases r with
        | error e => exact fun v hv => nomatch hv
        | ok _ =>
          dsimp only
          rw [Coro.wp_bindE]
          refine Coro.wp_true.mono fun r s w _ => ?_
          cases r with
          | error e => exact fun v hv => nomatch hv
          | ok tok2 => exact wp_doRaw
      · exact fun v hv => nomatch hv
    · exact hr

omit [JsonRuntime F] [PyNumbers F] in
/-- A computed part raises its exception or goes on with its value. -/
lemma wp_ofExcept_bind {α β : Type} {r : Except (BaoExc F) α} {f : α → Bao F β} {s : TokenState F}
    {w : ω} {Q : Except (BaoExc F) β → TokenState F → ω → Prop}
    (herr : ∀ e, r = .error e → Q (.error e) s w)
    (hok : ∀ a, r = .ok a → Coro.wp E Q (f a).run s w) :
    Coro.wp E Q (Bao.ofExcept r >>= f).run s w := by
  rw [Coro.wp_bindE, wp_ofExcept]
  cases r with
  | error e => exact herr e rfl
  | ok a => exact hok a rfl

omit [JsonRuntime F] [PyNumbers F] in
lemma wp_ofStd_bind {α β : Type} {r : Except StdExc α} {f : α → Bao F β} {s : TokenState F}
    {w : ω} {Q : Except (BaoExc F) β → TokenState F → ω → Prop}
    (herr : ∀ e, Q (.error (.std e)) s w)
    (hok : ∀ a, r = .ok a → Coro.wp E Q (f a).run s w) :
    Coro.wp E Q (Bao.ofStd r >>= f).run s w := by
  cases r with
  | error e => exact wp_ofExcept_bind (fun _ h => Except.error.inj h ▸ herr e) (fun _ h => nomatch h)
  | ok a => exact wp_ofExcept_bind (fun _ h => nomatch h) (fun _ h => Except.ok.inj h ▸ hok a rfl)

end Requests

/-! ## Keys that the engine wraps -/

lemma after_append (pre s : PyStr) : after pre (pre ++ s) = some s := by
  rw [after, if_pos (List.isPrefixOf_iff_prefix.mpr (List.prefix_append _ _)), List.drop_left]

lemma after_encrypt (addr key : PyStr) :
    after (addr ++ encryptPath) (addr ++ (encryptPath ++ key)) = some key := by
  rw [← List.append_assoc, after_append]

lemma after_decrypt (addr key : PyStr) :
    after (addr ++ decryptPath) (addr ++ (decryptPath ++ key)) = some key := by
  rw [← List.append_assoc, after_append]

lemma after_encrypt_decrypt (addr key : PyStr) :
    after (addr ++ encryptPath) (addr ++ (decryptPath ++ key)) = none := by
  rw [after, if_neg]
  intro h
  rw [List.isPrefixOf_iff_prefix, List.prefix_append_right_inj] at h
  obtain ⟨t, ht⟩ := h
  have hhead : (encryptPath ++ t).take 20 = (decryptPath ++ key).take 20 := by rw [ht]
  rw [List.take_append_of_le_length (by decide), List.take_append_of_le_length (by decide)] at hhead
  exact absurd hhead (by decide)

omit [JsonRuntime F] in
lemma orElse_of_truthy {v : Json F} (h : (v.orElse (.str [])).truthy = true) :
    v.orElse (.str []) = v := by
  rw [Json.orElse] at h ⊢
  split
  · rfl
  · next hv =>
    rw [if_neg hv] at h
    cases h

omit [JsonRuntime F] [PyNumbers F] in
lemma asciiBytes_eq_ok {v : Json F} {b : Bytes} (h : OpenBaoKMS.asciiBytes v = .ok b) :
    ∃ s, v = .str s ∧ encodeAscii s = some b := by
  unfold OpenBaoKMS.asciiBytes at h
  split at h
  · split at h
    · next hs => exact ⟨_, rfl, by rw [hs, Except.ok.inj h]⟩
    · cases h
  · cases h

omit [JsonRuntime F] [PyNumbers F] in
lemma plaintextOf_eq_ok {what : PyStr} {v : Json F} {b : Bytes}
    (h : OpenBaoKMS.plaintextOf what v = .ok b) : ∃ s, v = .str s ∧ b64decode s = some b := by
  unfold OpenBaoKMS.plaintextOf at h
  split at h
  · split at h
    · next hs => exact ⟨_, rfl, by rw [hs, Except.ok.inj h]⟩
    · cases h
  · cases h

lemma field_of_read {ex : Exchange} {v data : Json F} {name s : PyStr}
    (hread : ex.read = .ok v) (hdata : OpenBaoKMS.dataOf v = .ok data)
    (hget : data.get name = .ok (.str s)) : Exchange.field F ex name = some s := by
  simp only [Exchange.field, hread, hdata]
  show (match data.get name with
    | .ok (.str s) => some s
    | _ => none) = some s
  rw [hget]

section Dek

variable {k : OpenBaoKMS} {U P U' P' : PyStr} {dek aad aad' wrapped : Bytes}
variable {s : TokenState F} {w : Transit}

/-- What `wrap_dek` returns is a ciphertext that was issued for the context of its triple. -/
lemma wp_wrapDek :
    Coro.wp (Transit.answer k.addr) (fun r _ w => ∀ wrapped version, r = .ok (wrapped, version) →
      ∃ ctx ct, derivedContext U P aad = (.ok ctx : Except (BaoExc F) PyStr) ∧
        encodeAscii ct = some wrapped ∧ ⟨k.keyName, ct, b64encode dek, ctx⟩ ∈ w.issued)
      (k.wrapDek U P dek aad : Bao F _).run s w := by
  refine wp_ofExcept_bind (fun e _ _ _ h => nomatch h) fun ctx hctx => ?_
  rw [Coro.wp_bindE]
  refine wp_doAuthed.mono fun r s w hr => ?_
  cases r with
  | error e => exact fun _ _ h => nomatch h
  | ok resp =>
    obtain ⟨w₀, tok, ex, hex, hread⟩ := hr resp rfl
    refine wp_ofStd_bind (fun e _ _ h => nomatch h) fun data hdata => ?_
    refine wp_ofStd_bind (fun e _ _ h => nomatch h) fun ct hct => ?_
    refine wp_ofStd_bind (fun e _ _ h => nomatch h) fun kv _ => ?_
    split
    · next v htrue _ =>
      refine wp_ofStd_bind (fun e _ _ h => nomatch h) fun wrapped' hwrapped => ?_
      intro wrapped version h
      obtain ⟨rfl, -⟩ := Prod.mk.inj (Except.ok.inj h)
      obtain ⟨t, ht, hascii⟩ := asciiBytes_eq_ok hwrapped
      rw [orElse_of_truthy htrue] at ht
      rw [ht] at hct
      have hfield : Exchange.field F ex (text "ciphertext") = some t :=
        field_of_read hread hdata hct
      refine ⟨ctx, t, hctx, hascii, ?_⟩
      -- the answer that the client has read is one that Transit has issued
      have hafter := after_encrypt k.addr k.keyName
      simp only [Transit.answer, encryptPath, hfield] at hex hafter
      rw [hafter] at hex
      dsimp only at hex
      split at hex
      · cases hex
      · rw [← Option.some.inj hex]
        exact List.mem_cons_self
    · exact fun _ _ h => nomatch h

/-- If `unwrap_dek` returns, then its ciphertext was issued for the context of its triple. -/
lemma wp_unwrapDek :
    Coro.wp (Transit.answer k.addr) (fun r _ w => ∀ dek, r = .ok dek →
      ∃ ctx ct pt, derivedContext U P aad = (.ok ctx : Except (BaoExc F) PyStr) ∧
        decodeAscii wrapped = some ct ∧ ⟨k.keyName, ct, pt, ctx⟩ ∈ w.issued)
      (k.unwrapDek U P wrapped aad : Bao F _).run s w := by
  refine wp_ofExcept_bind (fun e _ _ h => nomatch h) fun ctx hctx => ?_
  refine wp_ofStd_bind (fun e _ h => nomatch h) fun ct hct => ?_
  rw [Coro.wp_bindE]
  refine wp_doAuthed.mono fun r s w hr => ?_
  cases r with
  | error e => exact fun _ h => nomatch h
  | ok resp =>
    obtain ⟨w₀, tok, ex, hex, hread⟩ := hr resp rfl
    refine wp_ofStd_bind (fun e _ h => nomatch h) fun pt hpt => ?_
    by_cases htrue : (pt.orElse (.str [])).truthy = false
    · rw [if_pos htrue]
      exact fun _ h => nomatch h
    · rw [if_neg htrue]
      intro dek hdek
      obtain ⟨t, ht, -⟩ := plaintextOf_eq_ok hdek
      rw [orElse_of_truthy (by simpa using htrue)] at ht
      rw [ht] at hpt
      have hfield : Exchange.field F ex (text "plaintext") = some t := by
        simp only [Exchange.field, hread, hpt]
      have hciphertext : decodeAscii wrapped = some ct := by
        unfold OpenBaoKMS.asciiText at hct
        split at hct
        · next h => rw [h, Except.ok.inj hct]
        · cases hct
      refine ⟨ctx, ct, t, hctx, hciphertext, ?_⟩
      -- Transit decrypts only what it has issued, under the same context
      have hafter := after_decrypt k.addr k.keyName
      have hnone := after_encrypt_decrypt k.addr k.keyName
      simp only [Transit.answer, encryptPath, decryptPath, hfield] at hex hafter hnone
      rw [hafter, hnone] at hex
      dsimp only at hex
      split at hex
      · next hmem =>
        rw [← Option.some.inj hex]
        exact hmem
      · cases hex

/-! ## Contexts of two triples -/

omit [JsonRuntime F] [PyNumbers F] in
lemma derivedContext_eq_ok {ctx : PyStr} :
    derivedContext U P aad = (.ok ctx : Except (BaoExc F) PyStr) ↔
      ∃ b, encode (contextText U P aad) = some b ∧ ctx = b64encode b := by
  rw [derivedContext]
  cases h : (encoded (contextText U P aad) : Except (BaoExc F) Bytes) with
  | error e =>
    constructor
    · intro hctx
      cases hctx
    · rintro ⟨b, hb, -⟩
      rw [encoded_eq_ok.mpr hb] at h
      cases h
  | ok b =>
    rw [encoded_eq_ok] at h
    simp only [h, Option.some.injEq, exists_eq_left']
    constructor
    · intro hctx
      exact (Except.ok.inj hctx).symm
    · rintro rfl
      rfl

lemma contextText_inj : contextText U P aad = contextText U' P' aad' ↔
    U ++ .scalar ':' :: P = U' ++ .scalar ':' :: P' ∧ aad = aad' := by
  have hsplit (U P : PyStr) (aad : Bytes) :
      contextText U P aad = (U ++ .scalar ':' :: P) ++ .scalar ':' :: b64encode aad := by
    simp [contextText]
  rw [hsplit, hsplit, join_eq_join_iff_of_not_mem (colon_not_mem_b64encode _)
    (colon_not_mem_b64encode _), b64encode_injective.eq_iff]

lemma contextText_wellFormed : WellFormed (contextText U P aad) ↔ WellFormed U ∧ WellFormed P := by
  rw [contextText, wellFormed_append, wellFormed_scalar_cons, wellFormed_append,
    wellFormed_scalar_cons, and_iff_left (wellFormed_b64encode aad)]

/-- The triples that the adapter confuses: the same data for a pair and for the pair cut at another
of its colons. -/
def SameContext (U P : PyStr) (aad : Bytes) (U' P' : PyStr) (aad' : Bytes) : Prop :=
  aad = aad' ∧ (Recut (.scalar ':') U P U' P' ∨ Recut (.scalar ':') U' P' U P)

/-- **Two triples have one context exactly when they are one triple, or confused.** -/
theorem contextText_eq_iff : contextText U P aad = contextText U' P' aad' ↔
    (U, P, aad) = (U', P', aad') ∨ SameContext U P aad U' P' aad' := by
  rw [contextText_inj, join_eq_join_iff, SameContext, Prod.mk.injEq, Prod.mk.injEq]
  constructor
  · rintro ⟨⟨hU, hP⟩ | h, ha⟩
    · exact Or.inl ⟨hU, hP, ha⟩
    · exact Or.inr ⟨ha, h⟩
  · rintro (⟨hU, hP, ha⟩ | ⟨ha, h⟩)
    · exact ⟨Or.inl ⟨hU, hP⟩, ha⟩
    · exact ⟨Or.inr h, ha⟩

/-! ## Isolation -/

/-- The contexts of the two triples differ. -/
def ContextsDiffer (F : Type) (U P : PyStr) (aad : Bytes) (U' P' : PyStr) (aad' : Bytes) : Prop :=
  ∀ ctx ctx', derivedContext U P aad = (.ok ctx : Except (BaoExc F) PyStr) →
    derivedContext U' P' aad' = (.ok ctx' : Except (BaoExc F) PyStr) → ctx ≠ ctx'

/-- Whatever key is wrapped under the first triple, and whatever happens then, `unwrap_dek` under
the second triple raises. -/
def UnwrapFails (F : Type) [JsonRuntime F] [PyNumbers F] (k : OpenBaoKMS) (U P : PyStr)
    (aad : Bytes) (U' P' : PyStr) (aad' : Bytes) : Prop :=
  ∀ {s s₁ s₂ s₃ : TokenState F} {w w₁ w₂ w₃ dek wrapped version r},
    Transit.Later F k.addr Transit.empty w →
    Coro.Runs (Transit.answer k.addr) (k.wrapDek U P dek aad).run s w
      (.ok (wrapped, version)) s₁ w₁ →
    Transit.Later F k.addr w₁ w₂ →
    Coro.Runs (Transit.answer k.addr) (k.unwrapDek U' P' wrapped aad').run s₂ w₂ r s₃ w₃ →
    ∃ e, r = .error e

lemma unwrapFails_of_contextsDiffer (h : ContextsDiffer F U P aad U' P' aad') :
    UnwrapFails F k U P aad U' P' aad' := by
  intro s s₁ s₂ s₃ w w₁ w₂ w₃ dek wrapped version r hw hwrap hlater hunwrap
  cases r with
  | error e => exact ⟨e, rfl⟩
  | ok dek' =>
    obtain ⟨ctx, ct, hctx, hascii, hissued⟩ := wp_wrapDek.runs hwrap _ _ rfl
    obtain ⟨ctx', ct', pt, hctx', hascii', hissued'⟩ := wp_unwrapDek.runs hunwrap _ rfl
    rw [decodeAscii_encodeAscii hascii, Option.some.injEq] at hascii'
    subst hascii'
    -- Both issues are in the final engine, which issues a ciphertext once.
    have hafter := hlater.trans (Transit.later_of_runs hunwrap)
    have hall := (hw.trans (Transit.later_of_runs hwrap)).trans hafter
    have hfun := Transit.Later.functional hall Transit.empty_functional
    have hsame := hfun _ (Transit.Later.mem hafter hissued) _ hissued' rfl rfl
    exact absurd (congrArg Issue.context hsame) (h _ _ hctx hctx')

omit [JsonRuntime F] [PyNumbers F] in
lemma contextsDiffer_iff : ContextsDiffer F U P aad U' P' aad' ↔
    ¬ (WellFormed U ∧ WellFormed P ∧ contextText U P aad = contextText U' P' aad') := by
  constructor
  · rintro h ⟨hU, hP, hsame⟩
    obtain ⟨b, hb⟩ := wellFormed_iff_encode.mp (contextText_wellFormed.mpr ⟨hU, hP⟩)
    exact h _ _ (derivedContext_eq_ok.mpr ⟨b, hb, rfl⟩)
      (derivedContext_eq_ok.mpr ⟨b, hsame ▸ hb, rfl⟩) rfl
  · intro h ctx ctx' hctx hctx' heq
    obtain ⟨b, hb, rfl⟩ := derivedContext_eq_ok.mp hctx
    obtain ⟨b', hb', rfl⟩ := derivedContext_eq_ok.mp hctx'
    have hbytes : b = b' := b64encode_injective heq
    obtain ⟨hU, hP⟩ := contextText_wellFormed.mp (wellFormed_iff_encode.mpr ⟨b, hb⟩)
    exact h ⟨hU, hP, encode_injOn hb (hbytes ▸ hb')⟩

/-- **The derived contexts separate two triples, and keep the keys of the one from the other,
exactly when the triples are not confused.** -/
theorem contexts_separate_iff (F : Type) [JsonRuntime F] [PyNumbers F] (k : OpenBaoKMS)
    (U P U' P' : PyStr) (aad aad' : Bytes) (hne : (U, P, aad) ≠ (U', P', aad')) :
    (ContextsDiffer F U P aad U' P' aad' ∧ UnwrapFails F k U P aad U' P' aad') ↔
      ¬ (WellFormed U ∧ WellFormed P ∧ SameContext U P aad U' P' aad') := by
  rw [and_iff_left_of_imp unwrapFails_of_contextsDiffer, contextsDiffer_iff, contextText_eq_iff,
    or_iff_right hne]

end Dek

/-! ## Runs of the adapter -/

/-- An adapter for an engine at `https://bao`. -/
def sampleBao : OpenBaoKMS := ⟨text "https://bao", text "role", text "secret", text "dek"⟩

/-- The key of `alice` is kept from `bob`. -/
theorem alice_separate_from_bob :
    ContextsDiffer Empty (text "alice") (text "dek") [9] (text "bob") (text "dek") [9] ∧
      UnwrapFails Empty sampleBao (text "alice") (text "dek") [9] (text "bob") (text "dek") [9] := by
  refine (contexts_separate_iff Empty sampleBao (text "alice") (text "dek") (text "bob")
    (text "dek") [9] [9] (by decide)).mpr ?_
  rintro ⟨-, -, -, h | h⟩
  · exact absurd h.length_lt.2 (by decide)
  · exact absurd h.length_lt.2 (by decide)

/-- A response with a JSON body. -/
def okResponse (body : String) : Exchange := .response 200 (utf8 body.toList)

/-- An engine at work: it accepts the login, issues `vault:v1:x`, and decrypts it to `AQID`. -/
def sampleOracle (_ : Transit) : (c : BaoCall Empty) → BaoAnswer c
  | .lock => ()
  | .unlock => ()
  | .monotonic => (0 : ℚ)
  | .request r =>
    if (after (sampleBao.addr ++ encryptPath) r.url).isSome then
      okResponse "\x7b\"data\":\x7b\"ciphertext\":\"vault:v1:x\",\"key_version\":1\x7d\x7d"
    else if (after (sampleBao.addr ++ decryptPath) r.url).isSome then
      okResponse "\x7b\"data\":\x7b\"plaintext\":\"AQID\"\x7d\x7d"
    else okResponse "\x7b\"auth\":\x7b\"client_token\":\"t\"\x7d\x7d"

/-- The ciphertext that the engine issues for the user `a:b` with the purpose `c`. -/
def sampleIssue : Issue :=
  ⟨text "dek", text "vault:v1:x", text "AQID", b64encode (utf8 "a:b:c:".toList)⟩

/-- The user `a:b` with the purpose `c`, and the user `a` with the purpose `b:c`: the two have one
context, and the second opens the key that was wrapped for the first. -/
theorem recut_pair_unwraps :
    (text "a:b", text "c", ([] : Bytes)) ≠ (text "a", text "b:c", []) ∧
      ¬ ContextsDiffer Empty (text "a:b") (text "c") [] (text "a") (text "b:c") [] ∧
      ¬ UnwrapFails Empty sampleBao (text "a:b") (text "c") [] (text "a") (text "b:c") [] := by
  refine ⟨by decide, ?_, ?_⟩
  · rw [contextsDiffer_iff, not_not]
    exact ⟨wellFormed_text _, wellFormed_text _, by decide⟩
  · intro h
    obtain ⟨r, s₁, w₁, hwrap, hr⟩ := Coro.exists_runs_of_eval (f := sampleOracle)
      (E := Transit.answer sampleBao.addr) (s := TokenState.initial) (w := Transit.empty)
      (x := (sampleBao.wrapDek (text "a:b") (text "c") [1, 2, 3] []).run)
      (p := fun e => e.1.toOption = some (utf8 "vault:v1:x".toList, text "v1") ∧
        e.2.2.issued = [sampleIssue])
      (by decide +kernel)
    obtain ⟨r', s₂, w₂, hunwrap, hr'⟩ := Coro.exists_runs_of_eval (f := sampleOracle)
      (E := Transit.answer sampleBao.addr) (s := TokenState.initial) (w := ⟨[sampleIssue]⟩)
      (x := (sampleBao.unwrapDek (text "a") (text "b:c") (utf8 "vault:v1:x".toList) []).run)
      (p := fun e => e.1.toOption = some [1, 2, 3]) (by decide +kernel)
    simp only [decide_eq_true_eq] at hr hr'
    cases r with
    | error e => exact absurd hr.1 (by simp [Except.toOption])
    | ok result =>
      obtain ⟨rfl⟩ : w₁ = ⟨[sampleIssue]⟩ := by rw [← hr.2]
      obtain rfl := Option.some.inj hr.1
      obtain ⟨e, rfl⟩ := h .refl hwrap .refl hunwrap
      cases hr'

end Omkit.Kms
