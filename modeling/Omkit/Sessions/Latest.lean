import Omkit.Sessions.Scope

/-!
# What a store returns

Every session that a store returns was written down under its token, by the latest `put` of the
token.  In Postgres the payload and the expiry of a row are those of the latest `put`, but the tenant
is that of the `put` that has inserted the row: a `put` by another tenant mixes the two.
-/

namespace Omkit.Sessions

open Lib

variable {F : Type} [JsonRuntime F]

/-! ## Lists -/

lemma exists_of_mem_mapM {ε α β : Type} {f : α → Except ε β} {l : List α} {m : List β}
    (h : l.mapM f = .ok m) {b : β} (hb : b ∈ m) : ∃ a ∈ l, f a = .ok b := by
  induction l generalizing m with
  | nil =>
    obtain rfl : [] = m := Except.ok.inj h
    simp at hb
  | cons a l ih =>
    rw [List.mapM_cons] at h
    cases ha : f a with
    | error e => simp [ha, bind, Except.bind] at h
    | ok b' =>
      cases hl : l.mapM f with
      | error e => simp [ha, hl, bind, Except.bind] at h
      | ok m' =>
        obtain rfl : b' :: m' = m := by
          simpa [ha, hl, bind, Except.bind, pure, Except.pure] using h
        rcases List.mem_cons.mp hb with rfl | hb
        · exact ⟨a, List.mem_cons_self, ha⟩
        · obtain ⟨a', ha', hf⟩ := ih hl hb
          exact ⟨a', List.mem_cons_of_mem _ ha', hf⟩

/-- A session that the Redis list returns is one that a lookup returns. -/
lemma redis_get_of_mem_list {r : Redis} {now : Aware} {tenantId : PyStr} {scan : List Bytes}
    {l : List (Session F)} (h : r.list now tenantId scan = .ok l) {x : Session F} (hx : x ∈ l) :
    ∃ token, r.get now token none = .ok x := by
  induction scan generalizing l with
  | nil =>
    obtain rfl : [] = l := Except.ok.inj h
    simp at hx
  | cons key scan ih =>
    rw [Redis.list] at h
    cases hk : decode key with
    | none => simp [hk] at h
    | some k =>
      simp only [hk] at h
      cases hget : r.get (F := F) now (r.removePrefix k) none with
      | ok s =>
        cases hrest : r.list (F := F) now tenantId scan with
        | error e => simp [hget, hrest, bind, Except.bind] at h
        | ok rest =>
          obtain rfl : (if s.tenantId = tenantId then s :: rest else rest) = l := by
            simpa [hget, hrest, bind, Except.bind, pure, Except.pure] using h
          split_ifs at hx with ht
          · rcases List.mem_cons.mp hx with rfl | hx
            · exact ⟨_, hget⟩
            · exact ih hrest hx
          · exact ih hrest hx
      | error e =>
        simp only [hget] at h
        cases e with
        | notFound token => exact ih h hx
        | _ => cases h

section Rows

variable [PyNumbers F] [Postgres F] {rows rows' : Rows F} {now : Aware} {token : PyStr}

omit [JsonRuntime F] [PyNumbers F] [Postgres F] in
lemma get?_upsert (rows : Rows F) (new : Row F) (token : PyStr) :
    (rows.upsert new).get? token = if token = new.token then
      some (((rows.get? new.token).map fun r =>
        { r with payload := new.payload, expiresAt := new.expiresAt }).getD new)
    else rows.get? token := by
  unfold Rows.upsert
  cases h : rows.get? new.token <;> simp [Dict.get?_set]

omit [PyNumbers F] in
/-- What a `put` in Postgres has done when it succeeds. -/
lemma rows_put_eq_ok {x : Session F} (h : rows.put now x = .ok rows') :
    ∃ body t col e, dumps .default x.payload = .ok body ∧
      Postgres.uuidText F x.tenantId = some t ∧ Postgres.jsonb body = some col ∧
      Postgres.timestamptz F x.expiresAt = some e ∧ textParam x.token = true ∧
      rows' = rows.upsert ⟨x.token, t, col, now, e⟩ := by
  cases hb : dumps .default x.payload with
  | error err => simp [Rows.put, hb, Except.mapError, bind, Except.bind] at h
  | ok body =>
    simp only [Rows.put, hb, Except.mapError, bind, Except.bind] at h
    split at h
    · next t col e ht hcol he =>
      split at h
      · next htok => exact ⟨body, t, col, e, rfl, ht, hcol, he, htok, (Except.ok.inj h).symm⟩
      · cases h
    · cases h

omit [JsonRuntime F] [PyNumbers F] in
/-- A `delete` in Postgres takes the row of the token away or changes nothing. -/
lemma rows_delete_eq_ok {tenantId : Option PyStr} (h : rows.delete token tenantId = .ok rows') :
    rows' = rows.pop token ∨ rows' = rows := by
  cases tenantId with
  | none =>
    simp only [Rows.delete] at h
    split_ifs at h
    exact Or.inl (Except.ok.inj h).symm
  | some t =>
    simp only [Rows.delete] at h
    split at h
    · cases h
    · split_ifs at h
      · exact Or.inl (Except.ok.inj h).symm
      · exact Or.inr (Except.ok.inj h).symm

omit [Postgres F] in
/-- The parts of a session that is built from a row. -/
lemma row_session_eq_ok {r : Row F} {x : Session F} :
    r.session = .ok x ↔ ∃ payload, parsePayload r.payload = .ok payload ∧
      x = ⟨r.token, r.tenantId, payload, r.expiresAt.1, r.createdAt.1⟩ := by
  cases hp : parsePayload r.payload <;>
    simp [Row.session, hp, Except.mapError, bind, Except.bind, pure, Except.pure, eq_comm]

omit [Postgres F] in
/-- A lookup without a tenant finds the row of the token, if it has not expired. -/
lemma rows_get_of_live {r : Row F} {x : Session F} (hparam : textParam token = true)
    (hr : rows.get? token = some r) (hlive : now.micros < r.expiresAt.micros)
    (hsession : r.session = .ok x) : rows.get now token none = .ok x := by
  have hrow : rows.live now token = some r := by
    simp [Rows.live, hr, Option.filter, hlive]
  simp [Rows.get, hparam, hrow, hsession]

end Rows

/-! ## What the rows record -/

section Recorded

variable [Postgres F]

/-- A row has the token, the payload and the expiry of a `put`, as the server keeps them. -/
structure Wrote (r : Row F) (p : Put F) : Prop where
  token : p.session.token = r.token
  payload : ∃ body, dumps .default p.session.payload = .ok body ∧
    Postgres.jsonb body = some r.payload
  expiresAt : Postgres.timestamptz F p.session.expiresAt = some r.expiresAt

/-- Each row of a table has the payload and the expiry of the latest `put` of its token. -/
def Recorded (rows : Rows F) (puts : Dict PyStr (Put F)) : Prop :=
  ∀ token r, rows.get? token = some r → r.token = token ∧ textParam token = true ∧
    ∃ p, puts.get? token = some p ∧ Wrote r p

variable {rows rows' : Rows F} {puts : Dict PyStr (Put F)} {now sent : Aware} {token : PyStr}

lemma Recorded.put (h : Recorded rows puts) {x : Session F} (hput : rows.put sent x = .ok rows') :
    Recorded rows' (puts.set x.token ⟨x, now, sent⟩) := by
  obtain ⟨body, t, col, e, hbody, -, hcol, he, htok, rfl⟩ := rows_put_eq_ok hput
  intro token r hr
  rw [get?_upsert] at hr
  rw [Dict.get?_set]
  split_ifs at hr ⊢ with htoken
  · -- a row that existed keeps its token and takes the payload and the expiry
    subst htoken
    refine ⟨?_, htok, _, rfl, ?_⟩
    · cases hold : rows.get? x.token with
      | none =>
        obtain rfl : _ = r := by simpa [hold] using hr
        rfl
      | some r₀ =>
        obtain rfl : _ = r := by simpa [hold] using hr
        exact (h x.token r₀ hold).1
    · cases hold : rows.get? x.token with
      | none =>
        obtain rfl : _ = r := by simpa [hold] using hr
        exact ⟨rfl, ⟨body, hbody, hcol⟩, he⟩
      | some r₀ =>
        obtain rfl : _ = r := by simpa [hold] using hr
        exact ⟨(h x.token r₀ hold).1.symm, ⟨body, hbody, hcol⟩, he⟩
  · exact h token r hr

/-- A table from which rows were taken away, with the puts that are left. -/
lemma Recorded.mono (h : Recorded rows puts) {puts' : Dict PyStr (Put F)}
    (hsub : ∀ k r, rows'.get? k = some r → rows.get? k = some r ∧ puts'.get? k = puts.get? k) :
    Recorded rows' puts' := by
  intro k r hr
  obtain ⟨hold, hputs⟩ := hsub k r hr
  rw [hputs]
  exact h k r hold

omit [JsonRuntime F] in
/-- A `delete` leaves the rows of other tokens, and their puts. -/
lemma delete_postgres {s : State F} (hst : s.store = .postgres rows) {tenantId : Option PyStr}
    (hst' : (s.delete token tenantId).store = .postgres rows') (k : PyStr) (r : Row F)
    (hr : rows'.get? k = some r) :
    rows.get? k = some r ∧ (s.delete token tenantId).puts.get? k = s.puts.get? k := by
  cases hdel : s.store.delete token tenantId with
  | error e =>
    rw [State.delete_of_error hdel] at hst' ⊢
    obtain rfl := Store.postgres.inj (hst.symm.trans hst')
    exact ⟨hr, rfl⟩
  | ok st =>
    rw [State.delete_of_ok hdel] at hst' ⊢
    obtain rfl : st = .postgres rows' := hst'
    rw [hst] at hdel
    obtain ⟨rows₁, hrows, heq⟩ := map_eq_ok.mp hdel
    obtain rfl := Store.postgres.inj heq
    rcases rows_delete_eq_ok hrows with rfl | rfl
    · -- the row of the token is gone, so `k` is another one
      have hk : k ≠ token := by
        rintro rfl
        simp at hr
      rw [Dict.get?_pop_ne _ hk] at hr
      refine ⟨hr, ?_⟩
      show Dict.get? (ite _ _ _) k = _
      split_ifs
      · rfl
      · exact Dict.get?_pop_ne _ hk
    · refine ⟨hr, ?_⟩
      show Dict.get? (ite _ _ _) k = _
      split_ifs with hhas
      · rfl
      · have hk : k ≠ token := by
          rintro rfl
          exact hhas (by simp [Store.has, hr])
        exact Dict.get?_pop_ne _ hk

lemma put_postgres {st : Store F} {x : Session F} (h : st.put now sent x = .ok (.postgres rows')) :
    ∃ rows, st = .postgres rows ∧ rows.put sent x = .ok rows' := by
  cases st with
  | postgres rows =>
    obtain ⟨rows₁, hput, heq⟩ := map_eq_ok.mp h
    exact ⟨rows, rfl, Store.postgres.inj heq ▸ hput⟩
  | redis r =>
    obtain ⟨r', -, hr⟩ := map_eq_ok.mp h
    cases hr

omit [JsonRuntime F] in
/-- A `delete` does not change the kind of the store. -/
lemma delete_store_postgres {s : State F} {tenantId : Option PyStr}
    (h : (s.delete token tenantId).store = .postgres rows') : ∃ rows, s.store = .postgres rows := by
  cases hst : s.store with
  | postgres rows => exact ⟨rows, rfl⟩
  | redis r =>
    cases hdel : s.store.delete token tenantId with
    | error e =>
      rw [State.delete_of_error hdel, hst] at h
      cases h
    | ok st =>
      rw [State.delete_of_ok hdel] at h
      rw [hst] at hdel
      obtain ⟨r', -, hr⟩ := map_eq_ok.mp hdel
      rw [← hr] at h
      cases h

omit [JsonRuntime F] in
lemma delete_store_redis {s : State F} {tenantId : Option PyStr} {r' : Redis}
    (h : (s.delete token tenantId).store = .redis r') : ∃ r, s.store = .redis r := by
  cases hdel : s.store.delete token tenantId with
  | error e =>
    rw [State.delete_of_error hdel] at h
    exact ⟨r', h⟩
  | ok st =>
    rw [State.delete_of_ok hdel] at h
    obtain rfl : st = .redis r' := h
    obtain ⟨r, hst, -⟩ := delete_redis hdel
    exact ⟨r, hst⟩

end Recorded

/-! ## The puts that are kept -/

section Steps

variable [Postgres F] {s s' : State F}

/-- In every reachable state a table records the latest puts. -/
theorem recorded_of_reachable (hs : machine.Reachable s) {rows : Rows F}
    (hst : s.store = .postgres rows) : Recorded rows s.puts := by
  refine Machine.Reachable.invariant (M := machine)
    (I := fun s : State F => ∀ rows, s.store = .postgres rows → Recorded rows s.puts) ?_ ?_ hs
    rows hst
  · rintro s ⟨-, hstore⟩ rows hrows token r hr
    rcases hstore with h | ⟨p, d, h⟩
    · obtain rfl := Store.postgres.inj (h.symm.trans hrows)
      simp at hr
    · rw [h] at hrows
      cases hrows
  · intro s op s' ih hstep rows' hst'
    cases move_of_step hstep with
    | put hle h =>
      obtain rfl : _ = Store.postgres rows' := hst'
      obtain ⟨rows, hst, hput⟩ := put_postgres h
      exact (ih rows hst).put hput
    | refused => exact ih rows' hst'
    | delete =>
      obtain ⟨rows, hst⟩ := delete_store_postgres hst'
      exact (ih rows hst).mono (delete_postgres hst hst')
    | tick => exact ih rows' hst'

omit [JsonRuntime F] in
/-- The puts that are left after a `delete`. -/
lemma get?_delete_puts {token token' : PyStr} {tenantId : Option PyStr} {p : Put F}
    (h : (s.delete token' tenantId).puts.get? token = some p) : s.puts.get? token = some p := by
  cases hdel : s.store.delete token' tenantId with
  | error e =>
    rw [State.delete_of_error hdel] at h
    exact h
  | ok st =>
    rw [State.delete_of_ok hdel] at h
    have h' : Dict.get? (ite _ s.puts (s.puts.pop token')) token = some p := h
    rw [apply_ite (fun d : Dict PyStr (Put F) => d.get? token), Dict.get?_pop] at h'
    split_ifs at h' <;> exact h'

/-- A put that is kept was executed, for its own token and by a store of the same kind. -/
lemma put_of_reachable (hs : machine.Reachable s) {token : PyStr} {p : Put F}
    (hp : s.puts.get? token = some p) : p.session.token = token ∧
      ∀ r, s.store = .redis r → ∃ r₀ r₁, Redis.put r₀ p.now p.sent p.session = .ok r₁ := by
  refine Machine.Reachable.invariant (M := machine)
    (I := fun s : State F => ∀ token p, s.puts.get? token = some p → p.session.token = token ∧
      ∀ r, s.store = .redis r → ∃ r₀ r₁, Redis.put r₀ p.now p.sent p.session = .ok r₁)
    ?_ ?_ hs token p hp
  · rintro s ⟨hputs, -⟩ token p hp
    rw [hputs] at hp
    simp at hp
  · intro s op s' ih hstep token p hp
    cases move_of_step hstep with
    | put hle h =>
      rw [Dict.get?_set] at hp
      split_ifs at hp with htoken
      · obtain rfl := Option.some.inj hp
        refine ⟨htoken.symm, fun r hr => ?_⟩
        obtain rfl : _ = Store.redis r := hr
        obtain ⟨r₀, -, hput⟩ := put_redis h
        exact ⟨r₀, r, hput⟩
      · refine ⟨(ih token p hp).1, fun r hr => ?_⟩
        obtain rfl : _ = Store.redis r := hr
        obtain ⟨r₀, hst, -⟩ := put_redis h
        exact (ih token p hp).2 r₀ hst
    | refused => exact ih token p hp
    | delete =>
      have hold := ih token p (get?_delete_puts hp)
      refine ⟨hold.1, fun r hr => ?_⟩
      obtain ⟨r₀, hst⟩ := delete_store_redis hr
      exact hold.2 r₀ hst
    | tick => exact ih token p hp

end Steps

/-! ## What is returned -/

section Returned

variable [PyNumbers F] [Postgres F]

/-- `list`; Redis goes through the keys that its scan returns. -/
def Store.list (st : Store F) (now : Aware) (tenantId : PyStr) (scan : List Bytes) :
    Except SessionError (List (Session F)) :=
  match st with
  | postgres rows => rows.list now tenantId
  | redis r => r.list now tenantId scan

/-- A `get` or a `list` at the instant `t` returns the session. -/
def Store.Returns (st : Store F) (t : Aware) (x : Session F) : Prop :=
  (∃ token tenantId, st.get t token tenantId = .ok x) ∨
    ∃ tenantId scan l, st.list t tenantId scan = .ok l ∧ x ∈ l

/-- The session has the token, the tenant, the payload and the expiry of the `put`, as the store
writes each of them down and reads it back. -/
def Put.Gives (p : Put F) (st : Store F) (x : Session F) : Prop :=
  match st with
  | .postgres _ => x.token = p.session.token ∧
      Postgres.uuidText F p.session.tenantId = some x.tenantId ∧
      (∃ body col, dumps .default p.session.payload = .ok body ∧ Postgres.jsonb body = some col ∧
        parsePayload col = .ok x.payload) ∧
      ∃ t, Postgres.timestamptz F p.session.expiresAt = some t ∧ x.expiresAt = t.1
  | .redis _ => x = p.session.readBack

/-- Each session that the store returns is that of the latest `put` of its token. -/
def Unmixed (s : State F) : Prop :=
  ∀ x, s.store.Returns s.now x → ∃ p, s.puts.get? x.token = some p ∧ p.Gives s.store x

variable {rows : Rows F} {t : Aware} {x : Session F}

/-- What Postgres returns is built from a row that has not expired. -/
lemma returns_postgres (h : (Store.postgres rows).Returns t x) :
    ∃ token r, rows.get? token = some r ∧ t.micros < r.expiresAt.micros ∧ r.session = .ok x := by
  rcases h with ⟨token, tenantId, hget⟩ | ⟨tenantId, scan, l, hlist, hx⟩
  · obtain ⟨-, r, hr, hsession, -⟩ := rows_get_eq_ok hget
    simp only [Rows.live, Option.filter_eq_some_iff, decide_eq_true_eq] at hr
    exact ⟨token, r, hr.1, hr.2, hsession⟩
  · have hlist' : rows.list t tenantId = .ok l := hlist
    unfold Rows.list at hlist'
    cases hu : Postgres.uuidText F tenantId with
    | none => simp [hu] at hlist'
    | some u =>
      simp only [hu] at hlist'
      obtain ⟨r, hr, hsession⟩ := exists_of_mem_mapM hlist' hx
      rw [List.mem_insertionSort, List.mem_filter, List.mem_map] at hr
      obtain ⟨⟨⟨token, r'⟩, hmem, rfl⟩, hlive⟩ := hr
      simp only [decide_eq_true_eq] at hlive
      exact ⟨token, r', Dict.get?_eq_some.mpr hmem, hlive.2, hsession⟩

omit [PyNumbers F] in
/-- What Redis returns is what a `put` has written, before its deadline. -/
lemma returns_redis {r : Redis} {puts : Dict PyStr (Put F)} [PyNumbers F] (h : Holds r puts) :
    (Store.redis r).Returns t x ↔
      ∃ token p, puts.get? token = some p ∧ t.micros < p.deadline ∧ x = p.session.readBack := by
  constructor
  · rintro (⟨token, tenantId, hget⟩ | ⟨tenantId, scan, l, hlist, hx⟩)
    · exact ⟨token, (get_eq_ok h tenantId).mp hget⟩
    · obtain ⟨token, hget⟩ := redis_get_of_mem_list hlist hx
      exact ⟨token, (get_eq_ok h none).mp hget⟩
  · rintro ⟨token, hp⟩
    exact Or.inl ⟨token, none, (get_eq_ok h none).mpr hp⟩

/-! ## One put or two -/

variable (F) in
/-- What a JSONB column hands back for a text that `json.dumps` has written can be parsed. -/
def JsonbReadable : Prop :=
  ∀ (v : Json F) s col, dumps .default v = .ok s → Postgres.jsonb (F := F) s = some col →
    ∃ w, parsePayload col = .ok w

/-- Each row that has not expired is of the tenant of the latest `put`. -/
def TenantsMatch (s : State F) : Prop :=
  ∀ rows, s.store = .postgres rows → ∀ token r p, rows.get? token = some r →
    s.puts.get? token = some p → s.now.micros < r.expiresAt.micros →
    Postgres.uuidText F p.session.tenantId = some r.tenantId

/-- A `put` of a token that has a row in Postgres is for the tenant of the row, unless its session
has expired before it is written. -/
def KeepsTenant (s : State F) : Op F → Prop
  | .put x sent => ∀ rows, s.store = .postgres rows → (∃ rows', rows.put sent x = .ok rows') →
      ∀ r, rows.get? x.token = some r → Postgres.uuidText F x.tenantId = some r.tenantId ∨
        ∀ e, Postgres.timestamptz F x.expiresAt = some e → e.micros ≤ sent.micros
  | _ => True

variable {s s' : State F}

/-- Redis never mixes two puts. -/
lemma unmixed_redis (hs : machine.Reachable s) {r : Redis} (hst : s.store = .redis r) :
    Unmixed s := by
  intro x hx
  have hholds := holds_of_reachable hs hst
  rw [hst] at hx ⊢
  obtain ⟨token, p, hp, -, rfl⟩ := (returns_redis hholds).mp hx
  have htoken := hholds.token_readBack hp (put_of_reachable hs hp).1
  exact ⟨p, by rw [htoken, hp], rfl⟩

/-- Postgres mixes two puts exactly if a row is of another tenant than the latest `put`. -/
lemma unmixed_postgres_iff (hjsonb : JsonbReadable F) (hs : machine.Reachable s)
    (hst : s.store = .postgres rows) : Unmixed s ↔ TenantsMatch s := by
  have hrec := recorded_of_reachable hs hst
  constructor
  · intro h rows' hst' token r p hr hp hlive
    obtain rfl := Store.postgres.inj (hst.symm.trans hst')
    obtain ⟨htoken, hparam, p', hp', hwrote⟩ := hrec token r hr
    obtain ⟨body, hbody, hcol⟩ := hwrote.payload
    obtain ⟨v, hv⟩ := hjsonb _ body r.payload hbody hcol
    have hsession := row_session_eq_ok.mpr ⟨v, hv, rfl⟩
    have hget := rows_get_of_live hparam hr hlive hsession
    obtain ⟨q, hq, hgives⟩ := h _ (Or.inl ⟨token, none, by rw [hst]; exact hget⟩)
    rw [hst] at hgives
    have hq' : s.puts.get? token = some q := htoken ▸ hq
    obtain rfl : p = q := Option.some.inj (hp.symm.trans hq')
    exact hgives.2.1
  · intro h x hx
    rw [hst] at hx
    obtain ⟨token, r, hr, hlive, hsession⟩ := returns_postgres hx
    obtain ⟨htoken, -, p, hp, hwrote⟩ := hrec token r hr
    obtain ⟨v, hv, rfl⟩ := row_session_eq_ok.mp hsession
    obtain ⟨body, hbody, hcol⟩ := hwrote.payload
    refine ⟨p, by rwa [← htoken] at hp, ?_⟩
    rw [hst]
    exact ⟨hwrote.token.symm, h rows hst token r p hr hp hlive, ⟨body, _, hbody, hcol, hv⟩,
      _, hwrote.expiresAt, rfl⟩

omit [JsonRuntime F] [PyNumbers F] in
/-- Rows that are taken away, or that expire, stay of the right tenant. -/
lemma TenantsMatch.mono (h : TenantsMatch s) (hnow : s.now.micros ≤ s'.now.micros)
    (hsub : ∀ rows', s'.store = .postgres rows' → ∃ rows, s.store = .postgres rows ∧
      ∀ k r, rows'.get? k = some r → rows.get? k = some r ∧ s'.puts.get? k = s.puts.get? k) :
    TenantsMatch s' := by
  intro rows' hst' token r p hr hp hlive
  obtain ⟨rows, hst, hrows⟩ := hsub rows' hst'
  obtain ⟨hold, hputs⟩ := hrows token r hr
  exact h rows hst token r p hold (hputs ▸ hp) (by omega)

omit [PyNumbers F] in
/-- The rows of a table after a `put`: those of other tokens are as they were. -/
lemma tenantsMatch_put (h : TenantsMatch s) {sent : Aware} {rows' : Rows F}
    (hle : s.now.micros ≤ sent.micros) (hst : s.store = .postgres rows)
    (hput : rows.put sent x = .ok rows') :
    TenantsMatch ⟨.postgres rows', sent, s.puts.set x.token ⟨x, s.now, sent⟩⟩ ↔
      KeepsTenant s (.put x sent) := by
  obtain ⟨body, u, col, e, -, hu, -, he, -, rfl⟩ := rows_put_eq_ok hput
  constructor
  · intro h' rows₁ hst₁ _ r hr
    obtain rfl := Store.postgres.inj (hst.symm.trans hst₁)
    by_cases hlive : sent.micros < e.micros
    · refine Or.inl (h' _ rfl x.token { r with payload := col, expiresAt := e } ⟨x, s.now, sent⟩ ?_
        (by simp) hlive)
      rw [get?_upsert, if_pos rfl, hr]
      rfl
    · refine Or.inr fun e' he' => ?_
      obtain rfl : e = e' := Option.some.inj (he.symm.trans he')
      exact not_lt.mp hlive
  · intro hg rows₁ hst₁ token r p hr hp hlive
    obtain rfl := Store.postgres.inj hst₁
    rw [get?_upsert] at hr
    rw [Dict.get?_set] at hp
    by_cases htoken : token = x.token
    · rw [if_pos htoken] at hr hp
      obtain rfl := Option.some.inj hp
      cases hold : rows.get? x.token with
      | none =>
        obtain rfl : _ = r := by simpa [hold] using hr
        exact hu
      | some r₀ =>
        obtain rfl : _ = r := by simpa [hold] using hr
        rcases hg rows hst ⟨_, hput⟩ r₀ hold with htenant | hexp
        · exact htenant
        · exact absurd hlive (not_lt.mpr (hexp e he))
    · rw [if_neg htoken] at hr hp
      have hlive' : s.now.micros < r.expiresAt.micros := lt_of_le_of_lt hle hlive
      exact h rows hst token r p hr hp hlive'

omit [PyNumbers F] in
lemma tenantsMatch_move {op : Op F} (h : TenantsMatch s) (hm : Move s op s') :
    TenantsMatch s' ↔ KeepsTenant s op := by
  cases hm with
  | @put x sent st hle hput =>
    cases st with
    | postgres rows' =>
      obtain ⟨rows, hst, hput⟩ := put_postgres hput
      exact tenantsMatch_put h hle hst hput
    | redis r' =>
      obtain ⟨r, hst, -⟩ := put_redis hput
      refine iff_of_true ?_ ?_
      · rintro rows ⟨⟩
      · intro rows hrows
        rw [hst] at hrows
        cases hrows
  | @refused x sent e hle hput =>
    refine iff_of_true ?_ ?_
    · exact h.mono hle fun rows' hst => ⟨rows', hst, fun k r hr => ⟨hr, rfl⟩⟩
    · rintro rows hst ⟨rows', hok⟩
      rw [hst, Store.put, hok] at hput
      cases hput
  | delete =>
    refine iff_of_true ?_ trivial
    refine h.mono ?_ fun rows' hst' => ?_
    · rw [State.delete_now]
    · obtain ⟨rows, hst⟩ := delete_store_postgres hst'
      exact ⟨rows, hst, delete_postgres hst hst'⟩
  | tick hle =>
    exact iff_of_true (h.mono hle fun rows' hst => ⟨rows', hst, fun k r hr => ⟨hr, rfl⟩⟩) trivial

/-- **The stores mix no two puts in a run exactly if every `put` in Postgres keeps the tenant of its
row.** -/
theorem unmixed_iff_keepsTenant (hjsonb : JsonbReadable F) {es : List (Op F)}
    (hi : machine.init s) (hr : machine.run s es = some s') :
    machine.Throughout Unmixed s es ↔ machine.Along KeepsTenant s es := by
  have hiff : ∀ s : State F, machine.Reachable s → (Unmixed s ↔ TenantsMatch s) := by
    intro s hs
    cases hst : s.store with
    | postgres rows => exact unmixed_postgres_iff hjsonb hs hst
    | redis r =>
      refine iff_of_true (unmixed_redis hs hst) fun rows hrows => ?_
      rw [hst] at hrows
      cases hrows
  refine Machine.throughout_iff_along ?_ ?_ hi hr
  · intro s hi
    refine (hiff s (.init hi)).mpr fun rows _ token r p _ hp => ?_
    rw [hi.1] at hp
    simp at hp
  · intro s op t hreach h hs
    rw [hiff t (hreach.reachable.step hs)]
    exact tenantsMatch_move ((hiff s hreach.reachable).mp h) (move_of_step hs)

end Returned

/-! ## A mixed session -/

lemma zero_lt_day : 0 < 24 := by decide
lemma one_lt_day : 1 < 24 := by decide
lemma two_lt_day : 2 < 24 := by decide

/-- The tenants of the sample puts. -/
def sampleTenants : PyStr × PyStr :=
  (text "00000000-0000-0000-0000-00000000000a", text "00000000-0000-0000-0000-00000000000b")

/-- A session of the token `tok`. -/
def tenantSession (tenantId : PyStr) : Session Empty :=
  ⟨text "tok", tenantId, .obj [], (sampleTime 2 two_lt_day).1, (sampleTime 0 zero_lt_day).1⟩

/-- An empty table. -/
def sampleTable : State Empty := ⟨.postgres .empty, sampleTime 0 zero_lt_day, .empty⟩

/-- A put by the first tenant, and one of the same token by the second. -/
def samplePuts : List (Op Empty) :=
  [.put (tenantSession sampleTenants.1) (sampleTime 0 zero_lt_day),
    .put (tenantSession sampleTenants.2) (sampleTime 1 one_lt_day)]

/-- A server that keeps the text of a JSON value hands out what can be parsed. -/
lemma jsonbReadable_empty : JsonbReadable Empty := by
  intro v s col hs hcol
  obtain rfl := Option.some.inj hcol
  exact ⟨_, loads_dumps DumpOpts.default_ok hs⟩

/-- Two puts of a token by its tenant. -/
def refreshPuts : List (Op Empty) :=
  [.put (tenantSession sampleTenants.1) (sampleTime 0 zero_lt_day),
    .put (tenantSession sampleTenants.1) (sampleTime 1 one_lt_day)]

/-- The tenant of the row that the first put leaves. -/
def State.tenantOf (s : State Empty) (token : PyStr) : Option PyStr :=
  match s.store with
  | .postgres rows => (rows.get? token).map Row.tenantId
  | .redis _ => none

lemma refreshPuts_tenant : ((machine.run sampleTable (refreshPuts.take 1)).map fun s =>
    s.tenantOf (text "tok")) = some (some sampleTenants.1) := by
  decide +kernel

theorem unmixed_refresh : ∃ s', machine.run sampleTable refreshPuts = some s' ∧
    machine.Throughout Unmixed sampleTable refreshPuts := by
  have hsome : (machine.run sampleTable refreshPuts).isSome = true := by decide +kernel
  obtain ⟨s', hr⟩ := Option.isSome_iff_exists.mp hsome
  refine ⟨s', hr, (unmixed_iff_keepsTenant jsonbReadable_empty ⟨rfl, Or.inl rfl⟩ hr).mpr ?_⟩
  obtain ⟨s₁, hfirst, htenant⟩ := Option.map_eq_some_iff.mp refreshPuts_tenant
  obtain ⟨u, hu, hlast⟩ := Machine.run_cons.mp hfirst
  obtain rfl : u = s₁ := Option.some.inj hlast
  refine ⟨fun rows hst _ r hrow => ?_, fun t ht => ⟨fun rows hst _ r hrow => ?_,
    fun _ _ => trivial⟩⟩
  · obtain rfl := Store.postgres.inj hst
    simp at hrow
  · -- the row is the one of the first put
    obtain rfl : u = t := Option.some.inj (hu.symm.trans ht)
    have hrow' : (rows.get? (text "tok")).map Row.tenantId = some sampleTenants.1 := by
      rw [← htenant, State.tenantOf, hst]
    have hget : rows.get? (text "tok") = some r := hrow
    rw [hget] at hrow'
    have heq : r.tenantId = sampleTenants.1 := Option.some.inj hrow'
    rw [heq]
    exact Or.inl (by decide)

/-- The second put leaves the tenant of the first with the payload of the second. -/
theorem put_mixes_tenants : ¬ ∀ (es : List (Op Empty)) (s' : State Empty),
    machine.run sampleTable es = some s' → machine.Throughout Unmixed sampleTable es := by
  intro h
  have hsome : (machine.run sampleTable samplePuts).isSome = true := by decide +kernel
  obtain ⟨s', hr⟩ := Option.isSome_iff_exists.mp hsome
  have hget : ((machine.run sampleTable samplePuts).bind fun s =>
      (s.get (text "tok") none).toOption.map fun x => (x.token, x.tenantId)) =
        some (text "tok", sampleTenants.1) := by decide +kernel
  have hput : ((machine.run sampleTable samplePuts).bind fun s =>
      (s.puts.get? (text "tok")).map fun p => p.session.tenantId) = some sampleTenants.2 := by
    decide +kernel
  have hlast : Unmixed s' := (h samplePuts s' hr).last hr
  rw [hr, Option.bind_some] at hget hput
  cases hx : s'.get (text "tok") none with
  | error e =>
    rw [hx] at hget
    cases hget
  | ok x =>
    rw [hx] at hget
    obtain ⟨htoken, htenant⟩ := Prod.mk.inj (Option.some.inj hget)
    obtain ⟨p, hp, hgives⟩ := hlast x (Or.inl ⟨_, _, hx⟩)
    rw [htoken] at hp
    rw [hp] at hput
    have hsecond : p.session.tenantId = sampleTenants.2 := Option.some.inj hput
    cases hst : s'.store with
    | postgres rows =>
      rw [hst] at hgives
      have hu := hgives.2.1
      rw [hsecond, htenant] at hu
      exact absurd hu (by decide)
    | redis r =>
      rw [hst] at hgives
      have hback : readStr true p.session.tenantId = sampleTenants.1 :=
        (congrArg Session.tenantId hgives).symm.trans htenant
      rw [hsecond] at hback
      exact absurd hback (by decide)

end Omkit.Sessions
