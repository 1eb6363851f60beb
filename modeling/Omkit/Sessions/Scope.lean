import Omkit.Sessions.Stores

/-!
# Tenant scoping

What a Redis store holds is, in every reachable state, what the latest `put` of each token wrote,
read back through JSON.  With it: the Postgres store keeps a lookup or a deletion for a tenant away
from the sessions of others, and the Redis store, which ignores the tenant, does so exactly when
the latest session under the token is of that tenant.
-/

namespace Omkit.Sessions

open Lib

variable {F : Type} [JsonRuntime F]

/-! ## What Redis reads back -/

/-- A session as it comes back through JSON, where two surrogates may become one character. -/
def Session.readBack (s : Session F) : Session F :=
  ⟨readStr true s.token, readStr true s.tenantId, Lib.readBack true s.payload, s.expiresAt,
    s.createdAt⟩

/-- The names of the members of a stored session. -/
def memberNames : List PyStr :=
  [text "token", text "tenant_id", text "payload", text "expires_at", text "created_at"]

omit [JsonRuntime F] in
lemma readBack_toJson (s : Session F) :
    Lib.readBack true s.toJson = .obj [(text "token", .str (readStr true s.token)),
      (text "tenant_id", .str (readStr true s.tenantId)),
      (text "payload", Lib.readBack true s.payload),
      (text "expires_at", .str s.expiresAt.isoformat),
      (text "created_at", .str s.createdAt.isoformat)] := by
  have hiso (t : DateTime) : readStr true t.isoformat = t.isoformat :=
    readStr_wellFormed true t.wellFormed_isoformat
  simp only [Session.toJson, Lib.readBack, readMembers, hiso,
    readStr_wellFormed true (wellFormed_text _)]
  rw [Dict.items_ofList]
  exact (by decide : memberNames.Nodup)

omit [JsonRuntime F] in
lemma textMember_of_lookup {l : List (PyStr × Json F)} {name s : PyStr}
    (h : l.lookup name = some (.str s)) : textMember l name = .ok s := by
  rw [textMember, h]

omit [JsonRuntime F] in
lemma dateMember_of_lookup {l : List (PyStr × Json F)} {name : PyStr} {t : DateTime}
    (h : l.lookup name = some (.str t.isoformat)) : dateMember l name = .ok t := by
  rw [dateMember, textMember_of_lookup h]
  simp only [Bind.bind, Except.bind, DateTime.fromisoformat_isoformat]
  rfl

omit [JsonRuntime F] in
lemma sessionOf_readBack (s : Session F) :
    sessionOf (Lib.readBack true s.toJson) = .ok s.readBack := by
  rw [readBack_toJson, sessionOf, dateMember_of_lookup (t := s.expiresAt) rfl,
    dateMember_of_lookup (t := s.createdAt) rfl]
  simp only [Bind.bind, Except.bind]
  rw [if_pos (by rfl), textMember_of_lookup (s := readStr true s.token) rfl,
    textMember_of_lookup (s := readStr true s.tenantId) rfl]
  rfl

lemma loadValue_dumps {r : Redis} {s : Session F} {body : PyStr} {value : Bytes}
    (hbody : dumps .default s.toJson = .ok body) (hvalue : encode body = some value) :
    (r.loadValue value >>= sessionOf : Except StdExc (Session F)) = .ok s.readBack := by
  have hload : (r.loadValue value : Except StdExc (Json F)) = .ok (Lib.readBack true s.toJson) := by
    rw [Redis.loadValue]
    split
    · rw [decode_encode hvalue]
      exact loads_dumps DumpOpts.default_ok hbody
    · obtain ⟨b, hb, hl⟩ := loadsBytes_dumps DumpOpts.default_ok DumpOpts.default_ascii hbody
      obtain rfl : b = value := Option.some.inj (hb.symm.trans hvalue)
      exact hl
  simp only [hload, Bind.bind, Except.bind]
  exact sessionOf_readBack s

/-! ## Redis holds the latest put -/

/-- The instant up to which Redis keeps the session of a `put`. -/
def Put.deadline (p : Put F) : ℤ :=
  p.sent.micros + ttl ((p.session.expiresAt.instant).getD 0) p.now.micros * 1000000

/-- What is stored under a key is what the `put` has written. -/
structure Stored (r : Redis) (p : Put F) (e : RedisEntry) : Prop where
  deadline : e.deadline = p.deadline
  value : (r.loadValue e.value >>= sessionOf : Except StdExc (Session F)) = .ok p.session.readBack

/-- A database holds what the latest `put` of each token has written, and nothing else. -/
structure Holds (r : Redis) (puts : Dict PyStr (Put F)) : Prop where
  stored : ∀ token p, puts.get? token = some p →
    ∃ key e, r.key token = some key ∧ r.db.get? key = some e ∧ Stored r p e
  known : ∀ token key e, r.key token = some key → r.db.get? key = some e →
    ∃ p, puts.get? token = some p

lemma Redis.key_inj {r : Redis} {t t' : PyStr} {key : Bytes} (h : r.key t = some key)
    (h' : r.key t' = some key) : t = t' :=
  List.append_cancel_left (encode_injOn h h')

section Holds

variable {r r' : Redis} {puts : Dict PyStr (Put F)} {now sent : Aware} {token t : PyStr}
  {s : Session F}

/-- What a lookup finds, whatever the tenant it is for. -/
lemma get_eq_ok (h : Holds r puts) (tenantId : Option PyStr) {x : Session F} :
    r.get now token tenantId = .ok x ↔
      ∃ p, puts.get? token = some p ∧ now.micros < p.deadline ∧ x = p.session.readBack := by
  rw [Redis.get]
  constructor
  · intro hget
    cases hkey : r.key token with
    | none =>
      rw [hkey] at hget
      cases hget
    | some key =>
      rw [hkey] at hget
      cases hlive : r.live now key with
      | none =>
        simp only [hlive] at hget
        cases hget
      | some value =>
        simp only [hlive] at hget
        simp only [Redis.live, Option.map_eq_some_iff, Option.filter_eq_some_iff,
          decide_eq_true_eq] at hlive
        obtain ⟨e, ⟨he, hnow⟩, rfl⟩ := hlive
        obtain ⟨p, hp⟩ := h.known token key e hkey he
        obtain ⟨key', e', hkey', he', hs⟩ := h.stored token p hp
        obtain rfl : key = key' := Option.some.inj (hkey.symm.trans hkey')
        obtain rfl : e = e' := Option.some.inj (he.symm.trans he')
        rw [hs.value] at hget
        exact ⟨p, hp, hs.deadline ▸ hnow, (Except.ok.inj hget).symm⟩
  · rintro ⟨p, hp, hnow, rfl⟩
    obtain ⟨key, e, hkey, he, hs⟩ := h.stored token p hp
    have hlive : r.live now key = some e.value := by
      simp only [Redis.live, he, Option.filter, hs.deadline, hnow, decide_true, if_true,
        Option.map_some]
    simp only [hkey, hlive, hs.value]
    rfl

/-- A token that has a key can be encoded, so JSON keeps it. -/
lemma Holds.token_readBack (h : Holds r puts) {p : Put F} (hp : puts.get? token = some p)
    (htoken : p.session.token = token) : p.session.readBack.token = token := by
  obtain ⟨key, -, hkey, -⟩ := h.stored token p hp
  have hwf : WellFormed token := (wellFormed_append.mp (wellFormed_iff_encode.mpr ⟨key, hkey⟩)).2
  show readStr true p.session.token = token
  rw [htoken, readStr_wellFormed true hwf]

/-- The database after a `put` holds it. -/
lemma Holds.put (h : Holds r puts) (hput : r.put now sent s = .ok r') :
    Holds r' (puts.set s.token ⟨s, now, sent⟩) := by
  unfold Redis.put at hput
  split at hput
  · cases hput
  · next expiresAt hexp =>
    split at hput
    · cases hput
    · next body hbody =>
      split at hput
      · next key value hkey hvalue =>
        obtain rfl := Except.ok.inj hput
        constructor
        · -- the keys of two tokens differ, so the other sessions stay
          intro token p hp
          rw [Dict.get?_set] at hp
          split at hp
          · next htok =>
            obtain rfl := Option.some.inj hp
            subst htok
            refine ⟨key, _, hkey, Dict.get?_set_self _ _ _, ?_, loadValue_dumps hbody hvalue⟩
            simp only [Put.deadline, hexp, Option.getD_some]
          · next htok =>
            obtain ⟨key', e, hkey', he, hs⟩ := h.stored token p hp
            have hne : key' ≠ key := fun heq => htok (Redis.key_inj (heq ▸ hkey') hkey)
            exact ⟨key', e, hkey', by rwa [Dict.get?_set_ne _ _ hne], hs.deadline, hs.value⟩
        · intro token key' e hkey' he
          rw [Dict.get?_set]
          split
          · exact ⟨_, rfl⟩
          · next htok =>
            have hne : key' ≠ key := fun heq => htok (Redis.key_inj (heq ▸ hkey') hkey)
            rw [Dict.get?_set_ne _ _ hne] at he
            exact h.known token key' e hkey' he
      · cases hput

/-- The database after a `delete` holds nothing under the token. -/
lemma Holds.delete (h : Holds r puts) {tenantId : Option PyStr}
    (hdel : r.delete token tenantId = .ok r') :
    Holds r' (puts.pop token) ∧ (r'.key token).any (fun key => (r'.db.get? key).isSome) = false := by
  unfold Redis.delete at hdel
  split at hdel
  · cases hdel
  · next key hkey =>
    obtain rfl := Except.ok.inj hdel
    refine ⟨⟨?_, ?_⟩, ?_⟩
    · intro t p hp
      rw [Dict.get?_pop] at hp
      split at hp
      · cases hp
      · next htok =>
        obtain ⟨key', e, hkey', he, hs⟩ := h.stored t p hp
        have hne : key' ≠ key := fun heq => htok (Redis.key_inj (heq ▸ hkey') hkey)
        exact ⟨key', e, hkey', by rwa [Dict.get?_pop_ne _ hne], hs.deadline, hs.value⟩
    · intro t key' e hkey' he
      rw [Dict.get?_pop] at he
      split at he
      · cases he
      · next hne =>
        obtain ⟨p, hp⟩ := h.known t key' e hkey' he
        have htok : t ≠ token := by
          rintro rfl
          exact hne (Option.some.inj (hkey'.symm.trans hkey))
        exact ⟨p, by rwa [Dict.get?_pop_ne _ htok]⟩
    · have hkey' : Redis.key { r with db := r.db.pop key } token = some key := hkey
      rw [hkey', Option.any_some, Dict.get?_pop, if_pos rfl]
      rfl

end Holds

/-! ## The steps of a store -/

section Steps

variable [Postgres F] {s s' : State F}

/-- The steps of a store, one constructor for each thing that can happen. -/
inductive Move (s : State F) : Op F → State F → Prop
  | put {x sent st} (hle : s.now.micros ≤ sent.micros) (h : s.store.put s.now sent x = .ok st) :
      Move s (.put x sent) ⟨st, sent, s.puts.set x.token ⟨x, s.now, sent⟩⟩
  | refused {x sent e} (hle : s.now.micros ≤ sent.micros)
      (h : s.store.put s.now sent x = .error e) : Move s (.put x sent) { s with now := sent }
  | delete {token tenantId} : Move s (.delete token tenantId) (s.delete token tenantId)
  | tick {t} (hle : s.now.micros ≤ t.micros) : Move s (.tick t) { s with now := t }

lemma move_of_step {op : Op F} (h : machine.step s op = some s') : Move s op s' := by
  cases op with
  | put x sent =>
    simp only [machine, State.step] at h
    split_ifs at h with hle
    split at h
    · next st hst =>
      obtain rfl := Option.some.inj h
      exact .put hle hst
    · next e hst =>
      obtain rfl := Option.some.inj h
      exact .refused hle hst
  | delete token tenantId =>
    obtain rfl := Option.some.inj h
    exact .delete
  | tick t =>
    simp only [machine, State.step] at h
    split_ifs at h with hle
    obtain rfl := Option.some.inj h
    exact .tick hle

end Steps

section Runs

variable [Postgres F]

omit [JsonRuntime F] [Postgres F] in
lemma map_eq_ok {ε α β : Type} {x : Except ε α} {f : α → β} {b : β} :
    x.map f = .ok b ↔ ∃ a, x = .ok a ∧ f a = b := by
  cases x <;> simp [Except.map]

lemma put_redis {st : Store F} {now sent : Aware} {x : Session F} {r' : Redis}
    (h : st.put now sent x = .ok (.redis r')) :
    ∃ r, st = .redis r ∧ r.put now sent x = .ok r' := by
  cases st with
  | postgres rows =>
    obtain ⟨rows', -, hrows⟩ := map_eq_ok.mp h
    cases hrows
  | redis r =>
    obtain ⟨r'', hput, hr⟩ := map_eq_ok.mp h
    exact ⟨r, rfl, Store.redis.inj hr ▸ hput⟩

omit [JsonRuntime F] in
lemma delete_redis {st : Store F} {token : PyStr} {tenantId : Option PyStr} {r' : Redis}
    (h : st.delete token tenantId = .ok (.redis r')) :
    ∃ r, st = .redis r ∧ r.delete token tenantId = .ok r' := by
  cases st with
  | postgres rows =>
    obtain ⟨rows', -, hrows⟩ := map_eq_ok.mp h
    cases hrows
  | redis r =>
    obtain ⟨r'', hdel, hr⟩ := map_eq_ok.mp h
    exact ⟨r, rfl, Store.redis.inj hr ▸ hdel⟩

/-- The state after a `delete` still holds the latest puts. -/
lemma holds_delete {s : State F} (ih : ∀ r, s.store = .redis r → Holds r s.puts) {token : PyStr}
    {tenantId : Option PyStr} {r' : Redis} (hr' : (s.delete token tenantId).store = .redis r') :
    Holds r' (s.delete token tenantId).puts := by
  cases hdel : s.store.delete token tenantId with
  | error e =>
    rw [State.delete_of_error hdel] at hr' ⊢
    exact ih r' hr'
  | ok st =>
    rw [State.delete_of_ok hdel] at hr' ⊢
    obtain rfl : st = .redis r' := hr'
    obtain ⟨r, hr, hdel⟩ := delete_redis hdel
    obtain ⟨hholds, hgone⟩ := (ih r hr).delete hdel
    have hhas : (Store.redis r' : Store F).has token = false := hgone
    simp only [hhas, Bool.false_eq_true, if_false]
    exact hholds

/-- **In every reachable state, a Redis store holds the latest puts.** -/
theorem holds_of_reachable {s : State F} (hs : machine.Reachable s) {r : Redis}
    (hr : s.store = .redis r) : Holds r s.puts := by
  refine Machine.Reachable.invariant (M := machine)
    (I := fun s : State F => ∀ r, s.store = .redis r → Holds r s.puts) ?_ ?_ hs r hr
  · rintro s ⟨hputs, hstore⟩ r hr
    rw [hputs]
    obtain ⟨p, d, hpd⟩ : ∃ p d, s.store = .redis ⟨p, d, .empty⟩ := by
      rcases hstore with h | h
      · rw [h] at hr
        cases hr
      · exact h
    obtain rfl := Store.redis.inj (hpd.symm.trans hr)
    exact ⟨fun _ _ h => (nomatch h), fun _ _ _ _ h => (nomatch h)⟩
  · intro s op s' ih hstep r' hr'
    cases move_of_step hstep with
    | put hle h =>
      obtain rfl : _ = Store.redis r' := hr'
      obtain ⟨r, hr, hput⟩ := put_redis h
      exact (ih r hr).put hput
    | refused => exact ih r' hr'
    | delete => exact holds_delete ih hr'
    | tick => exact ih r' hr'

/-! ## Scoping -/

variable [PyNumbers F]

/-- The session belongs to the tenant `t`: its `tenant_id` is `t`, or the UUID that `t` denotes. -/
def Session.BelongsTo (x : Session F) (t : PyStr) : Prop :=
  x.tenantId = t ∨ Postgres.uuidText F t = some x.tenantId

/-- `get` and `delete` of a token for the tenant `t` are kept away from the sessions of other
tenants. -/
structure Scoped (s : State F) (token t : PyStr) : Prop where
  get_own : ∀ x, s.get token (some t) = .ok x → x.tenantId = t
  get_other : ∀ x, s.get token none = .ok x → x.tenantId ≠ t →
    s.get token (some t) = .error (.notFound token)
  delete_own : ∀ k x, s.get k none = .ok x → (s.delete token (some t)).get k none ≠ .ok x →
    x.BelongsTo t

/-- The store checks tenants: it is Postgres; or the latest session that was put under the token, if
it has not expired, is of the tenant. -/
def ChecksTenant (s : State F) (token t : PyStr) : Prop :=
  match s.store with
  | .postgres _ => True
  | .redis _ => ∀ p, s.puts.get? token = some p → s.now.micros < p.deadline →
      p.session.readBack.tenantId = t

omit [Postgres F] in
lemma session_tenantId {r : Row F} {x : Session F} (h : r.session = .ok x) :
    x.tenantId = r.tenantId := by
  unfold Row.session at h
  cases hp : (parsePayload r.payload).mapError SessionError.std with
  | error e =>
    rw [hp] at h
    cases h
  | ok payload =>
    rw [hp] at h
    rw [← Except.ok.inj h]

omit [Postgres F] in
/-- What a lookup in Postgres returns is built from a live row of the tenant. -/
lemma rows_get_eq_ok {rows : Rows F} {now : Aware} {token : PyStr} {tenantId : Option PyStr}
    {x : Session F} (h : rows.get now token tenantId = .ok x) :
    textParam token = true ∧ ∃ r, rows.live now token = some r ∧ r.session = .ok x ∧
      ∀ t ∈ tenantId, r.tenantId = t := by
  unfold Rows.get at h
  split at h
  · next htoken =>
    split at h
    · cases h
    · next r hr =>
      split at h
      · cases h
      · next hany =>
        refine ⟨htoken, r, hr, h, ?_⟩
        rintro t rfl
        simpa using hany
  · cases h

omit [Postgres F] in
lemma rows_get_other {rows : Rows F} {now : Aware} {token t : PyStr} {r : Row F}
    (htoken : textParam token = true) (hr : rows.live now token = some r) (ht : r.tenantId ≠ t) :
    rows.get now token (some t) = .error (.notFound token) := by
  simp [Rows.get, htoken, hr, ht]

omit [JsonRuntime F] [PyNumbers F] in
/-- A scoped deletion in Postgres removes at most the row of the token, if it is of the tenant. -/
lemma rows_delete_get? {rows rows' : Rows F} {token t k : PyStr} {r : Row F}
    (h : rows.delete token (some t) = .ok rows') (hr : rows.get? k = some r) :
    rows'.get? k = some r ∨ Postgres.uuidText F t = some r.tenantId := by
  unfold Rows.delete at h
  dsimp only at h
  split at h
  · cases h
  · next u hu =>
    split at h
    · split at h
      · next hany =>
        obtain rfl := Except.ok.inj h
        by_cases hk : k = token
        · subst hk
          rw [hr, Option.any_some, decide_eq_true_eq] at hany
          exact Or.inr (hany ▸ hu)
        · exact Or.inl (by rwa [Dict.get?_pop_ne _ hk])
      · obtain rfl := Except.ok.inj h
        exact Or.inl hr
    · cases h

lemma scoped_postgres {s : State F} {rows : Rows F} (hst : s.store = .postgres rows)
    (token t : PyStr) : Scoped s token t := by
  have hget (k : PyStr) (tenantId : Option PyStr) : s.get k tenantId = rows.get s.now k tenantId := by
    rw [State.get, hst]
    rfl
  constructor
  · intro x hx
    obtain ⟨-, r, -, hsession, ht⟩ := rows_get_eq_ok ((hget _ _).symm.trans hx)
    rw [session_tenantId hsession]
    exact ht t rfl
  · intro x hx hne
    obtain ⟨htoken, r, hr, hsession, -⟩ := rows_get_eq_ok ((hget _ _).symm.trans hx)
    rw [session_tenantId hsession] at hne
    rw [hget]
    exact rows_get_other htoken hr hne
  · -- a row that the deletion has taken away was of the tenant
    intro k x hx hgone
    obtain ⟨hk, r, hr, hsession, -⟩ := rows_get_eq_ok ((hget _ _).symm.trans hx)
    simp only [Rows.live, Option.filter_eq_some_iff] at hr
    cases hdel : s.store.delete token (some t) with
    | error e =>
      rw [State.delete_of_error hdel] at hgone
      exact absurd hx hgone
    | ok st =>
      rw [State.delete_of_ok hdel] at hgone
      rw [hst] at hdel
      obtain ⟨rows', hrows, rfl⟩ := map_eq_ok.mp hdel
      rcases rows_delete_get? hrows hr.1 with hkept | htenant
      · refine absurd ?_ hgone
        have hlive : rows'.live s.now k = some r := by
          simp only [Rows.live, hkept, Option.filter, hr.2, if_true]
        show rows'.get s.now k none = .ok x
        simp [Rows.get, hk, hlive, hsession]
      · exact Or.inr (by rw [session_tenantId hsession]; exact htenant)

lemma scoped_redis_iff {s : State F} {r : Redis} (hst : s.store = .redis r) (h : Holds r s.puts)
    (token t : PyStr) : Scoped s token t ↔
      ∀ p, s.puts.get? token = some p → s.now.micros < p.deadline →
        p.session.readBack.tenantId = t := by
  have hget (k : PyStr) (tenantId : Option PyStr) (x : Session F) : s.get k tenantId = .ok x ↔
      ∃ p, s.puts.get? k = some p ∧ s.now.micros < p.deadline ∧ x = p.session.readBack := by
    rw [State.get, hst]
    exact get_eq_ok h tenantId
  constructor
  · intro hs p hp hlive
    exact hs.get_own _ ((hget _ _ _).mpr ⟨p, hp, hlive, rfl⟩)
  · intro hown
    constructor
    · intro x hx
      obtain ⟨p, hp, hlive, rfl⟩ := (hget _ _ _).mp hx
      exact hown p hp hlive
    · intro x hx hne
      obtain ⟨p, hp, hlive, rfl⟩ := (hget _ _ _).mp hx
      exact absurd (hown p hp hlive) hne
    · intro k x hx hgone
      obtain ⟨p, hp, hlive, rfl⟩ := (hget _ _ _).mp hx
      by_cases hk : k = token
      · subst hk
        exact Or.inl (hown p hp hlive)
      · -- The deletion leaves every other token alone.
        refine absurd ?_ hgone
        cases hdel : s.store.delete token (some t) with
        | error e =>
          rw [State.delete_of_error hdel]
          exact hx
        | ok st =>
          rw [State.delete_of_ok hdel]
          rw [hst] at hdel
          obtain ⟨r', hdel', rfl⟩ := map_eq_ok.mp hdel
          exact (get_eq_ok (h.delete hdel').1 none).mpr
            ⟨p, by rwa [Dict.get?_pop_ne _ hk], hlive, rfl⟩

/-- **Postgres scopes lookup and deletion to the tenant in every state; Redis does so in a reachable
state exactly when the live session under the token is of the tenant.** -/
theorem scoped_iff (s : State F) (hs : machine.Reachable s) (token t : PyStr) :
    Scoped s token t ↔ ChecksTenant s token t := by
  cases hst : s.store with
  | postgres rows =>
    rw [ChecksTenant, hst]
    exact iff_of_true (scoped_postgres hst token t) trivial
  | redis r =>
    rw [ChecksTenant, hst]
    exact scoped_redis_iff hst (holds_of_reachable hs hst) token t

end Runs

/-! ## Runs of the Redis store -/

/-- An hour of a day, in UTC. -/
def sampleTime (hour : ℕ) (h : hour < 24) : Aware :=
  ⟨⟨2026, 1, 1, hour, 0, 0, 0, some 0, by decide, ⟨h, by decide⟩, by decide⟩, rfl⟩

/-- A session of the tenant `a`. -/
def sampleSession : Session Empty :=
  ⟨text "tok", text "a", .obj [], (sampleTime 2 (by decide)).1, (sampleTime 0 (by decide)).1⟩

/-- An empty Redis store. -/
def sampleStart : State Empty :=
  ⟨.redis ⟨text "omur:session:", false, .empty⟩, sampleTime 0 (by decide), .empty⟩

/-- The store after a `put` that took an hour. -/
def sampleState : State Empty :=
  (machine.step sampleStart (.put sampleSession (sampleTime 1 (by decide)))).getD sampleStart

lemma sampleState_reachable : machine.Reachable sampleState := by
  have hsome : (machine.step sampleStart
      (.put sampleSession (sampleTime 1 (by decide)))).isSome = true := by decide +kernel
  obtain ⟨s, hs⟩ := Option.isSome_iff_exists.mp hsome
  have hstate : sampleState = s := by rw [sampleState, hs, Option.getD_some]
  have hinit : machine.Reachable sampleStart := .init ⟨rfl, Or.inr ⟨_, _, rfl⟩⟩
  rw [hstate]
  exact hinit.step hs

/-- The session is scoped to its own tenant. -/
theorem own_session_scoped : Scoped sampleState (text "tok") (text "a") := by
  refine (scoped_iff sampleState sampleState_reachable (text "tok") (text "a")).mpr ?_
  have hput : (sampleState.puts.get? (text "tok")).map (·.session.readBack.tenantId) =
      some (text "a") := by decide +kernel
  unfold ChecksTenant
  split
  · trivial
  · intro p hp _
    rw [hp] at hput
    exact Option.some.inj hput

/-- The session of the tenant `a` is returned to the tenant `b`, and deleted for it. -/
theorem redis_ignores_tenant : ∃ s : State Empty, machine.Reachable s ∧
    (s.get (text "tok") (some (text "b"))).toOption.map Session.tenantId = some (text "a") ∧
    ((s.delete (text "tok") (some (text "b"))).get (text "tok") none).isOk = false ∧
    ¬ Scoped s (text "tok") (text "b") := by
  have hget : (sampleState.get (text "tok") (some (text "b"))).toOption.map Session.tenantId =
      some (text "a") := by decide +kernel
  refine ⟨sampleState, sampleState_reachable, hget, by decide +kernel, fun hs => ?_⟩
  cases hx : sampleState.get (text "tok") (some (text "b")) with
  | error e =>
    rw [hx] at hget
    cases hget
  | ok x =>
    rw [hx] at hget
    have htenant : x.tenantId = text "a" := Option.some.inj hget
    rw [hs.get_own x hx] at htenant
    exact absurd htenant (by decide)

end Omkit.Sessions
