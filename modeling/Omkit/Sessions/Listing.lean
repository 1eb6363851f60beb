import Omkit.Sessions.Latest

/-!
# What `list` returns

Postgres answers a `list` with one query.  Redis goes through the keys that a scan returns and looks
each of them up.  A scan returns every key that is there throughout, but it may return a key twice,
and the loop then keeps the session twice.
-/

namespace Omkit.Sessions

open Lib

variable {F : Type} [JsonRuntime F] [PyNumbers F]

/-! ## The scan -/

namespace Redis

/-- The pattern of the scan, as the client encodes it. -/
def pattern (r : Redis) : Option Bytes := encode (r.keyPrefix ++ text "*")

/-- The server finds that the key matches the pattern. -/
def Matches (r : Redis) (glob : Bytes → Bytes → Bool) (key : Bytes) : Prop :=
  ∃ pattern, r.pattern = some pattern ∧ glob pattern key = true

/-- What a scan may return while nothing is written: keys of the database that match, among them
every one that has not expired, in any order and any number of times. -/
structure Scans (r : Redis) (glob : Bytes → Bytes → Bool) (now : Aware) (scan : List Bytes) :
    Prop where
  present : ∀ key ∈ scan, (r.db.get? key).isSome ∧ r.Matches glob key
  all : ∀ key, (r.live now key).isSome → r.Matches glob key → key ∈ scan

end Redis

variable [Postgres F]

/-- `list`, now, for the keys that the scan returns. -/
def State.list (s : State F) (tenantId : PyStr) (scan : List Bytes) :
    Except SessionError (List (Session F)) :=
  match s.store with
  | .postgres rows => rows.list s.now tenantId
  | .redis r =>
    if r.pattern.isSome then r.list s.now tenantId scan else .error (.std .unicodeEncodeError)

/-! ## What it should return -/

section Spec

omit [JsonRuntime F] [PyNumbers F]

omit [Postgres F] in
/-- The session of the `put` has not expired. -/
def Put.Unexpired (p : Put F) (now : Aware) : Prop :=
  ∃ e, p.session.expiresAt.instant = some e ∧ now.micros < e

/-- The session of the `put` is the tenant's: in Postgres, where a tenant is a UUID, its text denotes
the same one. -/
def Put.IsOf (p : Put F) (st : Store F) (t : PyStr) : Prop :=
  match st with
  | .postgres _ => ∃ u, Postgres.uuidText F t = some u ∧
      Postgres.uuidText F p.session.tenantId = some u
  | .redis _ => p.session.tenantId = t

/-- The token has an unexpired session of the tenant. -/
def Expected (s : State F) (t token : PyStr) : Prop :=
  ∃ p, s.puts.get? token = some p ∧ p.IsOf s.store t ∧ p.Unexpired s.now

end Spec

/-- The sessions are those of the tenant that have not expired, each of them once and as `get`
returns it. -/
structure Exact (s : State F) (t : PyStr) (l : List (Session F)) : Prop where
  nodup : (l.map Session.token).Nodup
  mem_iff : ∀ token, token ∈ l.map Session.token ↔ Expected s t token
  get_eq : ∀ x ∈ l, s.get x.token none = .ok x

/-- `list` returns exactly the unexpired sessions of the tenant. -/
def ListsExactly (s : State F) (t : PyStr) (scan : List Bytes) : Prop :=
  ∃ l, s.list t scan = .ok l ∧ Exact s t l

/-! ## When it does -/

section Condition

omit [PyNumbers F]

omit [JsonRuntime F] [Postgres F] in
/-- Redis still has the session of the `put`, and it reads back as one of the tenant `t`. -/
def Put.Kept (p : Put F) (now : Aware) (t : PyStr) : Prop :=
  now.micros < p.deadline ∧ readStr true p.session.tenantId = t

instance (p : Put F) (now : Aware) (t : PyStr) : Decidable (p.Kept now t) :=
  inferInstanceAs (Decidable (_ ∧ _))

omit [JsonRuntime F] [Postgres F] in
/-- The scan of Redis serves the tenant `t`: it returns no key of a session of the tenant twice, its
pattern matches their keys, and the sessions of the tenant that Redis still has are those that have
not expired. -/
structure Redis.Serves (r : Redis) (glob : Bytes → Bytes → Bool) (now : Aware)
    (puts : Dict PyStr (Put F)) (t : PyStr) (scan : List Bytes) : Prop where
  pattern : r.pattern.isSome
  once : ∀ token p key, puts.get? token = some p → r.key token = some key → p.Kept now t →
    scan.count key ≤ 1
  complete : ∀ token p key, puts.get? token = some p → r.key token = some key →
    p.session.tenantId = t → p.Unexpired now → p.Kept now t ∧ r.Matches glob key
  sound : ∀ token p key, puts.get? token = some p → r.key token = some key →
    p.Kept now t → r.Matches glob key → p.session.tenantId = t ∧ p.Unexpired now

omit [JsonRuntime F] in
/-- The tenant is a UUID, and it has the rows whose latest `put` is for it. -/
def Rows.Serves (rows : Rows F) (now : Aware) (puts : Dict PyStr (Put F)) (t : PyStr) : Prop :=
  ∃ u, Postgres.uuidText F t = some u ∧ ∀ token r p, rows.get? token = some r →
    puts.get? token = some p → now.micros < r.expiresAt.micros →
      (r.tenantId = u ↔ Postgres.uuidText F p.session.tenantId = some u)

omit [JsonRuntime F] in
/-- The store can list the sessions of the tenant from what the scan returns. -/
def Listable (s : State F) (glob : Bytes → Bytes → Bool) (t : PyStr) (scan : List Bytes) : Prop :=
  match s.store with
  | .postgres rows => rows.Serves s.now s.puts t
  | .redis r => r.Serves glob s.now s.puts t scan

end Condition

/-! ## The keys of Redis -/

section Scan

variable {r : Redis} {puts : Dict PyStr (Put F)} {now : Aware} {t token : PyStr} {key : Bytes}
  {scan : List Bytes} {tokens : List PyStr}

/-- The session of the token, if the loop keeps it. -/
def listed (puts : Dict PyStr (Put F)) (now : Aware) (t token : PyStr) : Option (Session F) :=
  (puts.get? token).bind fun p => if p.Kept now t then some p.session.readBack else none

omit [JsonRuntime F] [PyNumbers F] [Postgres F] in
lemma listed_eq_some {x : Session F} : listed puts now t token = some x ↔
    ∃ p, puts.get? token = some p ∧ p.Kept now t ∧ x = p.session.readBack := by
  simp only [listed, Option.bind_eq_some_iff, Option.ite_none_right_eq_some, Option.some.injEq,
    eq_comm (a := x)]

omit [JsonRuntime F] [PyNumbers F] [Postgres F] in
lemma listed_eq_none (h : ∀ p, puts.get? token = some p → ¬ p.Kept now t) :
    listed puts now t token = none := by
  rw [Option.eq_none_iff_forall_ne_some]
  intro x hx
  obtain ⟨p, hp, hkept, -⟩ := listed_eq_some.mp hx
  exact h p hp hkept

lemma removePrefix_append (r : Redis) (token : PyStr) :
    r.removePrefix (r.keyPrefix ++ token) = token := by
  simp [Redis.removePrefix]

omit [PyNumbers F] [Postgres F] in
/-- What a lookup finds under a key that can be encoded. -/
lemma get_of_key (now : Aware) (h : Holds r puts) (hkey : r.key token = some key) :
    (∃ p, puts.get? token = some p ∧ now.micros < p.deadline ∧
      r.get now token none = .ok p.session.readBack) ∨
    ((∀ p, puts.get? token = some p → ¬ now.micros < p.deadline) ∧
      r.get (F := F) now token none = .error (.notFound token)) := by
  by_cases hp : ∃ p, puts.get? token = some p ∧ now.micros < p.deadline
  · obtain ⟨p, hp, hnow⟩ := hp
    exact Or.inl ⟨p, hp, hnow, (get_eq_ok h none).mpr ⟨p, hp, hnow, rfl⟩⟩
  · refine Or.inr ⟨fun p hp' hnow => hp ⟨p, hp', hnow⟩, ?_⟩
    have hlive : r.live now key = none := by
      rw [Option.eq_none_iff_forall_ne_some]
      intro value hvalue
      simp only [Redis.live, Option.map_eq_some_iff, Option.filter_eq_some_iff,
        decide_eq_true_eq] at hvalue
      obtain ⟨e, ⟨he, hnow⟩, -⟩ := hvalue
      obtain ⟨p, hp'⟩ := h.known token key e hkey he
      obtain ⟨key', e', hkey', he', hs⟩ := h.stored token p hp'
      obtain rfl : key = key' := Option.some.inj (hkey.symm.trans hkey')
      obtain rfl : e = e' := Option.some.inj (he.symm.trans he')
      exact hp ⟨p, hp', hs.deadline ▸ hnow⟩
    rw [Redis.get, hkey]
    dsimp only
    rw [hlive]

omit [PyNumbers F] [Postgres F] in
/-- The loop over the keys of the tokens. -/
lemma list_eq (h : Holds r puts)
    (htokens : List.Forall₂ (fun key token => r.key token = some key) scan tokens) :
    r.list now t scan = .ok (tokens.filterMap (listed puts now t)) := by
  induction htokens with
  | nil => rfl
  | @cons key token scan tokens hkey _ ih =>
    have hdecode : decode key = some (r.keyPrefix ++ token) := decode_encode hkey
    rw [Redis.list, hdecode]
    dsimp only
    rw [removePrefix_append]
    rcases get_of_key now h hkey with ⟨p, hp, hnow, hget⟩ | ⟨hgone, hget⟩
    · simp only [hget, ih, bind, Except.bind, pure, Except.pure]
      by_cases ht : readStr true p.session.tenantId = t
      · have hlisted : listed puts now t token = some p.session.readBack :=
          listed_eq_some.mpr ⟨p, hp, ⟨hnow, ht⟩, rfl⟩
        rw [List.filterMap_cons_some hlisted]
        exact congrArg Except.ok (if_pos ht)
      · have hlisted : listed puts now t token = none := by
          refine listed_eq_none fun p' hp' hkept => ?_
          obtain rfl : p = p' := Option.some.inj (hp.symm.trans hp')
          exact ht hkept.2
        rw [List.filterMap_cons_none hlisted]
        exact congrArg Except.ok (if_neg ht)
    · simp only [hget, ih]
      have hlisted : listed puts now t token = none :=
        listed_eq_none fun p hp hkept => hgone p hp hkept.1
      rw [List.filterMap_cons_none hlisted]

omit [JsonRuntime F] [PyNumbers F] [Postgres F] in
lemma exists_tokens (h : ∀ key ∈ scan, ∃ token, r.key token = some key) :
    ∃ tokens, List.Forall₂ (fun key token => r.key token = some key) scan tokens := by
  induction scan with
  | nil => exact ⟨[], .nil⟩
  | cons key scan ih =>
    obtain ⟨token, htoken⟩ := h key List.mem_cons_self
    obtain ⟨tokens, htokens⟩ := ih fun k hk => h k (List.mem_cons_of_mem _ hk)
    exact ⟨token :: tokens, .cons htoken htokens⟩

/-- A token occurs as often as its key. -/
lemma count_tokens (htokens : List.Forall₂ (fun key token => r.key token = some key) scan tokens)
    (hkey : r.key token = some key) : tokens.count token = scan.count key := by
  induction htokens with
  | nil => rfl
  | @cons k tok scan tokens hk _ ih =>
    have hiff : tok = token ↔ k = key := by
      constructor
      · rintro rfl
        exact Option.some.inj (hk.symm.trans hkey)
      · rintro rfl
        exact Redis.key_inj hk hkey
    simp only [List.count_cons, ih, beq_iff_eq, hiff]

omit [JsonRuntime F] [PyNumbers F] [Postgres F] in
/-- The tokens of the sessions that the loop keeps. -/
lemma map_token_listed (hback : ∀ token x, listed puts now t token = some x → x.token = token)
    (tokens : List PyStr) : (tokens.filterMap (listed puts now t)).map Session.token =
      tokens.filter fun token => (listed puts now t token).isSome := by
  induction tokens with
  | nil => rfl
  | cons token tokens ih =>
    cases hx : listed puts now t token with
    | none => simp [hx, ih]
    | some x => simp [hx, ih, hback token x hx]

end Scan

/-- No element that satisfies `P` occurs twice. -/
lemma nodup_filter_iff {α : Type} [BEq α] [LawfulBEq α] {P : α → Bool} {l : List α} :
    (l.filter P).Nodup ↔ ∀ a, P a = true → l.count a ≤ 1 := by
  rw [List.nodup_iff_count_le_one]
  refine forall_congr' fun a => ?_
  by_cases ha : P a = true
  · simp only [List.count_filter ha, ha, true_imp_iff]
  · have hzero : (l.filter P).count a = 0 :=
      List.count_eq_zero.mpr fun hmem => ha (List.mem_filter.mp hmem).2
    rw [hzero]
    exact iff_of_true (Nat.zero_le 1) fun h => absurd h ha

/-! ## Redis lists exactly -/

section Redis

variable {s : State F} {r : Redis} {glob : Bytes → Bytes → Bool} {t : PyStr} {scan : List Bytes}

omit [PyNumbers F] [Postgres F] in
lemma redis_put_eq_ok {r' : Redis} {now sent : Aware} {x : Session F}
    (h : r.put now sent x = .ok r') :
    ∃ key e, r.key x.token = some key ∧ r' = { r with db := r.db.set key e } := by
  unfold Redis.put at h
  split at h
  · cases h
  · split at h
    · cases h
    · split at h
      · next key value hkey _ => exact ⟨key, _, hkey, (Except.ok.inj h).symm⟩
      · cases h

lemma redis_delete_eq_ok {r' : Redis} {token : PyStr} {tenantId : Option PyStr}
    (h : r.delete token tenantId = .ok r') : ∃ key, r' = { r with db := r.db.pop key } := by
  unfold Redis.delete at h
  split at h
  · cases h
  · next key _ => exact ⟨key, (Except.ok.inj h).symm⟩

omit [JsonRuntime F] [PyNumbers F] in
/-- A `delete` adds no key. -/
lemma delete_state_redis {r' : Redis} {token : PyStr} {tenantId : Option PyStr}
    (h : (s.delete token tenantId).store = .redis r') : ∃ r, s.store = .redis r ∧
      (r' = r ∨ ∃ key, r' = { r with db := r.db.pop key }) := by
  cases hdel : s.store.delete token tenantId with
  | error e =>
    rw [State.delete_of_error hdel] at h
    exact ⟨r', h, Or.inl rfl⟩
  | ok st =>
    rw [State.delete_of_ok hdel] at h
    obtain rfl : st = .redis r' := h
    obtain ⟨r, hst, hdel⟩ := delete_redis hdel
    exact ⟨r, hst, Or.inr (redis_delete_eq_ok hdel)⟩

omit [PyNumbers F] in
/-- Every key of the database is the key of a token. -/
lemma keyed_of_reachable (hs : machine.Reachable s) (hst : s.store = .redis r) {key : Bytes}
    {e : RedisEntry} (he : r.db.get? key = some e) : ∃ token, r.key token = some key := by
  refine Machine.Reachable.invariant (M := machine)
    (I := fun s : State F => ∀ r, s.store = .redis r → ∀ key e, r.db.get? key = some e →
      ∃ token, r.key token = some key) ?_ ?_ hs r hst key e he
  · rintro s ⟨-, hstore⟩ r hr key e he
    rcases hstore with h | ⟨p, d, h⟩
    · rw [h] at hr
      cases hr
    · obtain rfl := Store.redis.inj (h.symm.trans hr)
      simp at he
  · intro s op s' ih hstep r' hst' key e he
    cases move_of_step hstep with
    | put hle h =>
      obtain rfl : _ = Store.redis r' := hst'
      obtain ⟨r, hst, hput⟩ := put_redis h
      obtain ⟨key', e', hkey', rfl⟩ := redis_put_eq_ok hput
      show ∃ token, r.key token = some key
      rw [Dict.get?_set] at he
      split_ifs at he with hkey
      · exact ⟨_, hkey ▸ hkey'⟩
      · exact ih r hst key e he
    | refused => exact ih r' hst' key e he
    | delete =>
      obtain ⟨r, hst, rfl | ⟨key', rfl⟩⟩ := delete_state_redis hst'
      · exact ih r' hst key e he
      · exact ih r hst key e (Dict.get?_pop_eq_some.mp he).2
    | tick => exact ih r' hst' key e he

omit [PyNumbers F] [Postgres F] in
/-- The scan returns the key of a session that is still there exactly if it matches. -/
lemma mem_scan_iff {puts : Dict PyStr (Put F)} {now : Aware} (h : Holds r puts)
    (hscan : r.Scans glob now scan) {token : PyStr} {p : Put F} {key : Bytes}
    (hp : puts.get? token = some p) (hkey : r.key token = some key)
    (hnow : now.micros < p.deadline) : key ∈ scan ↔ r.Matches glob key := by
  constructor
  · intro hmem
    exact (hscan.present key hmem).2
  · intro hmatch
    obtain ⟨key', e, hkey', he, hs⟩ := h.stored token p hp
    obtain rfl : key = key' := Option.some.inj (hkey.symm.trans hkey')
    refine hscan.all key ?_ hmatch
    simp [Redis.live, he, Option.filter, hs.deadline, hnow]

omit [PyNumbers F] in
/-- The result of the loop: the tokens it lists, and what multiplicity they have. -/
lemma list_spec (hs : machine.Reachable s) (hst : s.store = .redis r)
    (hscan : r.Scans glob s.now scan) : ∃ l : List (Session F), r.list s.now t scan = .ok l ∧
      (∀ x ∈ l, r.get s.now x.token none = .ok x) ∧
      ((l.map Session.token).Nodup ↔ ∀ token p key, s.puts.get? token = some p →
        r.key token = some key → p.Kept s.now t → scan.count key ≤ 1) ∧
      ∀ token, token ∈ l.map Session.token ↔ ∃ p key, s.puts.get? token = some p ∧
        r.key token = some key ∧ p.Kept s.now t ∧ r.Matches glob key := by
  have hholds := holds_of_reachable hs hst
  have htok : ∀ token x, listed s.puts s.now t token = some x → x.token = token := by
    intro token x hx
    obtain ⟨p, hp, -, rfl⟩ := listed_eq_some.mp hx
    exact hholds.token_readBack hp (put_of_reachable hs hp).1
  obtain ⟨tokens, htokens⟩ : ∃ tokens,
      List.Forall₂ (fun key token => r.key token = some key) scan tokens := by
    refine exists_tokens fun key hkey => ?_
    obtain ⟨e, he⟩ := Option.isSome_iff_exists.mp (hscan.present key hkey).1
    exact keyed_of_reachable hs hst he
  have hkept : ∀ token, (listed s.puts s.now t token).isSome = true ↔
      ∃ p key, s.puts.get? token = some p ∧ r.key token = some key ∧ p.Kept s.now t := by
    intro token
    rw [Option.isSome_iff_exists]
    constructor
    · rintro ⟨x, hx⟩
      obtain ⟨p, hp, hk, -⟩ := listed_eq_some.mp hx
      obtain ⟨key, -, hkey, -⟩ := hholds.stored token p hp
      exact ⟨p, key, hp, hkey, hk⟩
    · rintro ⟨p, -, hp, -, hk⟩
      exact ⟨_, listed_eq_some.mpr ⟨p, hp, hk, rfl⟩⟩
  refine ⟨_, list_eq hholds htokens, ?_, ?_, ?_⟩
  · intro x hx
    obtain ⟨token, -, hx⟩ := List.mem_filterMap.mp hx
    obtain ⟨p, hp, hk, hback⟩ := listed_eq_some.mp hx
    rw [htok token x hx]
    exact (get_eq_ok hholds none).mpr ⟨p, hp, hk.1, hback⟩
  · rw [map_token_listed htok, nodup_filter_iff]
    constructor
    · intro h token p key hp hkey hk
      rw [← count_tokens htokens hkey]
      exact h token ((hkept token).mpr ⟨p, key, hp, hkey, hk⟩)
    · intro h token hlisted
      obtain ⟨p, key, hp, hkey, hk⟩ := (hkept token).mp hlisted
      rw [count_tokens htokens hkey]
      exact h token p key hp hkey hk
  · intro token
    rw [map_token_listed htok, List.mem_filter, hkept]
    constructor
    · rintro ⟨hmem, p, key, hp, hkey, hk⟩
      refine ⟨p, key, hp, hkey, hk, (mem_scan_iff hholds hscan hp hkey hk.1).mp ?_⟩
      rw [← List.count_pos_iff, ← count_tokens htokens hkey]
      exact List.count_pos_iff.mpr hmem
    · rintro ⟨p, key, hp, hkey, hk, hmatch⟩
      refine ⟨?_, p, key, hp, hkey, hk⟩
      rw [← List.count_pos_iff, count_tokens htokens hkey]
      exact List.count_pos_iff.mpr ((mem_scan_iff hholds hscan hp hkey hk.1).mpr hmatch)

/-- Redis lists the sessions of a tenant exactly if the scan serves it. -/
lemma listsExactly_redis_iff (hs : machine.Reachable s) (hst : s.store = .redis r)
    (hscan : r.Scans glob s.now scan) :
    ListsExactly s t scan ↔ r.Serves glob s.now s.puts t scan := by
  have hholds := holds_of_reachable hs hst
  obtain ⟨l, hl, hget, hnodup, hmem⟩ := list_spec (t := t) hs hst hscan
  have hlist : s.list t scan =
      if r.pattern.isSome then .ok l else .error (.std .unicodeEncodeError) := by
    rw [State.list, hst]
    dsimp only
    rw [hl]
  have hexp : ∀ token, Expected s t token ↔ ∃ p key, s.puts.get? token = some p ∧
      r.key token = some key ∧ p.session.tenantId = t ∧ p.Unexpired s.now := by
    intro token
    simp only [Expected, hst, Put.IsOf]
    constructor
    · rintro ⟨p, hp, ht, hlive⟩
      obtain ⟨key, -, hkey, -⟩ := hholds.stored token p hp
      exact ⟨p, key, hp, hkey, ht, hlive⟩
    · rintro ⟨p, -, hp, -, ht, hlive⟩
      exact ⟨p, hp, ht, hlive⟩
  have hunique : ∀ {token : PyStr} {p p' : Put F}, s.puts.get? token = some p →
      s.puts.get? token = some p' → p = p' := fun h h' => Option.some.inj (h.symm.trans h')
  constructor
  · rintro ⟨l', hl', hexact⟩
    have hpattern : r.pattern.isSome = true := by
      by_contra hno
      rw [hlist, if_neg hno] at hl'
      cases hl'
    rw [hlist, if_pos hpattern] at hl'
    obtain rfl := Except.ok.inj hl'
    refine ⟨hpattern, hnodup.mp hexact.nodup, ?_, ?_⟩
    · intro token p key hp hkey ht hlive
      have hin := (hexact.mem_iff token).mpr ((hexp token).mpr ⟨p, key, hp, hkey, ht, hlive⟩)
      obtain ⟨p', key', hp', hkey', hk, hmatch⟩ := (hmem token).mp hin
      obtain rfl := hunique hp hp'
      obtain rfl := Option.some.inj (hkey.symm.trans hkey')
      exact ⟨hk, hmatch⟩
    · intro token p key hp hkey hk hmatch
      have hin := (hexact.mem_iff token).mp ((hmem token).mpr ⟨p, key, hp, hkey, hk, hmatch⟩)
      obtain ⟨p', -, hp', -, ht, hlive⟩ := (hexp token).mp hin
      obtain rfl := hunique hp hp'
      exact ⟨ht, hlive⟩
  · intro h
    refine ⟨l, by rw [hlist, if_pos h.pattern], hnodup.mpr h.once, fun token => ?_, ?_⟩
    · rw [hmem, hexp]
      constructor
      · rintro ⟨p, key, hp, hkey, hk, hmatch⟩
        exact ⟨p, key, hp, hkey, h.sound token p key hp hkey hk hmatch⟩
      · rintro ⟨p, key, hp, hkey, ht, hlive⟩
        exact ⟨p, key, hp, hkey, h.complete token p key hp hkey ht hlive⟩
    · intro x hx
      rw [State.get, hst]
      exact hget x hx

end Redis

/-! ## Postgres lists exactly -/

section Postgres

variable {s : State F} {rows rows' : Rows F} {t : PyStr}

/-- A loop that succeeds on every element, and what one part of its results is. -/
lemma mapM_eq_ok {ε α β γ : Type} {f : α → Except ε β} {g : β → γ} {h : α → γ} {l : List α}
    (hl : ∀ a ∈ l, ∃ b, f a = .ok b ∧ g b = h a) :
    ∃ m, l.mapM f = .ok m ∧ m.map g = l.map h := by
  induction l with
  | nil => exact ⟨[], rfl, rfl⟩
  | cons a l ih =>
    obtain ⟨b, hb, hgb⟩ := hl a List.mem_cons_self
    obtain ⟨m, hm, hgm⟩ := ih fun x hx => hl x (List.mem_cons_of_mem _ hx)
    refine ⟨b :: m, ?_, ?_⟩
    · rw [List.mapM_cons, hb, hm]
      rfl
    · rw [List.map_cons, List.map_cons, hgb, hgm]

omit [JsonRuntime F] [PyNumbers F] in
/-- A `delete` takes away the row and the put of its token together. -/
lemma delete_rows_of_puts (hst : s.store = .postgres rows) {token : PyStr}
    {tenantId : Option PyStr} (hst' : (s.delete token tenantId).store = .postgres rows')
    {k : PyStr} {r : Row F} (hr : rows.get? k = some r)
    (hp : ((s.delete token tenantId).puts.get? k).isSome) : (rows'.get? k).isSome := by
  cases hdel : s.store.delete token tenantId with
  | error e =>
    rw [State.delete_of_error hdel] at hst'
    obtain rfl := Store.postgres.inj (hst.symm.trans hst')
    rw [hr]
    rfl
  | ok st =>
    rw [State.delete_of_ok hdel] at hst' hp
    obtain rfl : st = .postgres rows' := hst'
    rw [hst] at hdel
    obtain ⟨rows₁, hrows, heq⟩ := map_eq_ok.mp hdel
    obtain rfl := Store.postgres.inj heq
    by_cases hk : k = token
    · -- the token still has its put, so it still has a row
      subst hk
      by_contra hnone
      have hhas : (Store.postgres rows₁).has k = false := by simpa [Store.has] using hnone
      simp only [hhas, Bool.false_eq_true, if_false, Dict.get?_pop_self] at hp
      cases hp
    · rcases rows_delete_eq_ok hrows with rfl | rfl
      · rw [Dict.get?_pop_ne _ hk, hr]
        rfl
      · rw [hr]
        rfl

omit [PyNumbers F] in
/-- Each put that is kept has its row. -/
lemma row_of_reachable (hs : machine.Reachable s) (hst : s.store = .postgres rows) {token : PyStr}
    {p : Put F} (hp : s.puts.get? token = some p) : ∃ r, rows.get? token = some r := by
  refine Machine.Reachable.invariant (M := machine)
    (I := fun s : State F => ∀ rows, s.store = .postgres rows → ∀ token p,
      s.puts.get? token = some p → ∃ r, rows.get? token = some r) ?_ ?_ hs rows hst token p hp
  · rintro s ⟨hputs, -⟩ rows _ token p hp
    rw [hputs] at hp
    simp at hp
  · intro s op s' ih hstep rows' hst' token p hp
    cases move_of_step hstep with
    | put hle h =>
      obtain rfl : _ = Store.postgres rows' := hst'
      obtain ⟨rows, hst, hput⟩ := put_postgres h
      obtain ⟨body, u, col, e, -, -, -, -, -, rfl⟩ := rows_put_eq_ok hput
      rw [get?_upsert]
      split_ifs with htoken
      · exact ⟨_, rfl⟩
      · rw [Dict.get?_set_ne _ _ htoken] at hp
        exact ih rows hst token p hp
    | refused => exact ih rows' hst' token p hp
    | delete =>
      obtain ⟨rows, hst⟩ := delete_store_postgres hst'
      obtain ⟨r, hr⟩ := ih rows hst token p (get?_delete_puts hp)
      exact Option.isSome_iff_exists.mp
        (delete_rows_of_puts hst hst' hr (Option.isSome_iff_exists.mpr ⟨p, hp⟩))
    | tick => exact ih rows' hst' token p hp

/-- A row that has not expired can be handed out. -/
lemma session_of_row (hjsonb : JsonbReadable F) (hrec : Recorded rows s.puts) {token : PyStr}
    {r : Row F} (hr : rows.get? token = some r) :
    ∃ x, r.session = .ok x ∧ x.token = r.token := by
  obtain ⟨-, -, p, -, hwrote⟩ := hrec token r hr
  obtain ⟨body, hbody, hcol⟩ := hwrote.payload
  obtain ⟨v, hv⟩ := hjsonb _ body r.payload hbody hcol
  exact ⟨_, row_session_eq_ok.mpr ⟨v, hv, rfl⟩, rfl⟩

/-- The result of the query: the tokens of the live rows of the tenant, each of them once. -/
lemma rows_list_spec (hjsonb : JsonbReadable F) (hrec : Recorded rows s.puts) {u : PyStr}
    (hu : Postgres.uuidText F t = some u) : ∃ l, rows.list s.now t = .ok l ∧
      (∀ x ∈ l, rows.get s.now x.token none = .ok x) ∧ (l.map Session.token).Nodup ∧
      ∀ token, token ∈ l.map Session.token ↔ ∃ r, rows.get? token = some r ∧ r.tenantId = u ∧
        s.now.micros < r.expiresAt.micros := by
  let found := (rows.items.map Prod.snd).filter fun r =>
    r.tenantId = u ∧ s.now.micros < r.expiresAt.micros
  let sorted := found.insertionSort fun r r' => r'.createdAt.micros ≤ r.createdAt.micros
  have hperm : sorted.Perm found := List.perm_insertionSort _ _
  have hfound : ∀ r, r ∈ found ↔ ∃ token, rows.get? token = some r ∧ r.tenantId = u ∧
      s.now.micros < r.expiresAt.micros := by
    intro r
    rw [List.mem_filter, List.mem_map]
    constructor
    · rintro ⟨⟨⟨token, r'⟩, hmem, rfl⟩, hkeep⟩
      exact ⟨token, Dict.get?_eq_some.mpr hmem, of_decide_eq_true hkeep⟩
    · rintro ⟨token, hr, hkeep⟩
      exact ⟨⟨⟨token, r⟩, Dict.get?_eq_some.mp hr, rfl⟩, decide_eq_true hkeep⟩
  obtain ⟨l, hl, hmap⟩ := mapM_eq_ok (f := Row.session) (g := Session.token) (h := Row.token)
    (l := sorted) fun r hr => by
      obtain ⟨token, hr, -⟩ := (hfound r).mp (hperm.mem_iff.mp hr)
      exact session_of_row hjsonb hrec hr
  have hlist : rows.list s.now t = .ok l := by
    rw [Rows.list, hu]
    exact hl
  refine ⟨l, hlist, ?_, ?_, ?_⟩
  · intro x hx
    obtain ⟨r, hr, hsession⟩ := exists_of_mem_mapM hl hx
    obtain ⟨token, hr, -, hlive⟩ := (hfound r).mp (hperm.mem_iff.mp hr)
    obtain ⟨htoken, hparam, -⟩ := hrec token r hr
    have hx : x.token = token := by
      obtain ⟨v, -, rfl⟩ := row_session_eq_ok.mp hsession
      exact htoken
    rw [hx]
    exact rows_get_of_live hparam hr hlive hsession
  · -- the tokens are some of the keys of the table
    have hkeys : (rows.items.map Prod.snd).map Row.token = rows.keys := by
      rw [List.map_map]
      refine List.map_congr_left fun q hq => ?_
      exact (hrec q.1 q.2 (Dict.get?_eq_some.mpr hq)).1
    have hsub : (found.map Row.token).Sublist rows.keys := by
      rw [← hkeys]
      exact List.filter_sublist.map Row.token
    rw [hmap]
    exact (hperm.map Row.token).nodup_iff.mpr (hsub.nodup rows.nodup_keys)
  · intro token
    rw [hmap, List.mem_map]
    constructor
    · rintro ⟨r, hr, rfl⟩
      obtain ⟨token, hr, hkeep⟩ := (hfound r).mp (hperm.mem_iff.mp hr)
      obtain ⟨rfl, -⟩ := hrec token r hr
      exact ⟨r, hr, hkeep⟩
    · rintro ⟨r, hr, hkeep⟩
      exact ⟨r, hperm.mem_iff.mpr ((hfound r).mpr ⟨token, hr, hkeep⟩), (hrec token r hr).1⟩

omit [PyNumbers F] in
/-- The sessions that Postgres should list, by their rows. -/
lemma expected_postgres (hs : machine.Reachable s) (hst : s.store = .postgres rows) {u : PyStr}
    (hu : Postgres.uuidText F t = some u) (token : PyStr) : Expected s t token ↔
      ∃ r p, rows.get? token = some r ∧ s.puts.get? token = some p ∧
        Postgres.uuidText F p.session.tenantId = some u ∧ s.now.micros < r.expiresAt.micros := by
  have hrec := recorded_of_reachable hs hst
  -- the server keeps the instant of the expiry
  have hlive : ∀ r p, rows.get? token = some r → s.puts.get? token = some p →
      (p.Unexpired s.now ↔ s.now.micros < r.expiresAt.micros) := by
    intro r p hr hp
    obtain ⟨-, -, p', hp', hwrote⟩ := hrec token r hr
    obtain rfl : p = p' := Option.some.inj (hp.symm.trans hp')
    have he := Postgres.timestamptz_instant hwrote.expiresAt
    simp only [Put.Unexpired, he, Option.some.injEq, exists_eq_left']
  simp only [Expected, hst, Put.IsOf, hu, Option.some.injEq, exists_eq_left']
  constructor
  · rintro ⟨p, hp, ht, hunexp⟩
    obtain ⟨r, hr⟩ := row_of_reachable hs hst hp
    exact ⟨r, p, hr, hp, ht, (hlive r p hr hp).mp hunexp⟩
  · rintro ⟨r, p, hr, hp, ht, hnow⟩
    exact ⟨p, hp, ht, (hlive r p hr hp).mpr hnow⟩

/-- Postgres lists the sessions of a tenant exactly if the live rows of the tenant are those whose
latest `put` is for it. -/
lemma listsExactly_postgres_iff (hjsonb : JsonbReadable F) (hs : machine.Reachable s)
    (hst : s.store = .postgres rows) (scan : List Bytes) :
    ListsExactly s t scan ↔ rows.Serves s.now s.puts t := by
  have hrec := recorded_of_reachable hs hst
  have hlist : s.list t scan = rows.list s.now t := by
    rw [State.list, hst]
  cases hu : Postgres.uuidText F t with
  | none =>
    refine iff_of_false ?_ ?_
    · rintro ⟨l, hl, -⟩
      rw [hlist, Rows.list, hu] at hl
      cases hl
    · rintro ⟨u, hu', -⟩
      rw [hu] at hu'
      cases hu'
  | some u =>
    obtain ⟨l, hl, hget, hnodup, hmem⟩ := rows_list_spec hjsonb hrec hu
    have hexp := expected_postgres hs hst hu
    constructor
    · rintro ⟨l', hl', hexact⟩
      rw [hlist, hl] at hl'
      obtain rfl := Except.ok.inj hl'
      refine ⟨u, hu, fun token r p hr hp hlive => ?_⟩
      have hiff := ((hmem token).symm.trans (hexact.mem_iff token)).trans (hexp token)
      constructor
      · intro ht
        obtain ⟨-, p', -, hp', htenant, -⟩ := hiff.mp ⟨r, hr, ht, hlive⟩
        obtain rfl : p = p' := Option.some.inj (hp.symm.trans hp')
        exact htenant
      · intro htenant
        obtain ⟨r', hr', ht, -⟩ := hiff.mpr ⟨r, p, hr, hp, htenant, hlive⟩
        obtain rfl : r = r' := Option.some.inj (hr.symm.trans hr')
        exact ht
    · rintro ⟨u', hu', hrows⟩
      obtain rfl : u = u' := Option.some.inj (hu.symm.trans hu')
      refine ⟨l, hlist.trans hl, hnodup, fun token => ?_, fun x hx => ?_⟩
      · rw [hmem, hexp]
        constructor
        · rintro ⟨r, hr, ht, hlive⟩
          obtain ⟨-, -, p, hp, -⟩ := hrec token r hr
          exact ⟨r, p, hr, hp, (hrows token r p hr hp hlive).mp ht, hlive⟩
        · rintro ⟨r, p, hr, hp, htenant, hlive⟩
          exact ⟨r, hr, (hrows token r p hr hp hlive).mpr htenant, hlive⟩
      · rw [State.get, hst]
        exact hget x hx

end Postgres

/-- **A store lists the unexpired sessions of a tenant, each of them once, exactly if it can list them
from what the scan returns.** -/
theorem listsExactly_iff (hjsonb : JsonbReadable F) {s : State F} (hs : machine.Reachable s)
    (glob : Bytes → Bytes → Bool) (t : PyStr) {scan : List Bytes}
    (hscan : ∀ r, s.store = .redis r → r.Scans glob s.now scan) :
    ListsExactly s t scan ↔ Listable s glob t scan := by
  unfold Listable
  cases hst : s.store with
  | postgres rows => exact listsExactly_postgres_iff hjsonb hs hst scan
  | redis r => exact listsExactly_redis_iff hs hst (hscan r hst)

/-! ## A key that is returned twice -/

/-- A pattern without special characters before its star, as the server matches it. -/
def prefixGlob (pattern key : Bytes) : Bool := pattern.dropLast.isPrefixOf key

/-- The key of the sample session. -/
def sampleKey : Bytes := (encode (text "omur:session:tok")).getD []

/-- The prefix and the keys of a Redis store. -/
def Store.prefixAndKeys : Store Empty → Option (PyStr × List Bytes)
  | .redis r => some (r.keyPrefix, r.db.keys)
  | .postgres _ => none

lemma sampleState_redis : ∃ r, sampleState.store = .redis r ∧
    r.keyPrefix = text "omur:session:" ∧ r.db.keys = [sampleKey] := by
  have h : sampleState.store.prefixAndKeys = some (text "omur:session:", [sampleKey]) := by
    decide +kernel
  cases hst : sampleState.store with
  | postgres rows =>
    rw [hst] at h
    cases h
  | redis r =>
    rw [hst] at h
    obtain ⟨hlead, hkeys⟩ := Prod.mk.inj (Option.some.inj h)
    exact ⟨r, rfl, hlead, hkeys⟩

lemma sampleKey_matches {r : Redis} (hlead : r.keyPrefix = text "omur:session:") :
    r.Matches prefixGlob sampleKey := by
  have hpattern : r.pattern = encode (text "omur:session:*") := by
    rw [Redis.pattern, hlead]
    rfl
  have hglob : (encode (text "omur:session:*")).any (prefixGlob · sampleKey) = true := by
    decide +kernel
  obtain ⟨pattern, hp, hmatch⟩ := (Option.any_eq_true _ _).mp hglob
  exact ⟨pattern, hpattern.trans hp, hmatch⟩

/-- The scan may return the key any number of times. -/
lemma sampleScans (n : ℕ) {r : Redis} (hst : sampleState.store = .redis r) :
    r.Scans prefixGlob sampleState.now (List.replicate (n + 1) sampleKey) := by
  obtain ⟨r', hst', hlead, hkeys⟩ := sampleState_redis
  obtain rfl := Store.redis.inj (hst.symm.trans hst')
  have hmem : ∀ key, (r.db.get? key).isSome ↔ key = sampleKey := by
    intro key
    rw [Option.isSome_iff_exists, ← Dict.mem_keys_iff_get?, hkeys, List.mem_singleton]
  constructor
  · intro key hkey
    obtain rfl := List.eq_of_mem_replicate hkey
    exact ⟨(hmem _).mpr rfl, sampleKey_matches hlead⟩
  · intro key hlive _
    have hdb : (r.db.get? key).isSome := by
      cases he : r.db.get? key with
      | none => simp [Redis.live, he] at hlive
      | some e => rfl
    obtain rfl := (hmem key).mp hdb
    exact List.mem_replicate.mpr ⟨by omega, rfl⟩

lemma samplePut {token : PyStr} {p : Put Empty} (hp : sampleState.puts.get? token = some p) :
    token = text "tok" ∧ p.session.tenantId = text "a" ∧
      p.Kept sampleState.now (text "a") ∧ p.Unexpired sampleState.now := by
  have hkeys : sampleState.puts.keys = [text "tok"] := by decide +kernel
  have htoken : token ∈ sampleState.puts.keys := Dict.mem_keys_iff_get?.mpr ⟨p, hp⟩
  rw [hkeys, List.mem_singleton] at htoken
  subst htoken
  have hall : (sampleState.puts.get? (text "tok")).all (fun p =>
      decide (p.session.tenantId = text "a") && decide (p.Kept sampleState.now (text "a")) &&
        p.session.expiresAt.instant.any fun e => decide (sampleState.now.micros < e)) = true := by
    decide +kernel
  rw [hp] at hall
  simp only [Option.all_some, Bool.and_eq_true, decide_eq_true_eq, Option.any_eq_true] at hall
  obtain ⟨⟨htenant, hkept⟩, e, he, hlt⟩ := hall
  exact ⟨rfl, htenant, hkept, e, he, hlt⟩

theorem single_scan_lists : ListsExactly sampleState (text "a") [sampleKey] := by
  obtain ⟨r, hst, hlead, -⟩ := sampleState_redis
  refine (listsExactly_iff jsonbReadable_empty sampleState_reachable prefixGlob (text "a")
    fun r' hst' => sampleScans 0 hst').mpr ?_
  have hkey : ∀ {token key}, token = text "tok" → r.key token = some key → key = sampleKey := by
    rintro _ key rfl hkey
    rw [Redis.key, hlead] at hkey
    have hencode : encode (text "omur:session:" ++ text "tok") = some sampleKey := by
      decide +kernel
    exact Option.some.inj (hkey.symm.trans hencode)
  rw [Listable, hst]
  constructor
  · obtain ⟨pattern, hpattern, -⟩ := sampleKey_matches hlead
    rw [hpattern]
    rfl
  · intro _ _ key _ _ _
    exact List.count_le_length
  · intro token p key hp hk _ _
    obtain ⟨htoken, -, hkept, -⟩ := samplePut hp
    obtain rfl := hkey htoken hk
    exact ⟨hkept, sampleKey_matches hlead⟩
  · intro token p key hp _ _ _
    obtain ⟨-, htenant, -, hlive⟩ := samplePut hp
    exact ⟨htenant, hlive⟩

/-- A scan that returns the key twice makes the session appear twice. -/
theorem repeated_key_lists_twice : ¬ ∀ (s : State Empty) (t : PyStr) (scan : List Bytes),
    machine.Reachable s → (∀ r, s.store = .redis r → r.Scans prefixGlob s.now scan) →
    ListsExactly s t scan := by
  intro h
  obtain ⟨l, hl, hexact⟩ := h sampleState (text "a") (List.replicate 2 sampleKey)
    sampleState_reachable fun r hst => sampleScans 1 hst
  have htwice : (sampleState.list (text "a") (List.replicate 2 sampleKey)).toOption.map
      (·.map Session.token) = some [text "tok", text "tok"] := by decide +kernel
  rw [hl] at htwice
  have htokens : l.map Session.token = [text "tok", text "tok"] := Option.some.inj htwice
  have hnodup := hexact.nodup
  rw [htokens] at hnodup
  exact absurd hnodup (by decide)

end Omkit.Sessions
