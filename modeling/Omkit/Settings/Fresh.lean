import Omkit.Settings.Polling

/-!
# What a poll leaves in the cache

A poll asks for the rows beyond the watermark, so it relies on every row up to the watermark being
in the cache already.  After a start that has loaded the table this holds as long as transactions
commit in the order of their start times, as far as the watermark can tell.
-/

namespace Omkit.Settings

open Lib

variable {F : Type} [JsonRuntime F]

/-- The cache holds the value of a row. -/
def Cached (cache : Dict PyStr (Json F)) (k : PyStr) (r : SettingRow F) : Prop :=
  ∃ v, decodeValue r.value = .ok v ∧ cache.get? k = some v

/-- After a successful poll, the cache holds the value of every row, short of the secrets, that was
committed before the `SELECT` of the poll. -/
def Fresh (s : State F) : Prop :=
  ∀ seen, s.phase = .polled seen → ∀ k r, seen.get? k = some r → r.isSecret = false →
    Cached s.cache k r

/-- A time is later than the watermark, and than every row that a running poll has selected. -/
def Ahead (s : State F) (t : ℤ) : Prop :=
  (∀ l ∈ s.lastSeen, l < t) ∧ match s.phase with
    | .polling _ todo latest => (∀ l ∈ latest, l < t) ∧ ∀ p ∈ todo, p.2.updatedAt < t
    | _ => True

/-- The steps that respect the watermark: a transaction that has written a row that is no secret
commits while its start time is ahead. -/
def Timely (s : State F) : Action F → Prop
  | .commit id => ∀ t ∈ s.txns.get? id, (∃ p ∈ t.writes.items, p.2.2 = false) → Ahead s t.start
  | _ => True

instance (s : State F) (t : ℤ) : Decidable (Ahead s t) := by
  unfold Ahead
  cases s.phase <;> infer_instance

instance (s : State F) (a : Action F) : Decidable (Timely s a) := by
  unfold Timely
  cases a <;> infer_instance

/-- A step that leaves the table and the manager alone, or only ends a poll without success. -/
structure Quiet (s s' : State F) : Prop where
  table : s'.table = s.table
  cache : s'.cache = s.cache
  lastSeen : s'.lastSeen = s.lastSeen
  outcome : s'.outcome = s.outcome
  loaded : s'.loaded = s.loaded
  startSeen : s'.startSeen = s.startSeen
  phase : s'.phase = s.phase ∨ s'.phase = .idle

/-! ## Lookups -/

omit [JsonRuntime F] in
lemma newer_ge (l : Option ℤ) (t : ℤ) : ∃ m, newer l t = some m ∧ t ≤ m ∧ ∀ x ∈ l, x ≤ m := by
  cases l with
  | none => exact ⟨t, rfl, le_rfl, by simp⟩
  | some x =>
    rw [newer]
    split
    · next h => exact ⟨t, rfl, le_rfl, by simpa using h.le⟩
    · next h => exact ⟨x, rfl, not_lt.mp h, by simp⟩

omit [JsonRuntime F] in
lemma newer_forall {P : ℤ → Prop} {l : Option ℤ} {t : ℤ} (hl : ∀ x ∈ l, P x) (ht : P t) :
    ∀ x ∈ newer l t, P x := by
  intro x hx
  cases l with
  | none =>
    obtain rfl := Option.some.inj hx
    exact ht
  | some y =>
    rw [newer] at hx
    split at hx
    · obtain rfl := Option.some.inj hx
      exact ht
    · exact hl x hx

omit [JsonRuntime F] in
lemma mem_rowsOf {table : Table F} {order : List PyStr} {p : PyStr × SettingRow F} :
    p ∈ rowsOf table order ↔ p.1 ∈ order ∧ table.get? p.1 = some p.2 := by
  simp only [rowsOf, List.mem_filterMap, Option.map_eq_some_iff]
  constructor
  · rintro ⟨k, hk, r, hr, rfl⟩
    exact ⟨hk, hr⟩
  · rintro ⟨hk, hr⟩
    exact ⟨p.1, hk, p.2, hr, rfl⟩

omit [JsonRuntime F] in
lemma rowsOf_keys_nodup {table : Table F} {order : List PyStr} (h : order.Nodup) :
    ((rowsOf table order).map Prod.fst).Nodup := by
  refine h.sublist ?_
  rw [rowsOf, List.map_filterMap]
  induction order with
  | nil => exact .slnil
  | cons k order ih =>
    have hrest := ih (List.nodup_cons.mp h).2
    rw [List.filterMap_cons]
    split
    · exact hrest.cons _
    · next k' hk =>
      cases hr : table.get? k with
      | none =>
        rw [hr] at hk
        cases hk
      | some r =>
        rw [hr] at hk
        obtain rfl : k = k' := Option.some.inj hk
        exact hrest.cons_cons _

omit [JsonRuntime F] in
lemma mem_selectedKeys {lastSeen : Option ℤ} {table : Table F} {k : PyStr} {r : SettingRow F}
    (hr : table.get? k = some r) :
    k ∈ selectedKeys lastSeen table ↔ selected lastSeen r = true := by
  simp only [selectedKeys, List.mem_map, List.mem_filter]
  constructor
  · rintro ⟨p, ⟨hp, hsel⟩, rfl⟩
    have hp' : table.get? p.1 = some p.2 := Dict.get?_eq_some.mpr hp
    rw [hr, Option.some.injEq] at hp'
    rwa [hp']
  · intro hsel
    exact ⟨(k, r), ⟨Dict.get?_eq_some.mp hr, hsel⟩, rfl⟩

omit [JsonRuntime F] in
/-- A row of the table after a commit is an old one, or one that the transaction has written. -/
lemma apply_get? (t : Txn F) {table : Table F} {k : PyStr} {r : SettingRow F}
    (h : (t.apply table).get? k = some r) : table.get? k = some r ∨
      r.updatedAt = t.start ∧ ∃ p ∈ t.writes.items, p.2.2 = r.isSecret := by
  unfold Txn.apply at h
  have key : ∀ (l : List (PyStr × (Column F × Bool))) (table : Table F),
      (l.foldl (fun table p => table.set p.1 ⟨p.2.1, p.2.2, t.start⟩) table).get? k = some r →
      table.get? k = some r ∨ r.updatedAt = t.start ∧ ∃ p ∈ l, p.2.2 = r.isSecret := by
    intro l
    induction l with
    | nil => exact fun _ h => Or.inl h
    | cons p l ih =>
      intro table h
      rcases ih _ h with h | ⟨ht, q, hq, hs⟩
      · rw [Dict.get?_set] at h
        split at h
        · obtain rfl := Option.some.inj h
          exact Or.inr ⟨rfl, p, by simp, rfl⟩
        · exact Or.inl h
      · exact Or.inr ⟨ht, q, List.mem_cons_of_mem _ hq, hs⟩
  exact key _ _ h

omit [JsonRuntime F] in
/-- A commit leaves a row as it is, or writes a new one in its place. -/
lemma get?_apply (t : Txn F) {table : Table F} {k : PyStr} {r : SettingRow F}
    (h : table.get? k = some r) : ∃ r', (t.apply table).get? k = some r' ∧
      (r' = r ∨ t.writes.items ≠ [] ∧ r'.updatedAt = t.start) := by
  unfold Txn.apply
  have key : ∀ (l : List (PyStr × (Column F × Bool))) (table : Table F) (r : SettingRow F),
      table.get? k = some r → ∃ r',
        (l.foldl (fun table p => table.set p.1 ⟨p.2.1, p.2.2, t.start⟩) table).get? k = some r' ∧
          (r' = r ∨ l ≠ [] ∧ r'.updatedAt = t.start) := by
    intro l
    induction l with
    | nil => exact fun _ r h => ⟨r, h, Or.inl rfl⟩
    | cons p l ih =>
      intro table r h
      by_cases hk : k = p.1
      · obtain ⟨r', hr', hor⟩ := ih (table.set p.1 ⟨p.2.1, p.2.2, t.start⟩)
          ⟨p.2.1, p.2.2, t.start⟩ (by rw [hk, Dict.get?_set_self])
        refine ⟨r', hr', Or.inr ⟨by simp, ?_⟩⟩
        rcases hor with rfl | ⟨-, htime⟩
        · rfl
        · exact htime
      · obtain ⟨r', hr', hor⟩ := ih (table.set p.1 ⟨p.2.1, p.2.2, t.start⟩) r
          (by rw [Dict.get?_set_ne _ _ hk, h])
        exact ⟨r', hr', hor.imp_right fun ⟨_, htime⟩ => ⟨by simp, htime⟩⟩
  exact key _ _ r h

lemma Cached.set {cache : Dict PyStr (Json F)} {k k' : PyStr} {r : SettingRow F} {v : Json F}
    (h : Cached cache k r) (hne : k ≠ k') : Cached (cache.set k' v) k r := by
  obtain ⟨u, hu, hk⟩ := h
  exact ⟨u, hu, by rwa [Dict.get?_set_ne _ _ hne]⟩

/-! ## The load -/

/-- A load that does not raise caches every row, and leaves the other keys alone. -/
lemma loadRows_ok {rows : List (PyStr × SettingRow F)} {l l' : Loading F}
    (hn : (rows.map Prod.fst).Nodup) (h : loadRows l rows = .ok l') :
    (∀ k ∉ rows.map Prod.fst, l'.cache.get? k = l.cache.get? k) ∧
      (∀ p ∈ rows, p.2.isSecret = false → Cached l'.cache p.1 p.2) ∧
      (l.latest ≠ none ∨ rows ≠ [] → l'.latest ≠ none) := by
  induction rows generalizing l with
  | nil =>
    obtain rfl := Except.ok.inj h
    exact ⟨fun _ _ => rfl, by simp, by simp⟩
  | cons p rows ih =>
    obtain ⟨k, r⟩ := p
    rw [List.map_cons, List.nodup_cons] at hn
    obtain ⟨m, hm, -⟩ := newer_ge l.latest r.updatedAt
    simp only [loadRows] at h
    split at h
    · next hsecret =>
      obtain ⟨hother, hrows, hlatest⟩ := ih hn.2 h
      refine ⟨fun x hx => hother x (fun hx' => hx (List.mem_cons_of_mem _ hx')), ?_,
        fun _ => hlatest (Or.inl (by simp [hm]))⟩
      intro q hq hqs
      rcases List.mem_cons.mp hq with rfl | hq
      · exact absurd (hsecret.symm.trans hqs) (by decide)
      · exact hrows q hq hqs
    · split at h
      · cases h
      · next v hv =>
        obtain ⟨hother, hrows, hlatest⟩ := ih hn.2 h
        refine ⟨fun x hx => ?_, ?_, fun _ => hlatest (Or.inl (by simp [hm]))⟩
        · rw [List.map_cons, List.mem_cons, not_or] at hx
          rw [hother x hx.2]
          exact Dict.get?_set_ne _ _ hx.1
        · intro q hq hqs
          rcases List.mem_cons.mp hq with rfl | hq
          · exact ⟨v, hv, by rw [hother k hn.1]; exact Dict.get?_set_self _ _ _⟩
          · exact hrows q hq hqs

/-! ## After a load -/

/-- What holds while a poll runs: its rows are beyond the watermark, the other rows that it saw are
in the cache, and what is committed meanwhile is ahead of it. -/
structure PollInv (s : State F) (seen : Table F) (todo : List (PyStr × SettingRow F))
    (latest : Option ℤ) : Prop where
  selects : ∀ p ∈ todo, seen.get? p.1 = some p.2 ∧ ∀ w ∈ s.lastSeen, w < p.2.updatedAt
  handled : ∀ k r, seen.get? k = some r → r.isSecret = false → (k, r) ∈ todo ∨ Cached s.cache k r
  ahead : ∀ k r, s.table.get? k = some r → r.isSecret = false → seen.get? k = some r ∨
    (∀ l ∈ latest, l < r.updatedAt) ∧ ∀ p ∈ todo, p.2.updatedAt < r.updatedAt
  rises : ∀ w ∈ s.lastSeen, ∃ l ∈ latest, w ≤ l

/-- What holds once the table is loaded: the rows up to the watermark are in the cache. -/
structure Inv (s : State F) : Prop where
  watermark : s.lastSeen ≠ none
  settled : ∀ w ∈ s.lastSeen, ∀ k r, s.table.get? k = some r → r.isSecret = false →
    r.updatedAt ≤ w → Cached s.cache k r
  polling : ∀ seen todo latest, s.phase = .polling seen todo latest → PollInv s seen todo latest
  fresh : Fresh s

lemma PollInv.quiet {s s' : State F} {seen : Table F} {todo : List (PyStr × SettingRow F)}
    {latest : Option ℤ} (h : PollInv s seen todo latest) (hq : Quiet s s') :
    PollInv s' seen todo latest where
  selects := by simpa only [hq.lastSeen] using h.selects
  handled := by simpa only [hq.cache] using h.handled
  ahead := by simpa only [hq.table] using h.ahead
  rises := by simpa only [hq.lastSeen] using h.rises

lemma Inv.quiet {s s' : State F} (h : Inv s) (hq : Quiet s s') : Inv s' where
  watermark := hq.lastSeen ▸ h.watermark
  settled := by simpa only [hq.lastSeen, hq.table, hq.cache] using h.settled
  polling seen todo latest hp := by
    rcases hq.phase with hphase | hphase
    · exact (h.polling seen todo latest (hphase ▸ hp)).quiet hq
    · cases hphase.symm.trans hp
  fresh seen hp := by
    rcases hq.phase with hphase | hphase
    · simpa only [hq.cache] using h.fresh seen (hphase ▸ hp)
    · cases hphase.symm.trans hp

lemma Inv.commit {s : State F} {id : ℕ} {t : Txn F} (h : Inv s) (ht : s.txns.get? id = some t)
    (hg : Timely s (.commit id)) :
    Inv { s with table := t.apply s.table, txns := s.txns.pop id } where
  watermark := h.watermark
  settled w hw k r hr hs hle := by
    rcases apply_get? t hr with hold | ⟨htime, p, hp, hsec⟩
    · exact h.settled w hw k r hold hs hle
    · have hlt := (hg t ht ⟨p, hp, hsec.trans hs⟩).1 w hw
      omega
  polling seen todo latest hp := by
    have hinv := h.polling seen todo latest hp
    refine ⟨hinv.selects, hinv.handled, fun k r hr hs => ?_, hinv.rises⟩
    rcases apply_get? t hr with hold | ⟨htime, p, hp', hsec⟩
    · exact hinv.ahead k r hold hs
    · have hahead := (hg t ht ⟨p, hp', hsec.trans hs⟩).2
      rw [show s.phase = _ from hp] at hahead
      exact Or.inr (htime ▸ hahead)
  fresh := h.fresh

/-- The rows of the `SELECT` are beyond the watermark, and the others are settled. -/
lemma Inv.select {s : State F} {keys : List PyStr} (h : Inv s)
    (hkeys : keys.Perm (selectedKeys s.lastSeen s.table)) :
    Inv { s with phase := .polling s.table (rowsOf s.table keys) s.lastSeen } := by
  obtain ⟨w, hw⟩ := Option.ne_none_iff_exists'.mp h.watermark
  have hmem : ∀ {k r}, s.table.get? k = some r → (k ∈ keys ↔ w < r.updatedAt) := by
    intro k r hr
    rw [hkeys.mem_iff, mem_selectedKeys hr]
    simp [selected, hw]
  refine ⟨h.watermark, h.settled, fun seen todo latest hp => ?_, fun seen hp => nomatch hp⟩
  simp only [Phase.polling.injEq] at hp
  obtain ⟨rfl, rfl, rfl⟩ := hp
  refine ⟨fun p hp => ?_, fun k r hr hsec => ?_, fun k r hr _ => Or.inl hr,
    fun l hl => ⟨l, hl, le_rfl⟩⟩
  · obtain ⟨hk, hr⟩ := mem_rowsOf.mp hp
    refine ⟨hr, fun l hl => ?_⟩
    obtain rfl : w = l := Option.some.inj (hw.symm.trans hl)
    exact (hmem hr).mp hk
  · by_cases hlt : w < r.updatedAt
    · exact Or.inl (mem_rowsOf.mpr ⟨(hmem hr).mpr hlt, hr⟩)
    · exact Or.inr (h.settled w hw k r hr hsec (not_lt.mp hlt))

/-- The next row is handled; a row that was settled before is a row of another key. -/
lemma Inv.row {s : State F} {seen : Table F} {k : PyStr} {r : SettingRow F}
    {todo : List (PyStr × SettingRow F)} {latest : Option ℤ} (h : Inv s)
    (hp : s.phase = .polling seen ((k, r) :: todo) latest) :
    Inv (s.row seen k r todo latest) := by
  have hinv := h.polling _ _ _ hp
  obtain ⟨hseen, hbeyond⟩ := hinv.selects (k, r) (by simp)
  obtain ⟨m, hm, htm, hlm⟩ := newer_ge latest r.updatedAt
  have hselects : ∀ p ∈ todo, seen.get? p.1 = some p.2 ∧ ∀ w ∈ s.lastSeen, w < p.2.updatedAt :=
    fun p hp => hinv.selects p (List.mem_cons_of_mem _ hp)
  have hrises : ∀ w ∈ s.lastSeen, ∃ l ∈ newer latest r.updatedAt, w ≤ l := by
    intro w hw
    obtain ⟨l, hl, hwl⟩ := hinv.rises w hw
    exact ⟨m, hm, hwl.trans (hlm l hl)⟩
  have hahead : ∀ k' r', s.table.get? k' = some r' → r'.isSecret = false →
      seen.get? k' = some r' ∨ (∀ l ∈ newer latest r.updatedAt, l < r'.updatedAt) ∧
        ∀ p ∈ todo, p.2.updatedAt < r'.updatedAt := by
    intro k' r' hr' hs'
    rcases hinv.ahead k' r' hr' hs' with hold | ⟨hlatest, htodo⟩
    · exact Or.inl hold
    · refine Or.inr ⟨?_, fun p hp => htodo p (List.mem_cons_of_mem _ hp)⟩
      exact newer_forall hlatest (htodo (k, r) (by simp))
  have hnext : ∀ k' r', seen.get? k' = some r' → r'.isSecret = false →
      (k', r') ∈ todo ∨ (k', r') = (k, r) ∨ Cached s.cache k' r' := by
    intro k' r' hr' hs'
    rcases hinv.handled k' r' hr' hs' with hmem | hcached
    · exact (List.mem_cons.mp hmem).elim (fun heq => Or.inr (Or.inl heq)) Or.inl
    · exact Or.inr (Or.inr hcached)
  unfold State.row
  split
  · next hsecret =>
    -- a secret is skipped
    refine ⟨h.watermark, h.settled, fun _ _ _ hp' => ?_, fun _ hp' => nomatch hp'⟩
    simp only [Phase.polling.injEq] at hp'
    obtain ⟨rfl, rfl, rfl⟩ := hp'
    refine ⟨hselects, fun k' r' hr' hs' => ?_, hahead, hrises⟩
    rcases hnext k' r' hr' hs' with hmem | heq | hcached
    · exact Or.inl hmem
    · obtain ⟨rfl, rfl⟩ := Prod.mk.inj heq
      exact absurd (hsecret.symm.trans hs') (by decide)
    · exact Or.inr hcached
  · split
    · -- the value does not parse: the poll ends, and the watermark stays
      exact h.quiet ⟨rfl, rfl, rfl, rfl, rfl, rfl, Or.inr rfl⟩
    · next v hv =>
      have hset : ∀ k' r', seen.get? k' = some r' → Cached s.cache k' r' →
          Cached (s.cache.set k v) k' r' := by
        intro k' r' hr' hc
        by_cases hk : k' = k
        · subst hk
          obtain rfl : r = r' := Option.some.inj (hseen.symm.trans hr')
          exact ⟨v, hv, Dict.get?_set_self _ _ _⟩
        · exact hc.set hk
      refine ⟨h.watermark, fun w hw k' r' hr' hs' hle => ?_, fun _ _ _ hp' => ?_,
        fun _ hp' => nomatch hp'⟩
      · -- a settled row has another key, or it is the row that was written
        have hc := h.settled w hw k' r' hr' hs' hle
        rcases hinv.ahead k' r' hr' hs' with hold | ⟨-, htodo⟩
        · exact hset k' r' hold hc
        · have hlt := htodo (k, r) (by simp)
          have hw' := hbeyond w hw
          simp only at hlt hw'
          omega
      · simp only [Phase.polling.injEq] at hp'
        obtain ⟨rfl, rfl, rfl⟩ := hp'
        refine ⟨hselects, fun k' r' hr' hs' => ?_, hahead, hrises⟩
        rcases hnext k' r' hr' hs' with hmem | heq | hcached
        · exact Or.inl hmem
        · obtain ⟨rfl, rfl⟩ := Prod.mk.inj heq
          exact Or.inr ⟨v, hv, Dict.get?_set_self _ _ _⟩
        · exact Or.inr (hset k' r' hr' hcached)

/-- The last row is handled: what the poll saw is in the cache, and the rest is beyond the new
watermark. -/
lemma Inv.finish {s : State F} {seen : Table F} {latest : Option ℤ} (h : Inv s)
    (hp : s.phase = .polling seen [] latest) :
    Inv { s with lastSeen := latest.or s.lastSeen, phase := .polled seen } := by
  have hinv := h.polling _ _ _ hp
  have hcached : ∀ k r, seen.get? k = some r → r.isSecret = false → Cached s.cache k r :=
    fun k r hr hs => (hinv.handled k r hr hs).resolve_left (by simp)
  obtain ⟨w, hw⟩ := Option.ne_none_iff_exists'.mp h.watermark
  obtain ⟨l, hl, -⟩ := hinv.rises w hw
  obtain rfl : latest = some l := hl
  refine ⟨by simp, fun w hw k r hr hs hle => ?_, (fun _ _ _ hp' => nomatch hp'),
    fun seen' hp' => ?_⟩
  · obtain rfl : l = w := by simpa using hw
    rcases hinv.ahead k r hr hs with hold | ⟨hlt, -⟩
    · exact hcached k r hold hs
    · have := hlt l rfl
      omega
  · obtain rfl := Phase.polled.inj hp'
    exact hcached

/-- What `start` leaves: it has failed and the watermark is as it was, or its load has come to the
end, with whatever then happens to the connection. -/
lemma State.start_cases {s s' : State F} {released : Bool} {order : Option (List PyStr)}
    (hs : s.start released order = some s') :
    (∃ cache secretKeys, s' = { s with
      cache, secretKeys, phase := .idle, outcome := some .failed, loaded := cache,
      startSeen := s.lastSeen }) ∨
    ∃ keys l, keys.Perm s.table.keys ∧
      loadRows ⟨s.cache, s.secretKeys, s.lastSeen⟩ (rowsOf s.table keys) = .ok l ∧
      s' = { s with
        cache := l.cache, secretKeys := l.secretKeys, lastSeen := l.latest.or s.lastSeen,
        phase := .idle,
        outcome := some (if !released then .failed else if keys = [] then .empty else .loaded),
        loaded := l.cache, startSeen := l.latest.or s.lastSeen } := by
  cases order with
  | none => exact Or.inl ⟨_, _, (Option.some.inj hs).symm⟩
  | some keys =>
    simp only [State.start] at hs
    split at hs
    · next hperm =>
      split at hs
      · exact Or.inl ⟨_, _, (Option.some.inj hs).symm⟩
      · next l hl => exact Or.inr ⟨keys, l, hperm, hl, (Option.some.inj hs).symm⟩
    · cases hs

/-- A load that sets the watermark caches every row. -/
lemma Inv.start {s s' : State F} {released : Bool} {order : Option (List PyStr)}
    (hlast : s.lastSeen = none) (hs : s.start released order = some s')
    (hseen : s'.startSeen ≠ none) : Inv s' := by
  rcases State.start_cases hs with ⟨cache, secretKeys, rfl⟩ | ⟨keys, l, hperm, hl, rfl⟩
  · exact absurd hlast hseen
  · have hnodup : keys.Nodup := hperm.nodup_iff.mpr s.table.nodup_keys
    obtain ⟨-, hrows, -⟩ := loadRows_ok (rowsOf_keys_nodup hnodup) hl
    refine ⟨hseen, fun _ _ k r hr hsec _ => ?_, (fun _ _ _ hp => nomatch hp),
      fun _ hp => nomatch hp⟩
    have hk : k ∈ keys := hperm.mem_iff.mpr (Dict.mem_keys_iff_get?.mpr ⟨r, hr⟩)
    exact hrows (k, r) (mem_rowsOf.mpr ⟨hk, hr⟩) hsec

/-! ## Runs -/

/-- What a step may be. -/
theorem step_cases {s s' : State F} {a : Action F} (h : step s a = some s') :
    Quiet s s' ∨
    (∃ id t, a = .commit id ∧ s.txns.get? id = some t ∧
      s' = { s with table := t.apply s.table, txns := s.txns.pop id }) ∨
    (∃ released order, s.phase = .new ∧ s.start released order = some s') ∨
    (∃ keys, keys.Perm (selectedKeys s.lastSeen s.table) ∧
      s' = { s with phase := .polling s.table (rowsOf s.table keys) s.lastSeen }) ∨
    (∃ seen k r todo latest, s.phase = .polling seen ((k, r) :: todo) latest ∧
      s' = s.row seen k r todo latest) ∨
    ∃ seen latest, s.phase = .polling seen [] latest ∧
      s' = { s with lastSeen := latest.or s.lastSeen, phase := .polled seen } := by
  cases a with
  | tick t =>
    simp only [step] at h
    split at h
    · obtain rfl := Option.some.inj h
      exact Or.inl ⟨rfl, rfl, rfl, rfl, rfl, rfl, Or.inl rfl⟩
    · cases h
  | begin id =>
    simp only [step] at h
    split at h
    · cases h
    · obtain rfl := Option.some.inj h
      exact Or.inl ⟨rfl, rfl, rfl, rfl, rfl, rfl, Or.inl rfl⟩
  | write id k value isSecret =>
    simp only [step] at h
    split at h
    · cases h
    · split at h
      · cases h
      · obtain rfl := Option.some.inj h
        exact Or.inl ⟨rfl, rfl, rfl, rfl, rfl, rfl, Or.inl rfl⟩
  | commit id =>
    obtain ⟨t, ht, rfl⟩ := Option.map_eq_some_iff.mp h
    exact Or.inr (Or.inl ⟨id, t, rfl, ht, rfl⟩)
  | abort id =>
    obtain rfl := Option.some.inj h
    exact Or.inl ⟨rfl, rfl, rfl, rfl, rfl, rfl, Or.inl rfl⟩
  | start order released =>
    simp only [step] at h
    split at h
    · next hp => exact Or.inr (Or.inr (Or.inl ⟨released, order, hp, h⟩))
    · cases h
  | select order =>
    have hselect : s.select order = some s' := by
      simp only [step] at h
      split at h
      · exact h
      · exact h
      · cases h
    cases order with
    | none =>
      obtain rfl := Option.some.inj hselect
      exact Or.inl ⟨rfl, rfl, rfl, rfl, rfl, rfl, Or.inr rfl⟩
    | some keys =>
      simp only [State.select] at hselect
      split at hselect
      · next hkeys =>
        obtain rfl := Option.some.inj hselect
        exact Or.inr (Or.inr (Or.inr (Or.inl ⟨keys, hkeys.1, rfl⟩)))
      · cases hselect
  | row =>
    simp only [step] at h
    split at h
    · next hp =>
      obtain rfl := Option.some.inj h
      exact Or.inr (Or.inr (Or.inr (Or.inr (Or.inl ⟨_, _, _, _, _, hp, rfl⟩))))
    · cases h
  | finish =>
    simp only [step] at h
    split at h
    · next hp =>
      obtain rfl := Option.some.inj h
      exact Or.inr (Or.inr (Or.inr (Or.inr (Or.inr ⟨_, _, hp, rfl⟩))))
    · cases h
  | cancel =>
    simp only [step] at h
    split at h
    · obtain rfl := Option.some.inj h
      exact Or.inl ⟨rfl, rfl, rfl, rfl, rfl, rfl, Or.inr rfl⟩
    · cases h

/-- A step of a poll leaves alone what `start` has left. -/
structure Polls (s s' : State F) : Prop where
  outcome : s'.outcome = s.outcome
  loaded : s'.loaded = s.loaded
  startSeen : s'.startSeen = s.startSeen
  phase : s'.phase ≠ .new

lemma State.row_polls (s : State F) (seen : Table F) (k : PyStr) (r : SettingRow F)
    (todo : List (PyStr × SettingRow F)) (latest : Option ℤ) :
    Polls s (s.row seen k r todo latest) := by
  unfold State.row
  split
  · exact ⟨rfl, rfl, rfl, fun hp => nomatch hp⟩
  · split <;> exact ⟨rfl, rfl, rfl, fun hp => nomatch hp⟩

/-- What holds from before `start` on: a load of rows sets the watermark, and a load that finds none
changes nothing. -/
structure Begun (s : State F) : Prop where
  new : s.phase = .new → s.lastSeen = none ∧ s.cache = .empty
  loaded : s.outcome = some .loaded → s.startSeen ≠ none
  empty : s.outcome = some .empty → s.loaded = .empty ∧ s.startSeen = none

omit [JsonRuntime F] in
lemma Begun.quiet {s s' : State F} (h : Begun s) (hq : Quiet s s') : Begun s' where
  new hp := by
    rcases hq.phase with hphase | hphase
    · rw [hq.lastSeen, hq.cache]
      exact h.new (hphase ▸ hp)
    · cases hphase.symm.trans hp
  loaded := by simpa only [hq.outcome, hq.startSeen] using h.loaded
  empty := by simpa only [hq.outcome, hq.loaded, hq.startSeen] using h.empty

omit [JsonRuntime F] in
lemma Begun.polls {s s' : State F} (h : Begun s) (hp : Polls s s') : Begun s' where
  new hphase := absurd hphase hp.phase
  loaded := by simpa only [hp.outcome, hp.startSeen] using h.loaded
  empty := by simpa only [hp.outcome, hp.loaded, hp.startSeen] using h.empty

lemma Begun.start {s s' : State F} {released : Bool} {order : Option (List PyStr)}
    (h : Begun s) (hnew : s.phase = .new) (hs : s.start released order = some s') : Begun s' := by
  obtain ⟨hlast, hcache⟩ := h.new hnew
  rcases State.start_cases hs with ⟨cache, secretKeys, rfl⟩ | ⟨keys, l, hperm, hl, rfl⟩
  · exact ⟨nofun, nofun, nofun⟩
  · refine ⟨nofun, fun hloaded => ?_, fun hempty => ?_⟩
    · have hnodup : keys.Nodup := hperm.nodup_iff.mpr s.table.nodup_keys
      obtain ⟨-, -, hlatest⟩ := loadRows_ok (rowsOf_keys_nodup hnodup) hl
      have hne : rowsOf s.table keys ≠ [] := by
        intro hnil
        cases keys with
        | nil => cases released <;> simp at hloaded
        | cons k keys =>
          obtain ⟨r, hr⟩ := Dict.mem_keys_iff_get?.mp (hperm.mem_iff.mp List.mem_cons_self)
          have hmem : (k, r) ∈ rowsOf s.table (k :: keys) := mem_rowsOf.mpr ⟨by simp, hr⟩
          rw [hnil] at hmem
          cases hmem
      obtain ⟨w, hw⟩ := Option.ne_none_iff_exists'.mp (hlatest (Or.inr hne))
      simp [hw]
    · have hkeys : keys = [] := by
        by_contra hne
        cases released <;> simp [hne] at hempty
      subst hkeys
      obtain rfl := Except.ok.inj hl
      exact ⟨hcache, by simp [hlast]⟩

lemma begun_of_reachable {s : State F} (h : machine.Reachable s) : Begun s := by
  refine h.invariant ?_ fun s a s' hbegun hs => ?_
  · rintro s ⟨-, hcache, -, hlast, -, hout, -⟩
    exact ⟨fun _ => ⟨hlast, hcache⟩, (fun hl => nomatch hout.symm.trans hl),
      fun he => nomatch hout.symm.trans he⟩
  · rcases step_cases hs with hq | ⟨id, t, rfl, ht, rfl⟩ | ⟨released, order, hnew, hs⟩ |
      ⟨keys, hkeys, rfl⟩ | ⟨seen, k, r, todo, latest, hp, rfl⟩ | ⟨seen, latest, hp, rfl⟩
    · exact hbegun.quiet hq
    · exact ⟨hbegun.new, hbegun.loaded, hbegun.empty⟩
    · exact hbegun.start hnew hs
    · exact hbegun.polls ⟨rfl, rfl, rfl, nofun⟩
    · exact hbegun.polls (s.row_polls seen k r todo latest)
    · exact hbegun.polls ⟨rfl, rfl, rfl, nofun⟩

lemma Inv.of_reach {s : State F} (h : machine.Reach Timely s) :
    s.startSeen ≠ none → Inv s := by
  induction h with
  | init hi => exact fun hne => absurd hi.2.2.2.2.2.2.2 hne
  | @step s s' a hreach hg hs ih =>
    intro hne
    rcases step_cases hs with hq | ⟨id, t, rfl, ht, rfl⟩ | ⟨released, order, hnew, hs⟩ |
      ⟨keys, hkeys, rfl⟩ | ⟨seen, k, r, todo, latest, hp, rfl⟩ | ⟨seen, latest, hp, rfl⟩
    · exact (ih (hq.startSeen ▸ hne)).quiet hq
    · exact (ih hne).commit ht hg
    · exact .start ((begun_of_reachable hreach.reachable).new hnew).1 hs hne
    · exact (ih hne).select hkeys
    · exact (ih ((s.row_polls seen k r todo latest).startSeen ▸ hne)).row hp
    · exact (ih hne).finish hp

/-- **After a start that has loaded the table, polls miss nothing** in any run in which
transactions commit while their start times are ahead of the watermark. -/
theorem fresh_of_timely {s : State F} (h : machine.Reach Timely s)
    (hloaded : s.outcome = some .loaded) : Fresh s :=
  (Inv.of_reach h ((begun_of_reachable h.reachable).loaded hloaded)).fresh

section Example

/-- A manager before its start, over a table with the given rows. -/
def unstarted (rows : List (PyStr × SettingRow Empty)) : State Empty :=
  ⟨.ofList rows, 0, .empty, .empty, [], none, .new, none, .empty, none⟩

/-- A row `x = 1` written at time 0. -/
def loadedRow : PyStr × SettingRow Empty := (text "x", ⟨.text (text "1"), false, 0⟩)

/-- The last poll saw a row that is no secret, and the cache has no value for it. -/
def State.missed (s : State Empty) (k : PyStr) : Bool :=
  match s.phase with
  | .polled seen => (seen.get? k).any (fun r => !r.isSecret) && (s.cache.get? k).isNone
  | _ => false

lemma State.missed_seen {s : State Empty} {k : PyStr} (h : s.missed k = true) :
    ∃ seen r, s.phase = .polled seen ∧ seen.get? k = some r ∧ r.isSecret = false ∧
      s.cache.get? k = none := by
  unfold State.missed at h
  split at h
  · next seen hp =>
    obtain ⟨hr, hnone⟩ := Bool.and_eq_true_iff.mp h
    obtain ⟨r, hseen, hsec⟩ := (Option.any_eq_true ..).mp hr
    exact ⟨seen, r, hp, hseen, by simpa using hsec, Option.isNone_iff_eq_none.mp hnone⟩
  · cases h

lemma State.missed_not_fresh {s : State Empty} {k : PyStr} (h : s.missed k = true) :
    ¬ Fresh s := by
  intro hf
  obtain ⟨seen, r, hp, hseen, hsec, hnone⟩ := s.missed_seen h
  obtain ⟨v, -, hv⟩ := hf seen hp k r hseen hsec
  cases hnone.symm.trans hv

/-- A poll of the given keys. -/
def poll (order : List PyStr) : List (Action Empty) :=
  .select (some order) :: order.map (fun _ => .row) ++ [.finish]

/-- A transaction that starts after the load writes `x = 2`, and is polled. -/
def updateRun : List (Action Empty) :=
  [.start (some [text "x"]) true, .tick 1, .begin 0, .write 0 (text "x") (.text (text "2")) false,
    .commit 0] ++ poll [text "x"]

lemma updateRun_ends : ((machine.run (unstarted [loadedRow]) updateRun).map fun s =>
    (s.outcome, s.lastSeen)) = some (some .loaded, some 1) := by
  decide +kernel

theorem update_is_fresh : ∃ s : State Empty, s.outcome = some .loaded ∧ s.lastSeen = some 1 ∧
    Fresh s := by
  obtain ⟨s, hrun, hs⟩ := Option.map_eq_some_iff.mp updateRun_ends
  simp only [Prod.mk.injEq] at hs
  have hinit : machine.Reach Timely (unstarted [loadedRow]) :=
    .init ⟨rfl, rfl, rfl, rfl, rfl, rfl, rfl, rfl⟩
  have htimely : machine.Along Timely (unstarted [loadedRow]) updateRun := by decide +kernel
  exact ⟨s, hs.1, hs.2, fresh_of_timely (hinit.run htimely hrun) hs.1⟩

/-- Two transactions: the one that starts first writes `y = 1` and commits last, after a poll that
has seen `x = 2` of the other; a second poll follows. -/
def overtakenRun : List (Action Empty) :=
  [.start (some [text "x"]) true, .tick 1, .begin 0, .write 0 (text "y") (.text (text "1")) false,
    .tick 2, .begin 1, .write 1 (text "x") (.text (text "2")) false, .commit 1] ++
    poll [text "x"] ++ [.commit 0] ++ poll []

lemma overtakenRun_ends : ((machine.run (unstarted [loadedRow]) overtakenRun).map fun s =>
    (s.outcome, s.missed (text "y"))) = some (some .loaded, true) := by
  decide +kernel

/-- The row of the first transaction is committed, polled over, and not in the cache. -/
theorem overtaken_row_is_missed :
    ∃ s : State Empty, machine.Reachable s ∧ s.outcome = some .loaded ∧ ¬ Fresh s := by
  obtain ⟨s, hrun, hs⟩ := Option.map_eq_some_iff.mp overtakenRun_ends
  simp only [Prod.mk.injEq] at hs
  have hinit : machine.Reachable (unstarted [loadedRow]) :=
    .init ⟨rfl, rfl, rfl, rfl, rfl, rfl, rfl, rfl⟩
  exact ⟨s, hinit.run hrun, hs.1, s.missed_not_fresh hs.2⟩

end Example

end Omkit.Settings
