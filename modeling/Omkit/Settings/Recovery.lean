import Omkit.Settings.Fresh

/-!
# What a start that failed leaves

The load and the polls share one watermark.  A load that raises before it has set the watermark, or
that finds no rows, leaves none, and no poll ever finds a row: the comparison is with `NULL`.  A
load that raises when its connection is released has set the watermark, and the polls go on from
there.
-/

namespace Omkit.Settings

open Lib

variable {F : Type} [JsonRuntime F]

/-! ## No watermark -/

/-- What holds after a load that has set no watermark: a poll has no rows, and the cache stays as it
is. -/
structure Stalled (s : State F) : Prop where
  lastSeen : s.lastSeen = none
  cache : s.cache = s.loaded
  polling : ∀ seen todo latest, s.phase = .polling seen todo latest → todo = [] ∧ latest = none

omit [JsonRuntime F] in
lemma Stalled.quiet {s s' : State F} (h : Stalled s) (hq : Quiet s s') : Stalled s' where
  lastSeen := hq.lastSeen.trans h.lastSeen
  cache := by rw [hq.cache, hq.loaded, h.cache]
  polling seen todo latest hp := by
    rcases hq.phase with hphase | hphase
    · exact h.polling seen todo latest (hphase ▸ hp)
    · cases hphase.symm.trans hp

omit [JsonRuntime F] in
/-- A comparison with `NULL` selects no row. -/
lemma Stalled.select {s : State F} {keys : List PyStr} (h : Stalled s)
    (hkeys : keys.Perm (selectedKeys s.lastSeen s.table)) :
    Stalled { s with phase := .polling s.table (rowsOf s.table keys) s.lastSeen } := by
  have hnone : selectedKeys s.lastSeen s.table = [] := by
    simp [selectedKeys, selected, h.lastSeen]
  have hnil : keys = [] := List.Perm.eq_nil (hnone ▸ hkeys)
  refine ⟨h.lastSeen, h.cache, fun seen todo latest hp => ?_⟩
  simp only [Phase.polling.injEq] at hp
  obtain ⟨-, rfl, rfl⟩ := hp
  exact ⟨by simp [hnil, rowsOf], h.lastSeen⟩

lemma Stalled.start {s s' : State F} {released : Bool} {order : Option (List PyStr)}
    (hlast : s.lastSeen = none) (hs : s.start released order = some s')
    (hseen : s'.startSeen = none) : Stalled s' := by
  rcases State.start_cases hs with ⟨cache, secretKeys, rfl⟩ | ⟨keys, l, -, -, rfl⟩
  · exact ⟨hlast, rfl, fun _ _ _ hp => by cases hp⟩
  · exact ⟨hseen, rfl, fun _ _ _ hp => by cases hp⟩

/-- What holds of a manager that was started without setting the watermark. -/
lemma stalled_of_reachable {s : State F} (h : machine.Reachable s) :
    s.outcome ≠ none → s.startSeen = none → Stalled s := by
  induction h with
  | init hi => exact fun hne => absurd hi.2.2.2.2.2.1 hne
  | @step s s' a hreach _ hs ih =>
    intro hne hseen
    rcases step_cases hs with hq | ⟨id, t, rfl, ht, rfl⟩ | ⟨released, order, hnew, hs⟩ |
      ⟨keys, hkeys, rfl⟩ | ⟨seen, k, r, todo, latest, hp, rfl⟩ | ⟨seen, latest, hp, rfl⟩
    · exact (ih (hq.outcome ▸ hne) (hq.startSeen ▸ hseen)).quiet hq
    · have hst := ih hne hseen
      exact ⟨hst.lastSeen, hst.cache, hst.polling⟩
    · exact .start ((begun_of_reachable hreach).new hnew).1 hs hseen
    · exact (ih hne hseen).select hkeys
    · have hpolls := s.row_polls seen k r todo latest
      have hst := ih (hpolls.outcome ▸ hne) (hpolls.startSeen ▸ hseen)
      cases (hst.polling _ _ _ hp).1
    · have hst := ih hne hseen
      obtain ⟨-, rfl⟩ := hst.polling _ _ _ hp
      exact ⟨hst.lastSeen, hst.cache, fun _ _ _ hp => by cases hp⟩

/-! ## Later and later rows -/

/-- The steps of writers whose rows carry later and later times. -/
def Increasing (s : State F) : Action F → Prop
  | .commit id => ∀ t ∈ s.txns.get? id, ∀ _ ∈ t.writes.items, ∀ p ∈ s.table.items,
    p.2.updatedAt < t.start
  | _ => True

instance decidableIncreasing (s : State F) : (a : Action F) → Decidable (Increasing s a)
  | .commit id => inferInstanceAs (Decidable (∀ t ∈ s.txns.get? id, ∀ _ ∈ t.writes.items,
      ∀ p ∈ s.table.items, p.2.updatedAt < t.start))
  | .tick _ | .begin _ | .write _ _ _ _ | .abort _ | .start _ _ | .select _ | .row | .finish
  | .cancel => isTrue trivial

/-- Some row of the table is at least as late. -/
def Dated (table : Table F) (l : ℤ) : Prop := ∃ p ∈ table.items, l ≤ p.2.updatedAt

/-- Every time that the manager has seen is that of a row, or there is a later row by now. -/
structure AllDated (s : State F) : Prop where
  lastSeen : ∀ l ∈ s.lastSeen, Dated s.table l
  polling : ∀ seen todo latest, s.phase = .polling seen todo latest →
    (∀ l ∈ latest, Dated s.table l) ∧ ∀ p ∈ todo, Dated s.table p.2.updatedAt

omit [JsonRuntime F] in
lemma Dated.lt {table : Table F} {l t : ℤ} (h : Dated table l)
    (ht : ∀ p ∈ table.items, p.2.updatedAt < t) : l < t := by
  obtain ⟨p, hp, hle⟩ := h
  exact hle.trans_lt (ht p hp)

omit [JsonRuntime F] in
/-- A commit overwrites rows with later ones only. -/
lemma Dated.apply {table : Table F} {l : ℤ} (h : Dated table l) (t : Txn F)
    (ht : ∀ _ ∈ t.writes.items, ∀ p ∈ table.items, p.2.updatedAt < t.start) :
    Dated (t.apply table) l := by
  obtain ⟨⟨k, r⟩, hp, hle⟩ := h
  obtain ⟨r', hr', heq⟩ := get?_apply t (Dict.get?_eq_some.mpr hp)
  refine ⟨(k, r'), Dict.get?_eq_some.mp hr', ?_⟩
  rcases heq with rfl | ⟨hne, htime⟩
  · exact hle
  · obtain ⟨q, hq⟩ := List.exists_mem_of_ne_nil _ hne
    exact hle.trans ((ht q hq _ hp).le.trans htime.ge)

omit [JsonRuntime F] in
lemma AllDated.quiet {s s' : State F} (h : AllDated s) (hq : Quiet s s') : AllDated s' where
  lastSeen := by simpa only [hq.lastSeen, hq.table] using h.lastSeen
  polling seen todo latest hp := by
    rcases hq.phase with hphase | hphase
    · rw [hq.table]
      exact h.polling seen todo latest (hphase ▸ hp)
    · cases hphase.symm.trans hp

/-- The load has seen times of rows only. -/
lemma loadRows_dated {table : Table F} {rows : List (PyStr × SettingRow F)} {l l' : Loading F}
    (hrows : ∀ p ∈ rows, table.get? p.1 = some p.2) (hl : ∀ x ∈ l.latest, Dated table x)
    (h : loadRows l rows = .ok l') : ∀ x ∈ l'.latest, Dated table x := by
  induction rows generalizing l with
  | nil =>
    obtain rfl := Except.ok.inj h
    exact hl
  | cons p rows ih =>
    obtain ⟨k, r⟩ := p
    obtain ⟨hr, hrows⟩ := List.forall_mem_cons.mp hrows
    have hnewer : ∀ x ∈ newer l.latest r.updatedAt, Dated table x :=
      newer_forall hl ⟨(k, r), Dict.get?_eq_some.mp hr, le_rfl⟩
    simp only [loadRows] at h
    split at h
    · exact ih hrows hnewer h
    · split at h
      · cases h
      · exact ih hrows hnewer h

lemma AllDated.start {s s' : State F} {released : Bool} {order : Option (List PyStr)}
    (h : AllDated s) (hs : s.start released order = some s') : AllDated s' := by
  rcases State.start_cases hs with ⟨cache, secretKeys, rfl⟩ | ⟨keys, l, -, hl, rfl⟩
  · exact ⟨h.lastSeen, fun _ _ _ hp => by cases hp⟩
  · have hlatest : ∀ x ∈ l.latest, Dated s.table x :=
      loadRows_dated (fun p hp => (mem_rowsOf.mp hp).2) h.lastSeen hl
    refine ⟨fun x hx => ?_, fun _ _ _ hp => by cases hp⟩
    rcases Option.or_eq_some_iff.mp hx with hx | ⟨-, hx⟩
    · exact hlatest x hx
    · exact h.lastSeen x hx

omit [JsonRuntime F] in
lemma AllDated.select {s : State F} (h : AllDated s) (keys : List PyStr) :
    AllDated { s with phase := .polling s.table (rowsOf s.table keys) s.lastSeen } := by
  refine ⟨h.lastSeen, fun seen todo latest hp => ?_⟩
  obtain ⟨-, rfl, rfl⟩ := Phase.polling.inj hp
  exact ⟨h.lastSeen, fun p hp => ⟨p, Dict.get?_eq_some.mp (mem_rowsOf.mp hp).2, le_rfl⟩⟩

lemma AllDated.row {s : State F} {seen : Table F} {k : PyStr} {r : SettingRow F}
    {todo : List (PyStr × SettingRow F)} {latest : Option ℤ} (h : AllDated s)
    (hp : s.phase = .polling seen ((k, r) :: todo) latest) :
    AllDated (s.row seen k r todo latest) := by
  obtain ⟨hlatest, htodo⟩ := h.polling _ _ _ hp
  obtain ⟨hr, htodo⟩ := List.forall_mem_cons.mp htodo
  have hnewer : ∀ x ∈ newer latest r.updatedAt, Dated s.table x := newer_forall hlatest hr
  unfold State.row
  split
  · refine ⟨h.lastSeen, fun _ _ _ hp' => ?_⟩
    obtain ⟨-, rfl, rfl⟩ := Phase.polling.inj hp'
    exact ⟨hnewer, htodo⟩
  · split
    · exact ⟨h.lastSeen, fun _ _ _ hp => by cases hp⟩
    · refine ⟨h.lastSeen, fun _ _ _ hp' => ?_⟩
      obtain ⟨-, rfl, rfl⟩ := Phase.polling.inj hp'
      exact ⟨hnewer, htodo⟩

omit [JsonRuntime F] in
lemma AllDated.finish {s : State F} {seen : Table F} {latest : Option ℤ} (h : AllDated s)
    (hp : s.phase = .polling seen [] latest) :
    AllDated { s with lastSeen := latest.or s.lastSeen, phase := .polled seen } := by
  refine ⟨fun x hx => ?_, fun _ _ _ hp => by cases hp⟩
  rcases Option.or_eq_some_iff.mp hx with hx | ⟨-, hx⟩
  · exact (h.polling _ _ _ hp).1 x hx
  · exact h.lastSeen x hx

/-- One step of such a run keeps the times. -/
lemma AllDated.step {s s' : State F} {a : Action F} (h : AllDated s) (hg : Increasing s a)
    (hs : step s a = some s') : AllDated s' := by
  rcases step_cases hs with hq | ⟨id, t, rfl, ht, rfl⟩ | ⟨released, order, -, hs⟩ | ⟨keys, -, rfl⟩ |
    ⟨seen, k, r, todo, latest, hp, rfl⟩ | ⟨seen, latest, hp, rfl⟩
  · exact h.quiet hq
  · have hlater : ∀ l, Dated s.table l → Dated (t.apply s.table) l :=
      fun l hl => hl.apply t (hg t ht)
    refine ⟨fun l hl => hlater l (h.lastSeen l hl), fun seen todo latest hp => ?_⟩
    obtain ⟨hlatest, htodo⟩ := h.polling seen todo latest hp
    exact ⟨fun l hl => hlater l (hlatest l hl), fun p hp => hlater _ (htodo p hp)⟩
  · exact h.start hs
  · exact h.select keys
  · exact h.row hp
  · exact h.finish hp

omit [JsonRuntime F] in
/-- What commits last is ahead of the watermark. -/
lemma AllDated.timely {s : State F} {a : Action F} (h : AllDated s) (hg : Increasing s a) :
    Timely s a := by
  cases a with
  | commit id =>
    rintro t ht ⟨p, hp, -⟩
    have hlt := hg t ht p hp
    refine ⟨fun l hl => (h.lastSeen l hl).lt hlt, ?_⟩
    split
    · next seen todo latest hphase =>
      obtain ⟨hlatest, htodo⟩ := h.polling seen todo latest hphase
      exact ⟨fun l hl => (hlatest l hl).lt hlt, fun p hp => (htodo p hp).lt hlt⟩
    · trivial
  | _ => trivial

/-- Writers whose rows carry later and later times commit ahead of the watermark. -/
lemma timely_of_increasing {s : State F} (h : machine.Reach Increasing s) :
    machine.Reach Timely s := by
  have hboth : machine.Reach Timely s ∧ AllDated s := by
    induction h with
    | init hi =>
      obtain ⟨-, -, -, hlast, hphase, -⟩ := id hi
      exact ⟨.init hi, by simp [hlast], fun _ _ _ hp => nomatch hphase.symm.trans hp⟩
    | step _ hg hs ih => exact ⟨ih.1.step (ih.2.timely hg) hs, ih.2.step hg hs⟩
  exact hboth.1

/-- After a successful poll, the load of `start` had already put every row in the cache that is no
secret and was committed before the `SELECT` of the poll. -/
def AllLoaded (s : State F) : Prop :=
  ∀ seen, s.phase = .polled seen → ∀ k r, seen.get? k = some r → r.isSecret = false →
    Cached s.loaded k r

/-- **After a start that has set no watermark a poll brings nothing**: it leaves the rows that it saw
in the cache exactly when the load has put them there, and a load that found no rows has put none
there.  If rows carry later and later times, it leaves them there as well after a start that has
failed with the watermark set. -/
theorem fresh_iff_loaded {s : State F} (h : machine.Reachable s)
    (hout : s.outcome = some .failed ∨ s.outcome = some .empty) :
    (s.startSeen = none → (Fresh s ↔ AllLoaded s)) ∧
    (machine.Reach Increasing s → (Fresh s ↔ s.startSeen ≠ none ∨ AllLoaded s)) ∧
    (s.outcome = some .empty → s.loaded = .empty ∧ s.startSeen = none) := by
  have hstarted : s.outcome ≠ none := by
    rcases hout with hout | hout <;> simp [hout]
  have hstalled (hseen : s.startSeen = none) : Fresh s ↔ AllLoaded s := by
    rw [Fresh, (stalled_of_reachable h hstarted hseen).cache]
    rfl
  refine ⟨hstalled, fun hinc => ?_, (begun_of_reachable h).empty⟩
  by_cases hseen : s.startSeen = none
  · rw [hstalled hseen]
    exact (or_iff_right (not_not.mpr hseen)).symm
  · exact iff_of_true (Inv.of_reach (timely_of_increasing hinc) hseen).fresh (Or.inl hseen)

section Example

/-- A start over an empty table, an insert of `x = 1`, and a poll. -/
def emptyRun : List (Action Empty) :=
  [.start (some []) true, .tick 1, .begin 0, .write 0 (text "x") (.text (text "1")) false,
    .commit 0] ++ poll []

lemma emptyRun_ends : ((machine.run (unstarted []) emptyRun).map fun s =>
    (s.outcome, s.missed (text "x"))) = some (some .empty, true) := by
  decide +kernel

lemma emptyRun_increasing : machine.Along Increasing (unstarted []) emptyRun := by decide +kernel

lemma emptyRun_reaches : ∃ s : State Empty, machine.Reach Increasing s ∧
    s.outcome = some .empty ∧ s.missed (text "x") = true := by
  obtain ⟨s, hrun, hs⟩ := Option.map_eq_some_iff.mp emptyRun_ends
  simp only [Prod.mk.injEq] at hs
  have hinit : machine.Reach Increasing (unstarted []) :=
    .init ⟨rfl, rfl, rfl, rfl, rfl, rfl, rfl, rfl⟩
  exact ⟨s, hinit.run emptyRun_increasing hrun, hs⟩

/-- A start that has loaded `x = 1` and cannot release its connection, an update, and a poll. -/
def releasedRun : List (Action Empty) :=
  [.start (some [text "x"]) false, .tick 1, .begin 0, .write 0 (text "x") (.text (text "2")) false,
    .commit 0] ++ poll [text "x"]

lemma releasedRun_ends : ((machine.run (unstarted [loadedRow]) releasedRun).map fun s =>
    (s.outcome, s.startSeen, s.lastSeen)) = some (some .failed, some 0, some 1) := by
  decide +kernel

lemma releasedRun_increasing :
    machine.Along Increasing (unstarted [loadedRow]) releasedRun := by
  decide +kernel

/-- The updated row is in the cache after the one start, the inserted row is not after the other. -/
theorem released_fresh_empty_not :
    (∃ s : State Empty, s.outcome = some .failed ∧ s.lastSeen = some 1 ∧ Fresh s) ∧
    ∃ s : State Empty, s.outcome = some .empty ∧ ¬ Fresh s := by
  constructor
  · obtain ⟨s, hrun, hs⟩ := Option.map_eq_some_iff.mp releasedRun_ends
    simp only [Prod.mk.injEq] at hs
    obtain ⟨hout, hseen, hlast⟩ := hs
    have hinit : machine.Reach Increasing (unstarted [loadedRow]) :=
      .init ⟨rfl, rfl, rfl, rfl, rfl, rfl, rfl, rfl⟩
    have hinc : machine.Reach Increasing s := hinit.run releasedRun_increasing hrun
    obtain ⟨-, hiff, -⟩ := fresh_iff_loaded hinc.reachable (Or.inl hout)
    exact ⟨s, hout, hlast, (hiff hinc).mpr (Or.inl (by simp [hseen]))⟩
  · obtain ⟨s, hreach, hout, hmissed⟩ := emptyRun_reaches
    obtain ⟨hiff, -, hempty⟩ := fresh_iff_loaded hreach.reachable (Or.inr hout)
    obtain ⟨hloaded, hseen⟩ := hempty hout
    refine ⟨s, hout, fun hfresh => ?_⟩
    obtain ⟨seen, r, hp, hr, hsec, -⟩ := s.missed_seen hmissed
    obtain ⟨v, -, hv⟩ := (hiff hseen).mp hfresh seen hp _ r hr hsec
    rw [hloaded] at hv
    cases hv

/-- The row that is inserted after an empty start is never in the cache. -/
theorem inserted_row_is_missed :
    ∃ s : State Empty, machine.Reach Increasing s ∧ s.outcome = some .empty ∧ ¬ Fresh s := by
  obtain ⟨s, hreach, hout, hmissed⟩ := emptyRun_reaches
  exact ⟨s, hreach, hout, s.missed_not_fresh hmissed⟩

end Example

end Omkit.Settings
