import Omkit.Featureflags.Store

/-!
# Overlapping refreshes

A refresh looks at nothing when it gets the lock: it calls the refresher, also if another refresh has
just published.  So every refresh of a group calls the refresher once.
-/

namespace Omkit.Featureflags

open Lib

/-- The refreshes that have called the refresher, the latest one first. -/
def began : List Event → List ℕ
  | [] => []
  | .began id :: log => id :: began log
  | _ :: log => began log

/-- The event that ends a refresh. -/
def Ends (id : ℕ) (e : Event) : Prop := (∃ fresh, e = .published id fresh) ∨ e = .failed id

/-- The calls of the refresher that a group of refreshes makes. -/
def invocations (group : List ℕ) (log : List Event) : List ℕ :=
  (began log).filter fun id => id ∈ group

/-- The refresher was called exactly once for a group of refreshes, and when a refresh of the group
ended the last result was the one of that call. -/
def Collapsed (group : List ℕ) (fresh : Dict PyStr Flag) (log : List Event) : Prop :=
  (invocations group log).length = 1 ∧ ∀ id ∈ group, ∃ newer e older,
    log = newer ++ e :: older ∧ Ends id e ∧ lastResult (e :: older) = fresh

/-- Each coroutine comes to the lock once, and the refreshes that have ended had called the
refresher. -/
structure Once (s : State) : Prop where
  waiting : (s.waiting.map Prod.fst).Nodup
  issued : ∀ id ∈ s.waiting.map Prod.fst, id < s.calls
  begun : ∀ id ∈ began s.log, id < s.calls ∧ id ∉ s.waiting.map Prod.fst
  nodup : (began s.log).Nodup
  holder : ∀ id, s.lock = some id → id ∈ began s.log
  ended : ∀ id, (∃ e ∈ s.log, Ends id e) → id ∈ began s.log

variable {s t : State}

namespace Once

/-- Waiting coroutines leave, and the lock may be released. -/
lemma leave (h : Once s) {waiting : List (ℕ × Work)} (hsub : waiting.Sublist s.waiting)
    (hcalls : t.calls = s.calls) (hwaiting : t.waiting = waiting) (hlog : t.log = s.log)
    (hlock : ∀ id, t.lock = some id → s.lock = some id) : Once t := by
  have hsub' : (t.waiting.map Prod.fst).Sublist (s.waiting.map Prod.fst) := hwaiting ▸ hsub.map _
  exact
    { waiting := h.waiting.sublist hsub'
      issued := fun id hid => hcalls ▸ h.issued id (hsub'.subset hid)
      begun := fun id hid => by
        obtain ⟨hlt, hnot⟩ := h.begun id (hlog ▸ hid)
        exact ⟨hcalls ▸ hlt, fun hin => hnot (hsub'.subset hin)⟩
      nodup := hlog ▸ h.nodup
      holder := fun id hid => hlog ▸ h.holder id (hlock id hid)
      ended := fun id hid => hlog ▸ h.ended id (hlog ▸ hid) }

/-- A coroutine starts. -/
lemma start (h : Once s) (work : Work) : Once (s.start work) := by
  have hmap : (s.start work).waiting.map Prod.fst = s.waiting.map Prod.fst ++ [s.calls] := by
    simp [State.start]
  have hfresh : s.calls ∉ s.waiting.map Prod.fst := fun hin => lt_irrefl _ (h.issued _ hin)
  refine
    { waiting := ?waiting
      issued := fun id hid => ?issued
      begun := fun id hid => ?begun
      nodup := h.nodup
      holder := h.holder
      ended := h.ended }
  case waiting =>
    rw [hmap]
    exact List.nodup_append.mpr ⟨h.waiting, by simp, fun a ha b hb heq =>
      hfresh (List.mem_singleton.mp hb ▸ heq ▸ ha)⟩
  case issued =>
    rw [hmap, List.mem_append, List.mem_singleton] at hid
    rcases hid with hid | rfl
    · exact (h.issued id hid).trans (Nat.lt_succ_self _)
    · exact Nat.lt_succ_self _
  case begun =>
    obtain ⟨hlt, hnot⟩ := h.begun id hid
    rw [hmap, List.mem_append, List.mem_singleton]
    exact ⟨hlt.trans (Nat.lt_succ_self _), not_or.mpr ⟨hnot, hlt.ne⟩⟩

/-- An event that neither begins nor ends a refresh, or that ends the one that holds the lock. -/
lemma log_cons (h : Once s) {e : Event} {flags : Dict PyStr Flag} {lastRefreshed : ℚ}
    (hbegan : began (e :: s.log) = began s.log)
    (hends : ∀ id, Ends id e → s.lock = some id) :
    Once { s with flags, lastRefreshed, lock := none, log := e :: s.log } where
  waiting := h.waiting
  issued := h.issued
  begun id hid := h.begun id (hbegan ▸ hid)
  nodup := hbegan.symm ▸ h.nodup
  holder id hid := nomatch hid
  ended id hid := by
    obtain ⟨e', he', hid⟩ := hid
    show id ∈ began (e :: s.log)
    rw [hbegan]
    rcases List.mem_cons.mp he' with rfl | hold
    · exact h.holder id (hends id hid)
    · exact h.ended id ⟨e', hold, hid⟩

/-- A coroutine gets the lock. -/
lemma enter (h : Once s) (hlock : s.lock = none) {id : ℕ} {work : Work}
    (hw : s.waiting.lookup id = some work) : Once (s.enter id work) := by
  have hin : id ∈ s.waiting.map Prod.fst :=
    List.mem_map_of_mem ((Dict.lookup_eq_some h.waiting).mp hw)
  have hleft : Once { s with waiting := s.waiting.filter fun p => p.1 ≠ id } :=
    h.leave List.filter_sublist rfl rfl rfl fun _ hid => hid
  cases work with
  | invalidate key =>
    have hends : ∀ i, Ends i (.invalidated key) → s.lock = some i := by
      rintro i (⟨fresh, he⟩ | he) <;> cases he
    have hdone : Once { s with
        waiting := s.waiting.filter fun p => p.1 ≠ id
        flags := s.flags.pop key
        lock := none
        log := .invalidated key :: s.log } := hleft.log_cons rfl hends
    simpa [State.enter, hlock] using hdone
  | refresh =>
    have hnew : id ∉ began s.log := fun hb => (h.begun id hb).2 hin
    refine
      { waiting := hleft.waiting
        issued := hleft.issued
        begun := fun i hi => ?begun
        nodup := List.nodup_cons.mpr ⟨hnew, h.nodup⟩
        holder := fun i hi => ?holder
        ended := fun i hi => ?ended }
    case begun =>
      rcases List.mem_cons.mp hi with rfl | hi
      · refine ⟨h.issued i hin, fun hmem => ?_⟩
        obtain ⟨p, hp, rfl⟩ := List.mem_map.mp hmem
        simpa using List.of_mem_filter hp
      · exact hleft.begun i hi
    case holder =>
      obtain rfl := Option.some.inj hi
      exact List.mem_cons_self
    case ended =>
      obtain ⟨e, he, hends⟩ := hi
      rcases List.mem_cons.mp he with rfl | he
      · rcases hends with ⟨fresh, heq⟩ | heq <;> cases heq
      · exact List.mem_cons_of_mem _ (h.ended i ⟨e, he, hends⟩)

/-- One step comes to the lock at most once. -/
lemma step (h : Once s) {a : Action} (hs : step s a = some t) : Once t := by
  cases move_of_step hs with
  | tick => exact h.leave (.refl _) rfl rfl rfl fun _ hid => hid
  | fresh => exact h
  | kick => exact h.start .refresh
  | @call work => exact h.start work
  | enter hlock hwork => exact h.enter hlock hwork
  | publish hlock =>
    refine h.log_cons rfl ?_
    rintro i (⟨fresh', he⟩ | he)
    · exact (Event.published.inj he).1 ▸ hlock
    · cases he
  | fail hlock =>
    refine h.log_cons rfl ?_
    rintro i (⟨fresh', he⟩ | he)
    · cases he
    · exact Event.failed.inj he ▸ hlock
  | release =>
    refine h.leave (.refl _) rfl rfl rfl ?_
    rintro _ ⟨⟩
  | leave => exact h.leave List.filter_sublist rfl rfl rfl fun _ hid => hid

end Once

lemma once_of_reachable (h : machine.Reachable s) : Once s := by
  refine h.invariant ?_ fun _ _ _ honce hs => honce.step hs
  rintro _ ⟨ttl, now, rfl⟩
  exact ⟨by simp, by simp, by simp [began], by simp [began], by simp, by simp⟩

/-- Every refresh that has ended called the refresher once. -/
lemma invocations_perm (h : machine.Reachable s) {group : List ℕ} (hgroup : group.Nodup)
    (hended : ∀ id ∈ group, ∃ e ∈ s.log, Ends id e) : (invocations group s.log).Perm group := by
  have honce := once_of_reachable h
  refine (List.perm_ext_iff_of_nodup (honce.nodup.filter _) hgroup).mpr fun id => ?_
  rw [List.mem_filter, decide_eq_true_eq]
  exact and_iff_right_of_imp fun hid => honce.ended id (hended id hid)

/-- **A group of refreshes that have ended, the first of them with a result, has collapsed to one call
of the refresher exactly if it has no other member.** -/
theorem collapsed_iff (h : machine.Reachable s) {first : ℕ} {rest : List ℕ}
    (hgroup : (first :: rest).Nodup) {fresh : Dict PyStr Flag}
    (hfirst : .published first fresh ∈ s.log) (hended : ∀ id ∈ rest, ∃ e ∈ s.log, Ends id e) :
    Collapsed (first :: rest) fresh s.log ↔ rest = [] := by
  have hfirst' : ∃ e ∈ s.log, Ends first e := ⟨_, hfirst, Or.inl ⟨fresh, rfl⟩⟩
  have hlength := (invocations_perm h hgroup (List.forall_mem_cons.mpr ⟨hfirst', hended⟩)).length_eq
  rw [List.length_cons] at hlength
  constructor
  · rintro ⟨hone, -⟩
    exact List.length_eq_zero_iff.mp (by omega)
  · rintro rfl
    refine ⟨by simpa using hlength, List.forall_mem_singleton.mpr ?_⟩
    obtain ⟨newer, older, hlog⟩ := List.append_of_mem hfirst
    exact ⟨newer, _, older, hlog, Or.inl ⟨fresh, rfl⟩, rfl⟩

/-- A refresh that waits for the lock or holds it. -/
def InFlight (id : ℕ) (s : State) : Prop := s.lock = some id ∨ (id, .refresh) ∈ s.waiting

/-- In a run the refresh `id` is called while the refresh `first` is in flight. -/
def CalledDuring (s : State) (actions : List Action) (first id : ℕ) : Prop :=
  ∃ earlier a later u v, actions = earlier ++ a :: later ∧ machine.run s earlier = some u ∧
    step u a = some v ∧ InFlight first u ∧ ¬ InFlight id u ∧ InFlight id v

section Example

/-- A refresh, with nothing else. -/
def aloneRun : List Action := [.call .refresh, .acquire 0, .publish 0 .empty]

lemma aloneRun_ends : (machine.run newStore aloneRun).isSome = true := by decide +kernel

theorem alone_collapsed :
    Collapsed [0] .empty ((machine.run newStore aloneRun).get aloneRun_ends).log := by
  have hinit : machine.init newStore := ⟨30, 100, rfl⟩
  have hreach : machine.Reachable ((machine.run newStore aloneRun).get aloneRun_ends) :=
    (Machine.Reachable.init hinit).run (Option.some_get _).symm
  have hlog : ((machine.run newStore aloneRun).get aloneRun_ends).log =
      [.published 0 .empty, .began 0] := rfl
  exact (collapsed_iff hreach (List.nodup_singleton 0) (by simp [hlog]) (by simp)).mpr rfl

/-- A second refresh is called while the first one awaits its refresher. -/
def overlappingRun : List Action :=
  [.call .refresh, .acquire 0, .call .refresh, .publish 0 .empty, .acquire 1, .publish 1 .empty]

lemma overlappingRun_ends : (machine.run newStore overlappingRun).isSome = true := by decide +kernel

/-- Two overlapping refreshes call the refresher twice. -/
theorem overlapping_not_collapsed : ¬ ∀ (s t : State) (actions : List Action) (first : ℕ)
    (rest : List ℕ) (fresh : Dict PyStr Flag), machine.init s → machine.run s actions = some t →
    (first :: rest).Nodup → (∀ id ∈ rest, CalledDuring s actions first id) →
    .published first fresh ∈ t.log → (∀ id ∈ rest, ∃ e ∈ t.log, Ends id e) →
    Collapsed (first :: rest) fresh t.log := by
  intro hall
  have hinit : machine.init newStore := ⟨30, 100, rfl⟩
  have hlog : ((machine.run newStore overlappingRun).get overlappingRun_ends).log =
      [.published 1 .empty, .began 1, .published 0 .empty, .began 0] := rfl
  have hduring : CalledDuring newStore overlappingRun 0 1 :=
    ⟨[.call .refresh, .acquire 0], .call .refresh, _, _, _, rfl, rfl, rfl, Or.inl rfl,
      by simp [InFlight, State.enter, State.start, newStore], Or.inr (List.mem_singleton.mpr rfl)⟩
  have hended : ∃ e ∈ ((machine.run newStore overlappingRun).get overlappingRun_ends).log,
      Ends 1 e := ⟨.published 1 .empty, by simp [hlog], Or.inl ⟨_, rfl⟩⟩
  have hone := (hall _ _ _ 0 [1] .empty hinit (Option.some_get overlappingRun_ends).symm (by decide)
    (List.forall_mem_singleton.mpr hduring) (by simp [hlog])
    (List.forall_mem_singleton.mpr hended)).1
  rw [hlog] at hone
  exact absurd hone (by decide)

end Example

end Omkit.Featureflags
