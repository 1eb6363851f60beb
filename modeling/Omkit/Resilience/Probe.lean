import Omkit.Resilience.Window

/-!
# The probe

A half-open breaker admits every call, so it has a single probe as long as no second call arrives
before the outcome of the first one.
-/

namespace Omkit.Resilience

open Lib

variable {s s' : State}

/-- How far the probe of a half-open breaker has got. -/
inductive Probe
  | none
  /-- The breaker has turned half open, and no call has arrived. -/
  | awaited
  /-- The call that was admitted first, whose outcome is not recorded yet. -/
  | outstanding (id : ℕ)
deriving DecidableEq

/-- The probe after an event. -/
def Probe.after : Event → Probe → Probe
  | .turned, .outstanding id => .outstanding id
  | .turned, _ => .awaited
  | .admitted id _, .awaited => .outstanding id
  | .succeeded _, .awaited | .failed _, .awaited => .none
  | .succeeded id, .outstanding i | .failed id, .outstanding i =>
    if id = i then .none else .outstanding i
  | _, p => p

/-- The probe of a history. -/
def probe : List Event → Probe
  | [] => .none
  | e :: log => (probe log).after e

/-- No call was admitted while the outcome of a probe was outstanding. -/
def SingleProbe : List Event → Prop
  | [] => True
  | .admitted _ _ :: log => (∀ i, probe log ≠ .outstanding i) ∧ SingleProbe log
  | _ :: log => SingleProbe log

/-- The latest failure that opened the circuit, unless the breaker has turned half open since or a
call has succeeded, and whether `state` was read since. -/
def openedAgain : List Event → Option (ℚ × Bool)
  | [] => none
  | .opened t :: _ => some (t, false)
  | .turned :: _ | .succeeded _ :: _ => none
  | .looked :: log => (openedAgain log).map fun p => (p.1, true)
  | _ :: log => openedAgain log

/-- A call that arrives while the outcome of a probe is outstanding comes after a failure of some
other call that opened the circuit again, in its window or as the first one to read `state`. -/
def OnlyReopened (s : State) : Action → Prop
  | .call => ∀ i, probe s.log = .outstanding i → ∃ t looked, openedAgain s.log = some (t, looked) ∧
      (looked = true → s.now < t + s.breaker.resetTimeout)
  | _ => True

/-- What the history says about an open breaker. -/
structure Reopened (s : State) : Prop where
  notOpened : openedAgain s.log = none → s.breaker.status ≠ .opened
  opened : ∀ t looked, openedAgain s.log = some (t, looked) → s.breaker.status = .opened ∧
    s.breaker.openedAt = t ∧ s.breaker.openObserved = looked

lemma Reopened.new {failMax : ℤ} {resetTimeout now : ℚ} :
    Reopened ⟨.new failMax resetTimeout, now, 0, [], []⟩ where
  notOpened _ := by simp [Breaker.new]
  opened t looked ht := by simp [openedAgain] at ht

/-- Events after which the circuit is open exactly if it was before. -/
lemma Reopened.congr (h : Reopened s) (hb : s'.breaker = s.breaker)
    (hlog : openedAgain s'.log = openedAgain s.log) : Reopened s' where
  notOpened hno := by
    rw [hb]
    exact h.notOpened (hlog ▸ hno)
  opened t looked ht := by
    rw [hb]
    exact h.opened t looked (hlog ▸ ht)

lemma Reopened.read (h : Reopened s) : Reopened s.read := by
  cases hopen : openedAgain s.log with
  | none =>
    have hne := h.notOpened hopen
    have hread : s.read = { s with log := .looked :: s.log } := by
      simp [State.read, Breaker.readState, hne]
    rw [hread]
    exact h.congr rfl (by simp [openedAgain, hopen])
  | some p =>
    obtain ⟨t, looked⟩ := p
    obtain ⟨ho, rfl, rfl⟩ := h.opened t looked hopen
    by_cases hover : s.breaker.openObserved ∧ s.now - s.breaker.openedAt ≥ s.breaker.resetTimeout
    · -- The window is over, and the state was read in it: the breaker turns half open.
      have hread : s.read =
          { s with breaker := { s.breaker with status := .halfOpen }, log := .turned :: s.log } := by
        simp [State.read, Breaker.readState, ho, hover]
      rw [hread]
      exact ⟨fun _ => by simp, fun t looked ht => by simp [openedAgain] at ht⟩
    · have hread : s.read = { s with
          breaker := { s.breaker with openObserved := true }, log := .looked :: s.log } := by
        simp [State.read, Breaker.readState, ho, hover]
      rw [hread]
      refine ⟨fun hno => by simp [openedAgain, hopen] at hno, fun t looked ht => ?_⟩
      obtain ⟨rfl, rfl⟩ : s.breaker.openedAt = t ∧ true = looked := by
        simpa [openedAgain, hopen] using ht
      exact ⟨ho, rfl, rfl⟩

lemma Reopened.call (h : Reopened s) : Reopened s.call := by
  rcases s.call_cases with ⟨-, hcall⟩ | ⟨-, hcall⟩ <;> rw [hcall] <;> exact h.read.congr rfl rfl

lemma Reopened.succeed (id : ℕ) : Reopened (s.succeed id) where
  notOpened _ := by simp [State.succeed, Breaker.recordSuccess]
  opened t looked ht := by simp [State.succeed, openedAgain] at ht

lemma Reopened.fail (h : Reopened s) (id : ℕ) : Reopened (s.fail id) := by
  rcases s.fail_log id with ⟨ho, hlog⟩ | ⟨ho, hlog⟩
  · refine ⟨fun hno => by simp [hlog, openedAgain] at hno, fun t looked ht => ?_⟩
    obtain ⟨rfl, rfl⟩ : s.now = t ∧ false = looked := by simpa [hlog, openedAgain] using ht
    simp [State.fail, Breaker.recordFailure, ho]
  · have hopen : openedAgain (s.fail id).log = openedAgain s.log := by rw [hlog]; rfl
    have hfail : (s.fail id).breaker = { s.breaker with failures := s.breaker.failures + 1 } := by
      simp [State.fail, Breaker.recordFailure, ho]
    refine ⟨fun hno => ?_, fun t looked ht => ?_⟩
    · rw [hfail]
      exact h.notOpened (hopen ▸ hno)
    · rw [hfail]
      exact h.opened t looked (hopen ▸ ht)

/-- Every step keeps the invariant. -/
theorem Reopened.step {a : Action} (h : Reopened s) (hs : step s a = some s') : Reopened s' := by
  cases move_of_step hs with
  | tick ht => exact h.congr rfl rfl
  | read => exact h.read
  | call => exact h.call
  | succeed hid => exact .succeed _
  | fail hid => exact h.fail _
  | abandon hid => exact h.congr rfl rfl

/-- A reading finds the circuit open exactly if a failure has opened it again, and its window is not
over or this is the first reading. -/
lemma Reopened.read_opened (h : Reopened s) : s.read.breaker.status = .opened ↔
    ∃ t looked, openedAgain s.log = some (t, looked) ∧
      (looked = true → s.now < t + s.breaker.resetTimeout) := by
  have hread : s.read.breaker.status = .opened ↔ _ := Breaker.readState_opened
  rw [hread]
  constructor
  · rintro ⟨ho, hwin⟩
    cases hopen : openedAgain s.log with
    | none => exact absurd ho (h.notOpened hopen)
    | some p =>
      obtain ⟨-, hat, hobs⟩ := h.opened p.1 p.2 hopen
      exact ⟨p.1, p.2, rfl, fun hp => by linarith [hwin (hobs.trans hp)]⟩
  · rintro ⟨t, looked, hopen, hwin⟩
    obtain ⟨ho, rfl, rfl⟩ := h.opened t looked hopen
    exact ⟨ho, fun hobs => by linarith [hwin hobs]⟩

lemma singleProbe_read : SingleProbe s.read.log ↔ SingleProbe s.log := by
  rcases s.read_log with hlog | hlog <;> rw [hlog] <;> rfl

/-- A reading does not end a probe, and does not begin one. -/
lemma probe_read {i : ℕ} : probe s.read.log = .outstanding i ↔ probe s.log = .outstanding i := by
  rcases s.read_log with hlog | hlog <;> rw [hlog, probe] <;>
    cases probe s.log <;> simp [Probe.after]

lemma SingleProbe.call (h : Reopened s) (hx : SingleProbe s.log) :
    SingleProbe s.call.log ↔ OnlyReopened s .call := by
  simp only [OnlyReopened]
  rw [← h.read_opened]
  rcases s.call_cases with ⟨hrej, hcall⟩ | ⟨hadm, hcall⟩ <;> rw [hcall]
  · exact iff_of_true (singleProbe_read.mpr hx) fun _ _ => hrej
  · constructor
    · exact fun ⟨hnone, _⟩ i hi => absurd (probe_read.mpr hi) (hnone i)
    · exact fun hg => ⟨fun i hi => hadm (hg i (probe_read.mp hi)), singleProbe_read.mpr hx⟩

lemma SingleProbe.fail (hx : SingleProbe s.log) (id : ℕ) : SingleProbe (s.fail id).log := by
  rcases s.fail_log id with ⟨-, hlog⟩ | ⟨-, hlog⟩ <;> rw [hlog] <;> exact hx

/-- A step after which there was a single probe is no second call on a half-open breaker. -/
theorem singleProbe_step {a : Action} (h : Reopened s) (hx : SingleProbe s.log)
    (hs : step s a = some s') : SingleProbe s'.log ↔ OnlyReopened s a := by
  cases move_of_step hs with
  | tick ht => exact iff_of_true hx trivial
  | read => exact iff_of_true (singleProbe_read.mpr hx) trivial
  | call => exact hx.call h
  | succeed hid => exact iff_of_true hx trivial
  | fail hid => exact iff_of_true (hx.fail _) trivial
  | abandon hid => exact iff_of_true hx trivial

/-- **A half-open breaker admits a single probe in a run exactly when every call that arrives while
the outcome of a probe is outstanding does so after a failure that opened the circuit again, with no
success since, in its window or as the first one to read the state.** -/
theorem singleProbe_throughout_iff {failMax : ℤ} {resetTimeout : ℚ} {as : List Action}
    (hi : (machine failMax resetTimeout).init s)
    (hr : (machine failMax resetTimeout).run s as = some s') :
    (machine failMax resetTimeout).Throughout (fun s => SingleProbe s.log) s as ↔
      (machine failMax resetTimeout).Along OnlyReopened s as := by
  refine Machine.throughout_iff_along (fun s hi => ?_) (fun s a t hs hx ht => ?_) hi hr
  · obtain ⟨now, rfl⟩ := hi
    exact trivial
  · refine singleProbe_step (hs.invariant ?_ fun _ _ _ h _ hs => h.step hs) hx ht
    rintro s ⟨now, rfl⟩
    exact .new

section Example

instance decidableOnlyReopened (s : State) : (a : Action) → Decidable (OnlyReopened s a)
  | .call =>
    match h : probe s.log with
    | .outstanding id => decidable_of_iff
        (∃ p ∈ openedAgain s.log, p.2 = true → s.now < p.1 + s.breaker.resetTimeout)
        ⟨fun ⟨p, hp, hwin⟩ _ _ => ⟨p.1, p.2, hp, hwin⟩,
          fun hall => (hall id h).elim fun t ⟨looked, hp, hwin⟩ => ⟨(t, looked), hp, hwin⟩⟩
    | .none | .awaited => isTrue fun _ hi => nomatch h.symm.trans hi
  | .tick _ | .read | .succeed _ | .fail _ | .abandon _ => isTrue trivial

/-- Two calls are admitted, one fails and opens the circuit, and its window passes.  While the
outcome of the probe is outstanding the other one fails, and calls are rejected again. -/
def reopenedRun : List Action :=
  [.call, .call, .fail 0, .call, .tick 61, .call, .fail 1, .call, .tick 100, .call, .succeed 3]

lemma reopenedRun_ends : ((machine 1 60).run fresh reopenedRun).isSome = true := by decide +kernel

theorem reopenedRun_singleProbe :
    (machine 1 60).Throughout (fun s => SingleProbe s.log) fresh reopenedRun := by
  obtain ⟨s, hs⟩ := Option.isSome_iff_exists.mp reopenedRun_ends
  exact (singleProbe_throughout_iff ⟨0, rfl⟩ hs).mpr (by decide +kernel)

/-- A breaker that has rejected a call admits the next two, both of them in the half-open state. -/
theorem two_probes : ∃ s : State, (machine 1 60).Reachable s ∧ ¬ SingleProbe s.log := by
  have hrun : ((machine 1 60).run fresh
      [.call, .fail 0, .call, .tick 60, .call, .call]).map (fun s => s.log) =
        some [.admitted 3 60, .looked, .admitted 2 60, .turned, .rejected 1, .looked, .opened 0,
          .failed 0, .admitted 0 0, .looked] := by
    decide +kernel
  obtain ⟨s, hs, hlog⟩ := Option.map_eq_some_iff.mp hrun
  have hinit : (machine 1 60).Reachable fresh := .init ⟨0, rfl⟩
  refine ⟨s, hinit.run hs, fun hx => ?_⟩
  rw [hlog] at hx
  exact hx.1 2 rfl

end Example

end Omkit.Resilience
