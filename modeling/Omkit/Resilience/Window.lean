import Omkit.Resilience.Breaker

/-!
# The open window

A circuit that opens stays shut for its whole window as long as no call that was admitted before
succeeds: a late success closes it.
-/

namespace Omkit.Resilience

open Lib

/-- No call was admitted in the window of an earlier opening. -/
def Shut (s : State) : Prop :=
  s.log.Pairwise fun later earlier => ∀ id t t₀, later = .admitted id t → earlier = .opened t₀ →
    t₀ + s.breaker.resetTimeout ≤ t

/-- The latest opening of the circuit, and whether a call has succeeded since. -/
def sinceOpening : List Event → Option (ℚ × Bool)
  | [] => none
  | .opened t :: _ => some (t, false)
  | .succeeded _ :: log => (sinceOpening log).map fun p => (p.1, true)
  | _ :: log => sinceOpening log

/-- No call arrives in the window of the latest opening after a call has succeeded. -/
def NoLateSuccess (s : State) : Action → Prop
  | .call => ∀ t₀, sinceOpening s.log = some (t₀, true) → t₀ + s.breaker.resetTimeout ≤ s.now
  | _ => True

/-- What the history says about the breaker. -/
structure Inv (s : State) : Prop where
  /-- Every opening is at most as late as the latest one. -/
  latest : ∀ t, .opened t ∈ s.log → ∃ p, sinceOpening s.log = some p ∧ t ≤ p.1
  mem : ∀ p, sinceOpening s.log = some p → .opened p.1 ∈ s.log
  past : ∀ p, sinceOpening s.log = some p → p.1 ≤ s.now
  /-- The circuit is closed unless the latest opening is later than any success. -/
  closed : (∀ t, sinceOpening s.log ≠ some (t, false)) → s.breaker.status = .closed
  notClosed : ∀ t, sinceOpening s.log = some (t, false) → s.breaker.status ≠ .closed ∧
    s.breaker.openedAt = t ∧
    (s.breaker.status = .halfOpen → t + s.breaker.resetTimeout ≤ s.now)

variable {s s' : State}

@[simp] lemma sinceOpening_read : sinceOpening s.read.log = sinceOpening s.log := by
  rcases s.read_log with hlog | hlog <;> rw [hlog] <;> rfl

lemma opened_mem_read {t : ℚ} : .opened t ∈ s.read.log ↔ .opened t ∈ s.log := by
  rcases s.read_log with hlog | hlog <;> simp [hlog]

lemma Inv.new {failMax : ℤ} {resetTimeout now : ℚ} :
    Inv ⟨.new failMax resetTimeout, now, 0, [], []⟩ where
  latest t ht := by simp at ht
  mem p hp := by simp [sinceOpening] at hp
  past p hp := by simp [sinceOpening] at hp
  closed _ := rfl
  notClosed t ht := by simp [sinceOpening] at ht

lemma Inv.read (h : Inv s) : Inv s.read where
  latest t ht := by
    rw [sinceOpening_read]
    exact h.latest t (opened_mem_read.mp ht)
  mem p hp := opened_mem_read.mpr (h.mem p (sinceOpening_read ▸ hp))
  past p hp := h.past p (sinceOpening_read ▸ hp)
  closed hno := by
    rw [sinceOpening_read] at hno
    exact Breaker.readState_closed.mpr (h.closed hno)
  notClosed t ht := by
    rw [sinceOpening_read] at ht
    obtain ⟨hne, hat, hover⟩ := h.notClosed t ht
    refine ⟨fun hc => hne (Breaker.readState_closed.mp hc), by simpa [State.read] using hat,
      fun hh => ?_⟩
    simp only [State.read, Breaker.readState_resetTimeout]
    rcases Breaker.readState_halfOpen hh with hh | ⟨-, hwin⟩
    · exact hover hh
    · exact hat ▸ hwin

/-- Events that are neither openings nor successes. -/
lemma Inv.congr (h : Inv s) (hb : s'.breaker = s.breaker) (hnow : s.now ≤ s'.now)
    (hsince : sinceOpening s'.log = sinceOpening s.log)
    (hmem : ∀ t, .opened t ∈ s'.log ↔ .opened t ∈ s.log) : Inv s' where
  latest t ht := by
    rw [hsince]
    exact h.latest t ((hmem t).mp ht)
  mem p hp := (hmem p.1).mpr (h.mem p (hsince ▸ hp))
  past p hp := (h.past p (hsince ▸ hp)).trans hnow
  closed hno := by
    rw [hb]
    exact h.closed (hsince ▸ hno)
  notClosed t ht := by
    rw [hb]
    obtain ⟨hne, hat, hover⟩ := h.notClosed t (hsince ▸ ht)
    exact ⟨hne, hat, fun hh => (hover hh).trans hnow⟩

lemma Inv.succeed (h : Inv s) (id : ℕ) : Inv (s.succeed id) where
  latest t ht := by
    have hmem : .opened t ∈ s.log := by simpa [State.succeed] using ht
    obtain ⟨p, hp, hle⟩ := h.latest t hmem
    exact ⟨(p.1, true), by simp [State.succeed, sinceOpening, hp], hle⟩
  mem p hp := by
    obtain ⟨q, hq, rfl⟩ := Option.map_eq_some_iff.mp hp
    simpa [State.succeed] using h.mem q hq
  past p hp := by
    obtain ⟨q, hq, rfl⟩ := Option.map_eq_some_iff.mp hp
    exact h.past q hq
  closed _ := rfl
  notClosed t ht := by
    obtain ⟨q, -, hq⟩ := Option.map_eq_some_iff.mp ht
    simp at hq

lemma Inv.fail (h : Inv s) (id : ℕ) : Inv (s.fail id) := by
  rcases s.fail_log id with ⟨ho, hlog⟩ | ⟨ho, hlog⟩
  · have hsince : sinceOpening (s.fail id).log = some (s.now, false) := by rw [hlog]; rfl
    refine ⟨fun t ht => ⟨_, hsince, ?_⟩, fun p hp => ?_, fun p hp => ?_, fun hno => ?_,
      fun t ht => ?_⟩
    · rw [hlog] at ht
      simp only [List.mem_cons, Event.opened.injEq, reduceCtorEq, false_or] at ht
      rcases ht with rfl | ht
      · exact le_rfl
      · obtain ⟨p, hp, hle⟩ := h.latest t ht
        exact hle.trans (h.past p hp)
    · obtain rfl := Option.some.inj (hsince.symm.trans hp)
      simp [hlog]
    · obtain rfl := Option.some.inj (hsince.symm.trans hp)
      exact le_rfl
    · exact absurd hsince (hno s.now)
    · obtain rfl : s.now = t := by simpa using hsince.symm.trans ht
      simp [State.fail, Breaker.recordFailure, ho]
  · have hsince : sinceOpening (s.fail id).log = sinceOpening s.log := by rw [hlog]; rfl
    refine ⟨fun t ht => ?_, fun p hp => ?_, fun p hp => ?_, fun hno => ?_, fun t ht => ?_⟩
    · rw [hsince]
      exact h.latest t (by simpa [hlog] using ht)
    · simpa [hlog] using h.mem p (hsince ▸ hp)
    · exact h.past p (hsince ▸ hp)
    · simpa [State.fail, Breaker.recordFailure, ho] using h.closed (hsince ▸ hno)
    · simpa [State.fail, Breaker.recordFailure, ho] using h.notClosed t (hsince ▸ ht)

lemma Inv.call (h : Inv s) : Inv s.call := by
  rcases s.call_cases with ⟨-, hcall⟩ | ⟨-, hcall⟩ <;> rw [hcall]
  · exact h.read.congr rfl le_rfl rfl fun t => by simp
  · exact h.read.congr rfl le_rfl rfl fun t => by simp

/-- Every step keeps the invariant. -/
theorem Inv.step {a : Action} (h : Inv s) (hs : step s a = some s') : Inv s' := by
  cases move_of_step hs with
  | tick ht => exact h.congr rfl ht rfl fun _ => Iff.rfl
  | read => exact h.read
  | call => exact h.call
  | succeed hid => exact h.succeed _
  | fail hid => exact h.fail _
  | abandon hid => exact h.congr rfl le_rfl rfl fun _ => Iff.rfl

/-- Events that admit no call keep the windows shut. -/
lemma Shut.cons {e : Event} {log : List Event} {b : Breaker} (hb : b.resetTimeout =
      s.breaker.resetTimeout) (he : ∀ id t, e ≠ .admitted id t)
    (h : log.Pairwise fun later earlier => ∀ id t t₀, later = .admitted id t →
      earlier = .opened t₀ → t₀ + s.breaker.resetTimeout ≤ t) :
    (e :: log).Pairwise fun later earlier => ∀ id t t₀, later = .admitted id t →
      earlier = .opened t₀ → t₀ + b.resetTimeout ≤ t := by
  rw [hb]
  exact List.pairwise_cons.mpr ⟨fun _ _ id t _ heq => absurd heq (he id t), h⟩

lemma Shut.read (h : Shut s) : Shut s.read := by
  have hreset : s.read.breaker.resetTimeout = s.breaker.resetTimeout :=
    Breaker.readState_resetTimeout
  rw [Shut, hreset]
  rcases s.read_log with hlog | hlog <;> rw [hlog]
  · exact Shut.cons rfl (fun _ _ heq => nomatch heq) h
  · exact Shut.cons rfl (fun _ _ heq => nomatch heq) h

lemma Shut.call (h : Inv s) (hx : Shut s) : Shut s.call ↔ NoLateSuccess s .call := by
  have hx' := hx.read
  rcases s.call_cases with ⟨hrej, hcall⟩ | ⟨hadm, hcall⟩ <;> rw [hcall]
  · -- A rejected call finds the circuit open, so the latest opening is later than any success.
    refine iff_of_true (Shut.cons rfl (fun _ _ heq => nomatch heq) hx') fun t₀ ht => ?_
    have hclosed : s.read.breaker.status = .closed := h.read.closed fun t hf => by
      rw [sinceOpening_read, ht] at hf
      simp at hf
    exact absurd (hrej.symm.trans hclosed) (by decide)
  · have hlog : Shut { s.read with
        calls := s.calls + 1, inFlight := s.calls :: s.inFlight
        log := .admitted s.calls s.now :: s.read.log } ↔
        ∀ t₀, .opened t₀ ∈ s.log → t₀ + s.breaker.resetTimeout ≤ s.now := by
      rw [Shut, List.pairwise_cons]
      constructor
      · rintro ⟨hfirst, -⟩ t₀ ht
        have := hfirst _ (opened_mem_read.mpr ht) _ _ t₀ rfl rfl
        simpa [State.read] using this
      · refine fun hall => ⟨?_, hx'⟩
        rintro e he id t t₀ heq rfl
        obtain ⟨-, rfl⟩ := Event.admitted.inj heq
        simpa [State.read] using hall t₀ (opened_mem_read.mp he)
    rw [hlog]
    constructor
    · exact fun hall t₀ ht => hall t₀ (h.mem _ ht)
    · intro hg t₀ ht
      obtain ⟨⟨t₁, late⟩, hsince, hle⟩ := h.latest t₀ ht
      have hlast : t₁ + s.breaker.resetTimeout ≤ s.now := by
        cases late with
        | true => exact hg t₁ hsince
        | false =>
          -- The breaker turns half open, or it did so before: the window is over.
          obtain ⟨hne, -, hover⟩ := h.read.notClosed t₁ (sinceOpening_read.trans hsince)
          have hhalf : s.read.breaker.status = .halfOpen := by
            cases hst : s.read.breaker.status with
            | closed => exact absurd hst hne
            | opened => exact absurd hst hadm
            | halfOpen => rfl
          simpa [State.read] using hover hhalf
      exact le_trans (by simpa using hle) hlast

lemma Shut.fail (hx : Shut s) (id : ℕ) : Shut (s.fail id) := by
  have hfailed := Shut.cons (b := s.breaker.recordFailure s.now) (e := .failed id)
    Breaker.recordFailure_resetTimeout (fun _ _ heq => nomatch heq) hx
  rcases s.fail_log id with ⟨-, hlog⟩ | ⟨-, hlog⟩ <;> rw [Shut, hlog]
  · exact Shut.cons (s := { s with breaker := s.breaker.recordFailure s.now }) rfl
      (fun _ _ heq => nomatch heq) hfailed
  · exact hfailed

/-- A step after which no window was broken is one that no late success precedes. -/
theorem shut_step {a : Action} (h : Inv s) (hx : Shut s) (hs : step s a = some s') :
    Shut s' ↔ NoLateSuccess s a := by
  cases move_of_step hs with
  | tick ht => exact iff_of_true hx trivial
  | read => exact iff_of_true hx.read trivial
  | call => exact Shut.call h hx
  | succeed hid => exact iff_of_true (Shut.cons rfl (fun _ _ heq => nomatch heq) hx) trivial
  | fail hid => exact iff_of_true (hx.fail _) trivial
  | abandon hid => exact iff_of_true hx trivial

/-- **An open circuit stays shut for its whole window in a run exactly when no call arrives in the
window of the latest opening after another one has succeeded.** -/
theorem shut_throughout_iff {failMax : ℤ} {resetTimeout : ℚ} {as : List Action}
    (hi : (machine failMax resetTimeout).init s)
    (hr : (machine failMax resetTimeout).run s as = some s') :
    (machine failMax resetTimeout).Throughout Shut s as ↔
      (machine failMax resetTimeout).Along NoLateSuccess s as := by
  refine Machine.throughout_iff_along (fun s hi => ?_) (fun s a t hs hx ht => ?_) hi hr
  · obtain ⟨now, rfl⟩ := hi
    exact .nil
  · refine shut_step (hs.invariant ?_ fun _ _ _ h _ hs => h.step hs) hx ht
    rintro s ⟨now, rfl⟩
    exact .new

section Example

instance decidableNoLateSuccess (s : State) : (a : Action) → Decidable (NoLateSuccess s a)
  | .call => decidable_of_iff (∀ p ∈ sinceOpening s.log, p.2 = true →
      p.1 + s.breaker.resetTimeout ≤ s.now)
      ⟨fun h _ ht => h _ ht rfl, fun h p hp hlate => h p.1 (hp.trans (by rw [← hlate]))⟩
  | .tick _ | .read | .succeed _ | .fail _ | .abandon _ => isTrue trivial

/-- A breaker that opens on its first failure, for a minute. -/
def fresh : State := ⟨.new 1 60, 0, 0, [], []⟩

/-- The circuit opens, it rejects a call, and a probe closes it. -/
def probeRun : List Action :=
  [.call, .fail 0, .tick 30, .call, .tick 61, .call, .succeed 2, .call]

lemma probeRun_ends : ((machine 1 60).run fresh probeRun).isSome = true := by decide +kernel

theorem probeRun_shut : (machine 1 60).Throughout Shut fresh probeRun := by
  obtain ⟨s, hs⟩ := Option.isSome_iff_exists.mp probeRun_ends
  exact (shut_throughout_iff ⟨0, rfl⟩ hs).mpr (by decide +kernel)

/-- Two calls are admitted, one fails and opens the circuit, the other succeeds, and a third one
arrives at once. -/
theorem late_success_reopens :
    ∃ s : State, (machine 1 60).Reachable s ∧ ¬ Shut s := by
  have hrun : ((machine 1 60).run fresh [.call, .call, .fail 0, .succeed 1, .call]).map
      (fun s => (s.now, s.breaker.resetTimeout, s.log)) = some (0, 60, [.admitted 2 0, .looked,
        .succeeded 1, .opened 0, .failed 0, .admitted 1 0, .looked, .admitted 0 0, .looked]) := by
    decide +kernel
  obtain ⟨s, hs, hview⟩ := Option.map_eq_some_iff.mp hrun
  simp only [Prod.mk.injEq] at hview
  obtain ⟨-, hreset, hlog⟩ := hview
  have hinit : (machine 1 60).Reachable fresh := .init ⟨0, rfl⟩
  refine ⟨s, hinit.run hs, fun hx => ?_⟩
  unfold Shut at hx
  rw [hlog, hreset] at hx
  have := (List.pairwise_cons.mp hx).1 (.opened 0) (by simp) 2 0 0 rfl rfl
  norm_num at this

end Example

end Omkit.Resilience
