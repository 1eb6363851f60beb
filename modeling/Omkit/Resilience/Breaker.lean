import Mathlib.Algebra.Order.Ring.Rat
import Mathlib.Tactic.Linarith
import Omkit.Lib.Machine

/-!
# The circuit breaker

`CircuitBreaker` with any number of concurrent calls.  A call that is admitted records its outcome
much later, in whatever state the breaker is by then.
-/

namespace Omkit.Resilience

open Lib

/-! ## The breaker -/

/-- `_State`. -/
inductive Status
  | closed
  | opened
  | halfOpen
deriving DecidableEq

structure Breaker where
  failMax : ℤ
  resetTimeout : ℚ
  /-- `_failures`. -/
  failures : ℤ
  /-- `_state`. -/
  status : Status
  /-- `_opened_at`. -/
  openedAt : ℚ
  /-- `_open_observed`. -/
  openObserved : Bool

namespace Breaker

/-- `CircuitBreaker(fail_max, reset_timeout)`. -/
def new (failMax : ℤ) (resetTimeout : ℚ) : Breaker :=
  ⟨failMax, resetTimeout, 0, .closed, 0, false⟩

/-- Reading the property `state`; its value is the status afterwards. -/
def readState (b : Breaker) (now : ℚ) : Breaker :=
  if b.status = .opened then
    if b.openObserved ∧ now - b.openedAt ≥ b.resetTimeout then { b with status := .halfOpen }
    else { b with openObserved := true }
  else b

/-- `record_success`. -/
def recordSuccess (b : Breaker) : Breaker :=
  { b with failures := 0, status := .closed, openObserved := false }

/-- Does a failure open the circuit? -/
def opens (b : Breaker) : Bool := b.failures + 1 ≥ b.failMax

/-- `record_failure`. -/
def recordFailure (b : Breaker) (now : ℚ) : Breaker :=
  let b' := { b with failures := b.failures + 1 }
  if b.opens then { b' with status := .opened, openedAt := now, openObserved := false } else b'

end Breaker

namespace Breaker

variable {b : Breaker} {now : ℚ}

@[simp] lemma readState_resetTimeout : (b.readState now).resetTimeout = b.resetTimeout := by
  unfold readState
  split <;> [split <;> rfl; rfl]

@[simp] lemma readState_failMax : (b.readState now).failMax = b.failMax := by
  unfold readState
  split <;> [split <;> rfl; rfl]

@[simp] lemma readState_failures : (b.readState now).failures = b.failures := by
  unfold readState
  split <;> [split <;> rfl; rfl]

@[simp] lemma readState_openedAt : (b.readState now).openedAt = b.openedAt := by
  unfold readState
  split <;> [split <;> rfl; rfl]

lemma readState_closed : (b.readState now).status = .closed ↔ b.status = .closed := by
  unfold readState
  split
  · next h => split <;> simp [h]
  · rfl

/-- A breaker is half open after a read if it was so before, or if its window is over. -/
lemma readState_halfOpen (h : (b.readState now).status = .halfOpen) :
    b.status = .halfOpen ∨ b.status = .opened ∧ b.openedAt + b.resetTimeout ≤ now := by
  unfold readState at h
  split at h
  · next ho =>
    split at h
    · next hover => exact Or.inr ⟨ho, by linarith [hover.2]⟩
    · exact absurd (ho.symm.trans h) (by decide)
  · exact Or.inl h

@[simp] lemma recordFailure_resetTimeout :
    (b.recordFailure now).resetTimeout = b.resetTimeout := by
  unfold recordFailure
  dsimp only
  split <;> rfl

@[simp] lemma recordFailure_failures : (b.recordFailure now).failures = b.failures + 1 := by
  unfold recordFailure
  dsimp only
  split <;> rfl

lemma readState_opened :
    (b.readState now).status = .opened ↔ b.status = .opened ∧
      (b.openObserved = true → now - b.openedAt < b.resetTimeout) := by
  unfold readState
  split
  · next ho =>
    split
    · next hover => simp [hover.1, hover.2]
    · next hnot =>
      refine iff_of_true ho ⟨ho, fun hobs => ?_⟩
      by_contra hge
      exact hnot ⟨hobs, not_lt.mp hge⟩
  · next hne => simp [hne]

end Breaker

/-! ## The machine -/

/-- What has happened to the breaker. -/
inductive Event
  /-- `record_failure` has opened the circuit. -/
  | opened (t : ℚ)
  /-- `state` is read, and the breaker turns half open. -/
  | turned
  /-- `state` is read, and the breaker does not turn. -/
  | looked
  | admitted (id : ℕ) (t : ℚ)
  | rejected (id : ℕ)
  | succeeded (id : ℕ)
  | failed (id : ℕ)
deriving DecidableEq

/-- A breaker, the calls whose coroutines run, and its history, the latest event first. -/
structure State where
  breaker : Breaker
  now : ℚ
  /-- The number of calls so far. -/
  calls : ℕ
  inFlight : List ℕ
  log : List Event

/-- What may happen next. -/
inductive Action
  | tick (t : ℚ)
  /-- Somebody reads `state`. -/
  | read
  | call
  | succeed (id : ℕ)
  /-- The coroutine of a call raises an `Exception`. -/
  | fail (id : ℕ)
  /-- A call is cancelled: it records nothing. -/
  | abandon (id : ℕ)

/-- `state` is read, and it may turn the breaker half open. -/
def State.read (s : State) : State :=
  { s with
    breaker := s.breaker.readState s.now
    log := (if (s.breaker.readState s.now).status = .halfOpen ∧ s.breaker.status = .opened then
        .turned
      else .looked) :: s.log }

/-- `call` up to its `await`. -/
def State.call (s : State) : State :=
  let s' := s.read
  if s'.breaker.status = .opened then
    { s' with calls := s.calls + 1, log := .rejected s.calls :: s'.log }
  else
    { s' with
      calls := s.calls + 1
      inFlight := s.calls :: s.inFlight
      log := .admitted s.calls s.now :: s'.log }

/-- The coroutine of a call returns. -/
def State.succeed (s : State) (id : ℕ) : State :=
  { s with
    breaker := s.breaker.recordSuccess
    inFlight := s.inFlight.erase id
    log := .succeeded id :: s.log }

/-- The coroutine of a call raises. -/
def State.fail (s : State) (id : ℕ) : State :=
  { s with
    breaker := s.breaker.recordFailure s.now
    inFlight := s.inFlight.erase id
    log := (if s.breaker.opens then [.opened s.now] else []) ++ .failed id :: s.log }

/-- A read of the state leaves one event. -/
lemma State.read_log (s : State) : s.read.log = .turned :: s.log ∨ s.read.log = .looked :: s.log := by
  rw [State.read]
  split_ifs
  · exact Or.inl rfl
  · exact Or.inr rfl

/-- A call is rejected if its reading finds the circuit open, and admitted otherwise. -/
lemma State.call_cases (s : State) :
    (s.read.breaker.status = .opened ∧
      s.call = { s.read with calls := s.calls + 1, log := .rejected s.calls :: s.read.log }) ∨
    (s.read.breaker.status ≠ .opened ∧
      s.call = { s.read with
        calls := s.calls + 1
        inFlight := s.calls :: s.inFlight
        log := .admitted s.calls s.now :: s.read.log }) := by
  by_cases ho : s.read.breaker.status = .opened
  · exact Or.inl ⟨ho, by rw [State.call]; exact if_pos ho⟩
  · exact Or.inr ⟨ho, by rw [State.call]; exact if_neg ho⟩

lemma State.fail_log (s : State) (id : ℕ) :
    (s.breaker.opens = true ∧ (s.fail id).log = .opened s.now :: .failed id :: s.log) ∨
    (s.breaker.opens = false ∧ (s.fail id).log = .failed id :: s.log) := by
  cases ho : s.breaker.opens <;> simp [State.fail, ho]

/-- One step. -/
def step (s : State) : Action → Option State
  | .tick t => if s.now ≤ t then some { s with now := t } else none
  | .read => some s.read
  | .call => some s.call
  | .succeed id => if id ∈ s.inFlight then some (s.succeed id) else none
  | .fail id => if id ∈ s.inFlight then some (s.fail id) else none
  | .abandon id => if id ∈ s.inFlight then some { s with inFlight := s.inFlight.erase id } else none

/-- What one step can do. -/
inductive Move (s : State) : Action → State → Prop
  | tick {t : ℚ} (ht : s.now ≤ t) : Move s (.tick t) { s with now := t }
  | read : Move s .read s.read
  | call : Move s .call s.call
  | succeed {id : ℕ} (hid : id ∈ s.inFlight) : Move s (.succeed id) (s.succeed id)
  | fail {id : ℕ} (hid : id ∈ s.inFlight) : Move s (.fail id) (s.fail id)
  | abandon {id : ℕ} (hid : id ∈ s.inFlight) :
    Move s (.abandon id) { s with inFlight := s.inFlight.erase id }

lemma move_of_step {s s' : State} {a : Action} (hs : step s a = some s') : Move s a s' := by
  cases a with
  | tick t =>
    obtain ⟨ht, rfl⟩ : s.now ≤ t ∧ { s with now := t } = s' := by simpa [step] using hs
    exact .tick ht
  | read =>
    obtain rfl := Option.some.inj hs
    exact .read
  | call =>
    obtain rfl := Option.some.inj hs
    exact .call
  | succeed id =>
    obtain ⟨hid, rfl⟩ : id ∈ s.inFlight ∧ s.succeed id = s' := by simpa [step] using hs
    exact .succeed hid
  | fail id =>
    obtain ⟨hid, rfl⟩ : id ∈ s.inFlight ∧ s.fail id = s' := by simpa [step] using hs
    exact .fail hid
  | abandon id =>
    obtain ⟨hid, rfl⟩ : id ∈ s.inFlight ∧ { s with inFlight := s.inFlight.erase id } = s' := by
      simpa [step] using hs
    exact .abandon hid

/-- A new breaker, at any time. -/
def machine (failMax : ℤ) (resetTimeout : ℚ) : Machine State Action where
  init s := ∃ now, s = ⟨.new failMax resetTimeout, now, 0, [], []⟩
  step := step

end Omkit.Resilience
