import Omkit.Lib.Retry
import Omkit.Resilience.Breaker

/-!
# Retries behind the breaker

`resilient`: up to three calls of the breaker, repeated while the function raises a transient error.
A rejection of the breaker is an error that the retry policy sees too.
-/

namespace Omkit.Resilience

open Lib

/-- The exceptions that a function raises, as `_is_transient` tells them apart. -/
inductive Exc
  | connectError
  | timeoutException
  /-- An `HTTPStatusError`, and the status code of its response if it has one. -/
  | httpStatusError (response : Option ℕ)
  | other
deriving DecidableEq

/-- What a call raises: the exception of the function, or the `CircuitOpen` of the breaker. -/
inductive CallError
  | own (e : Exc)
  | circuitOpen
deriving DecidableEq

/-- `_is_transient`. -/
def isTransient : CallError → Bool
  | .own .connectError | .own .timeoutException => true
  | .own (.httpStatusError (some status)) => status ∈ [502, 503, 504]
  | .own (.httpStatusError none) | .own .other | .circuitOpen => false

/-- One call of a decorated function: the breaker, and the number of runs of the function. -/
structure Session where
  breaker : Breaker
  runs : ℕ

variable {α : Type}

/-- `CircuitBreaker.call`.  The clock gives the times at which the attempt after `k` runs reads the
state and records its outcome, and `fn k` is how that run ends. -/
def Session.call (clock : ℕ → ℚ × ℚ) (fn : ℕ → Except Exc α) (s : Session) :
    Except CallError α × Session :=
  let b := s.breaker.readState (clock s.runs).1
  if b.status = .opened then (.error .circuitOpen, { s with breaker := b })
  else match fn s.runs with
    | .ok a => (.ok a, ⟨b.recordSuccess, s.runs + 1⟩)
    | .error e => (.error (.own e), ⟨b.recordFailure (clock s.runs).2, s.runs + 1⟩)

/-- A call of a function decorated with `resilient(breaker)`. -/
def resilient (breaker : Breaker) (clock : ℕ → ℚ × ℚ) (fn : ℕ → Except Exc α) :
    Except CallError α × Session :=
  retry isTransient (Session.call clock fn) 2 ⟨breaker, 0⟩

/-! ## What the calls are to do -/

/-- The breaker after `k` runs that failed, each of them after a reading of the state. -/
def afterFailures (breaker : Breaker) (clock : ℕ → ℚ × ℚ) : ℕ → Breaker
  | 0 => breaker
  | k + 1 => ((afterFailures breaker clock k).readState (clock k).1).recordFailure (clock k).2

/-- The breaker that the attempt after `k` failed runs sees. -/
def shown (breaker : Breaker) (clock : ℕ → ℚ × ℚ) (k : ℕ) : Breaker :=
  (afterFailures breaker clock k).readState (clock k).1

/-- A run that fails with an error that is retried. -/
def FailsTransiently (fn : ℕ → Except Exc α) (k : ℕ) : Prop :=
  ∃ e, fn k = .error e ∧ isTransient (.own e) = true

/-- What a call of a decorated function does. -/
structure Composed (breaker : Breaker) (clock : ℕ → ℚ × ℚ) (fn : ℕ → Except Exc α)
    (result : Except CallError α) (s : Session) : Prop where
  atMost : s.runs ≤ 3
  /-- The function never runs while the breaker rejects. -/
  admitted : ∀ k < s.runs, (shown breaker clock k).status ≠ .opened
  /-- The runs before the last one failed transiently. -/
  transient : ∀ k, k + 1 < s.runs → FailsTransiently fn k
  /-- The call is rejected exactly if a further attempt is due and finds the circuit open. -/
  circuitOpen : result = .error .circuitOpen ↔ s.runs < 3 ∧ (∀ k < s.runs, FailsTransiently fn k) ∧
    (shown breaker clock s.runs).status = .opened
  /-- Otherwise the result is that of the last run, and no further attempt is due. -/
  last : result ≠ .error .circuitOpen → ∃ k, s.runs = k + 1 ∧ result = (fn k).mapError .own ∧
    (k + 1 = 3 ∨ ¬ FailsTransiently fn k)
  failures : s.breaker.failures = match result with
    | .ok _ => 0
    | .error _ => breaker.failures + s.runs
  breaker : s.breaker = match result with
    | .ok _ => (shown breaker clock (s.runs - 1)).recordSuccess
    | .error (.own _) => afterFailures breaker clock s.runs
    | .error .circuitOpen => shown breaker clock s.runs

variable {breaker : Breaker} {clock : ℕ → ℚ × ℚ} {fn : ℕ → Except Exc α} {k : ℕ}

lemma failures_afterFailures : (afterFailures breaker clock k).failures = breaker.failures + k := by
  induction k with
  | zero => simp [afterFailures]
  | succ k ih =>
    rw [afterFailures, Breaker.recordFailure_failures, Breaker.readState_failures, ih]
    push_cast
    omega

/-- An attempt that the breaker rejects. -/
lemma call_rejected (ho : (shown breaker clock k).status = .opened) :
    Session.call clock fn ⟨afterFailures breaker clock k, k⟩ =
      (.error .circuitOpen, ⟨shown breaker clock k, k⟩) := if_pos ho

/-- An attempt that runs the function and returns its value. -/
lemma call_ok {a : α} (ho : (shown breaker clock k).status ≠ .opened) (hfn : fn k = .ok a) :
    Session.call clock fn ⟨afterFailures breaker clock k, k⟩ =
      (.ok a, ⟨(shown breaker clock k).recordSuccess, k + 1⟩) := by
  refine (if_neg ho).trans ?_
  dsimp only
  rw [hfn]
  rfl

/-- An attempt that runs the function and passes its exception on. -/
lemma call_error {e : Exc} (ho : (shown breaker clock k).status ≠ .opened)
    (hfn : fn k = .error e) : Session.call clock fn ⟨afterFailures breaker clock k, k⟩ =
      (.error (.own e), ⟨afterFailures breaker clock (k + 1), k + 1⟩) := by
  refine (if_neg ho).trans ?_
  dsimp only
  rw [hfn]
  rfl

/-- The state of a call after `k` attempts that are retried. -/
structure Retrying (breaker : Breaker) (clock : ℕ → ℚ × ℚ) (fn : ℕ → Except Exc α) (k : ℕ)
    (s : Session) : Prop where
  state : s = ⟨afterFailures breaker clock k, k⟩
  admitted : ∀ i < k, (shown breaker clock i).status ≠ .opened
  transient : ∀ i < k, FailsTransiently fn i

lemma Retrying.step {s s' : Session} {e : CallError} (h : Retrying breaker clock fn k s)
    (hcall : s.call clock fn = (.error e, s')) (he : isTransient e = true) :
    Retrying breaker clock fn (k + 1) s' := by
  obtain rfl := h.state
  by_cases ho : (shown breaker clock k).status = .opened
  · -- a rejection is not transient
    obtain ⟨rfl, -⟩ : CallError.circuitOpen = e ∧ _ := by
      simpa using (call_rejected ho).symm.trans hcall
    cases he
  · cases hfn : fn k with
    | ok a => cases (call_ok ho hfn).symm.trans hcall
    | error x =>
      obtain ⟨rfl, rfl⟩ : CallError.own x = e ∧ _ := by
        simpa using (call_error ho hfn).symm.trans hcall
      refine ⟨rfl, fun i hi => ?_, fun i hi => ?_⟩
      · rcases Nat.lt_succ_iff_lt_or_eq.mp hi with hlt | rfl
        · exact h.admitted i hlt
        · exact ho
      · rcases Nat.lt_succ_iff_lt_or_eq.mp hi with hlt | rfl
        · exact h.transient i hlt
        · exact ⟨x, hfn, he⟩

/-- A call whose last attempt is rejected. -/
lemma Composed.rejected (hk : k < 3) (hadm : ∀ i < k, (shown breaker clock i).status ≠ .opened)
    (htrans : ∀ i < k, FailsTransiently fn i) (ho : (shown breaker clock k).status = .opened) :
    Composed breaker clock fn (.error .circuitOpen) ⟨shown breaker clock k, k⟩ where
  atMost := hk.le
  admitted := hadm
  transient i hi := htrans i (by simp only at hi; omega)
  circuitOpen := iff_of_true rfl ⟨hk, htrans, ho⟩
  last hne := absurd rfl hne
  failures := by simp only [shown, Breaker.readState_failures, failures_afterFailures]
  breaker := rfl

/-- A call whose last attempt returns a value. -/
lemma Composed.ok {a : α} (hk : k < 3) (hadm : ∀ i < k + 1, (shown breaker clock i).status ≠ .opened)
    (htrans : ∀ i < k, FailsTransiently fn i) (hfn : fn k = .ok a) :
    Composed breaker clock fn (.ok a) ⟨(shown breaker clock k).recordSuccess, k + 1⟩ where
  atMost := hk
  admitted := hadm
  transient i hi := htrans i (by simp only at hi; omega)
  circuitOpen := by
    refine iff_of_false nofun fun ⟨_, hall, _⟩ => ?_
    obtain ⟨e, he, -⟩ := hall k (Nat.lt_succ_self k)
    cases hfn.symm.trans he
  last _ := by
    refine ⟨k, rfl, by rw [hfn]; rfl, Or.inr fun ⟨e, he, _⟩ => ?_⟩
    cases hfn.symm.trans he
  failures := rfl
  breaker := rfl

/-- A call whose last attempt fails, with an error that is not transient or for the third time. -/
lemma Composed.error {e : Exc} (hk : k < 3)
    (hadm : ∀ i < k + 1, (shown breaker clock i).status ≠ .opened)
    (htrans : ∀ i < k, FailsTransiently fn i) (hfn : fn k = .error e)
    (hlast : k < 2 → isTransient (.own e) = false) :
    Composed breaker clock fn (.error (.own e)) ⟨afterFailures breaker clock (k + 1), k + 1⟩ := by
  have hno (hlt : k < 2) : ¬ FailsTransiently fn k := by
    rintro ⟨x, hx, htrue⟩
    obtain rfl := Except.error.inj (hfn.symm.trans hx)
    exact Bool.noConfusion ((hlast hlt).symm.trans htrue)
  exact
    { atMost := hk
      admitted := hadm
      transient := fun i hi => htrans i (by simp only at hi; omega)
      circuitOpen := by
        refine iff_of_false nofun fun ⟨hlt, hall, _⟩ => ?_
        exact hno (by simp only at hlt; omega) (hall k (Nat.lt_succ_self k))
      last := fun _ => ⟨k, rfl, by rw [hfn]; rfl, or_iff_not_imp_left.mpr fun hne => hno (by omega)⟩
      failures := failures_afterFailures
      breaker := rfl }

/-- **Retries compose with the breaker.** -/
theorem resilient_composed (breaker : Breaker) (clock : ℕ → ℚ × ℚ) (fn : ℕ → Except Exc α) :
    Composed breaker clock fn (resilient breaker clock fn).1 (resilient breaker clock fn).2 := by
  obtain ⟨k, s, -, hk, hretried, hresult, hlast⟩ :=
    exists_last (.none : Retried isTransient (Session.call clock fn) ⟨breaker, 0⟩ 0 _) 2
  have h : Retrying breaker clock fn k s := by
    refine hretried.invariant (P := fun n s => Retrying breaker clock fn n s) ?_
      fun n t u e h hf he => h.step hf he
    exact ⟨rfl, by simp, by simp⟩
  -- all attempts but the last were retried, and the last one is rejected or runs the function
  rw [resilient, hresult]
  obtain rfl := h.state
  by_cases ho : (shown breaker clock k).status = .opened
  · rw [call_rejected ho]
    exact .rejected (by omega) h.admitted h.transient ho
  · have hadm (i : ℕ) (hi : i < k + 1) : (shown breaker clock i).status ≠ .opened := by
      rcases Nat.lt_succ_iff_lt_or_eq.mp hi with hlt | rfl
      · exact h.admitted i hlt
      · exact ho
    cases hfn : fn k with
    | ok a =>
      rw [call_ok ho hfn]
      exact .ok (by omega) hadm h.transient hfn
    | error e =>
      rw [call_error ho hfn] at hlast ⊢
      exact .error (by omega) hadm h.transient hfn fun hlt => hlast (by omega) _ rfl

section Example

/-- The function fails twice, and the breaker opens on the second failure. -/
theorem resilient_opens : (resilient (.new 2 60) (fun _ => (0, 0)) fun _ =>
    (.error .connectError : Except Exc ℕ)).1 = .error .circuitOpen := by
  have hruns : (resilient (.new 2 60) (fun _ => (0, 0)) fun _ =>
      (.error .connectError : Except Exc ℕ)).2.runs = 2 := by decide +kernel
  refine (resilient_composed (.new 2 60) (fun _ => (0, 0)) _).circuitOpen.mpr ?_
  rw [hruns]
  exact ⟨by decide, fun _ _ => ⟨_, rfl, rfl⟩, by decide +kernel⟩

end Example

end Omkit.Resilience
