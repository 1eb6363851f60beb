import Mathlib.Data.List.Induction
import Omkit.Resilience.Breaker

/-!
# The count of failures

The breaker's own methods, called one after the other: its counter is the number of failures since
the last success, and the circuit is closed exactly while that number is below `fail_max`.
-/

namespace Omkit.Resilience

/-- What is done to a breaker. -/
inductive Op
  | success
  | failure
  /-- Somebody reads `state`. -/
  | read
deriving DecidableEq

/-- The breaker after an operation at a time. -/
def Breaker.apply (b : Breaker) : Op × ℚ → Breaker
  | (.success, _) => b.recordSuccess
  | (.failure, t) => b.recordFailure t
  | (.read, t) => b.readState t

/-- The breaker after a sequence of operations. -/
def Breaker.after (b : Breaker) (ops : List (Op × ℚ)) : Breaker := ops.foldl Breaker.apply b

/-- The number of failures since the last success, or since the start. -/
def failuresSince (ops : List (Op × ℚ)) : ℕ :=
  ((ops.map Prod.fst).reverse.takeWhile (· ≠ .success)).count .failure

lemma failuresSince_concat (ops : List (Op × ℚ)) (op : Op) (t : ℚ) :
    failuresSince (ops ++ [(op, t)]) = match op with
      | .success => 0
      | .failure => failuresSince ops + 1
      | .read => failuresSince ops := by
  cases op <;> simp [failuresSince]

/-- The breaker counts `n` failures since the last success. -/
structure Counts (b : Breaker) (failMax : ℤ) (n : ℕ) : Prop where
  limit : b.failMax = failMax
  failures : b.failures = n
  closed : b.status = .closed ↔ (n : ℤ) < failMax

namespace Counts

variable {b : Breaker} {failMax : ℤ} {n : ℕ}

lemma new (hmax : 1 ≤ failMax) (resetTimeout : ℚ) : Counts (.new failMax resetTimeout) failMax 0 where
  limit := rfl
  failures := rfl
  closed := iff_of_true rfl (by push_cast; omega)

lemma success (hmax : 1 ≤ failMax) (h : Counts b failMax n) : Counts b.recordSuccess failMax 0 where
  limit := h.limit
  failures := rfl
  closed := iff_of_true rfl (by push_cast; omega)

lemma opens_iff (h : Counts b failMax n) : b.opens = true ↔ failMax ≤ (n : ℤ) + 1 := by
  simp [Breaker.opens, h.limit, h.failures]

lemma failure (h : Counts b failMax n) (t : ℚ) : Counts (b.recordFailure t) failMax (n + 1) := by
  unfold Breaker.recordFailure
  dsimp only
  split
  · next ho =>
    have hge := h.opens_iff.mp ho
    exact ⟨h.limit, by simp [h.failures], iff_of_false (by simp) (by push_cast; omega)⟩
  · next ho =>
    -- a failure that does not open the circuit finds it closed
    have hlt : (n : ℤ) + 1 < failMax := not_le.mp fun hge => ho (h.opens_iff.mpr hge)
    refine ⟨h.limit, by simp [h.failures], iff_of_true (h.closed.mpr ?_) (by push_cast; omega)⟩
    omega

lemma read (h : Counts b failMax n) (t : ℚ) : Counts (b.readState t) failMax n where
  limit := Breaker.readState_failMax.trans h.limit
  failures := Breaker.readState_failures.trans h.failures
  closed := Breaker.readState_closed.trans h.closed

end Counts

lemma counts_after {failMax : ℤ} (hmax : 1 ≤ failMax) (resetTimeout : ℚ) (ops : List (Op × ℚ)) :
    Counts ((Breaker.new failMax resetTimeout).after ops) failMax (failuresSince ops) := by
  induction ops using List.reverseRecOn with
  | nil => exact .new hmax resetTimeout
  | append_singleton ops op ih =>
    obtain ⟨op, t⟩ := op
    rw [failuresSince_concat, Breaker.after, List.foldl_append]
    cases op with
    | success => exact ih.success hmax
    | failure => exact ih.failure t
    | read => exact ih.read t

/-- **The circuit is closed exactly while fewer than `fail_max` failures were recorded since the last
success**, and a failure that finds it half open opens it again at its own time. -/
theorem closed_iff_failuresSince {failMax : ℤ} (hmax : 1 ≤ failMax) (resetTimeout : ℚ)
    (ops : List (Op × ℚ)) :
    let b := (Breaker.new failMax resetTimeout).after ops
    (b.status = .closed ↔ (failuresSince ops : ℤ) < failMax) ∧
      (b.status = .halfOpen → ∀ t, (b.recordFailure t).status = .opened ∧
        (b.recordFailure t).openedAt = t) := by
  intro b
  have h : Counts b failMax (failuresSince ops) := counts_after hmax resetTimeout ops
  refine ⟨h.closed, fun hhalf t => ?_⟩
  have hge : failMax ≤ failuresSince ops := not_lt.mp fun hlt =>
    absurd (hhalf.symm.trans (h.closed.mpr hlt)) (by decide)
  have ho : b.opens = true := h.opens_iff.mpr (by omega)
  simp [Breaker.recordFailure, ho]

section Example

/-- Two failures open the circuit, and a third one finds it half open. -/
def reopenedOps : List (Op × ℚ) :=
  [(.failure, 0), (.failure, 1), (.read, 2), (.read, 61)]

theorem reopenedOps_reopens :
    ((Breaker.new 2 60).after reopenedOps).status ≠ .closed ∧
      ∀ t, (((Breaker.new 2 60).after reopenedOps).recordFailure t).status = .opened ∧
        (((Breaker.new 2 60).after reopenedOps).recordFailure t).openedAt = t := by
  obtain ⟨hclosed, hreopens⟩ := closed_iff_failuresSince (by decide : (1 : ℤ) ≤ 2) 60 reopenedOps
  exact ⟨fun h => absurd (hclosed.mp h) (by decide), hreopens (by decide +kernel)⟩

end Example

end Omkit.Resilience
