import Mathlib.Tactic.Common

/-!
# Retries

A decorator that repeats an action with effects while it raises an error of a given kind, up to a
number of attempts, and that passes the last result on.
-/

namespace Omkit.Lib

variable {σ ε α : Type*}

/-- At most `n` attempts after the first one, as long as they raise an error that is retried. -/
def retry (again : ε → Bool) (f : σ → Except ε α × σ) : ℕ → σ → Except ε α × σ
  | 0, s => f s
  | n + 1, s => match f s with
    | (.ok a, s') => (.ok a, s')
    | (.error e, s') => if again e then retry again f n s' else (.error e, s')

/-- The states that a number of attempts leads to, all of which raise an error that is retried. -/
inductive Retried (again : ε → Bool) (f : σ → Except ε α × σ) (s : σ) : ℕ → σ → Prop
  | none : Retried again f s 0 s
  | again {n : ℕ} {t u : σ} {e : ε} (h : Retried again f s n t) (hf : f t = (.error e, u))
      (he : again e = true) : Retried again f s (n + 1) u

variable {again : ε → Bool} {f : σ → Except ε α × σ} {s t : σ} {m : ℕ}

/-- What holds at first and is kept by every attempt that is retried holds at every attempt. -/
theorem Retried.invariant {P : ℕ → σ → Prop} (h₀ : P 0 s)
    (hstep : ∀ n t u e, P n t → f t = (.error e, u) → again e = true → P (n + 1) u)
    (h : Retried again f s m t) : P m t := by
  induction h with
  | none => exact h₀
  | again _ hf he ih => exact hstep _ _ _ _ ih hf he

/-- The result is that of the last attempt. -/
theorem exists_last (h : Retried again f s m t) (n : ℕ) : ∃ k u, m ≤ k ∧ k ≤ m + n ∧
    Retried again f s k u ∧ retry again f n t = f u ∧
    (k < m + n → ∀ e, (f u).1 = .error e → again e = false) := by
  induction n generalizing m t with
  | zero => exact ⟨m, t, Nat.le_refl _, Nat.le_refl _, h, rfl, fun hlt => absurd hlt (Nat.lt_irrefl _)⟩
  | succ n ih =>
    rw [retry]
    split
    · next a t' hf =>
      refine ⟨m, t, Nat.le_refl _, by omega, h, hf.symm, fun _ e he => ?_⟩
      rw [hf] at he
      cases he
    · next e t' hf =>
      split
      · next he =>
        obtain ⟨k, u, hmk, hkn, hu, hretry, hlast⟩ := ih (h.again hf he)
        exact ⟨k, u, by omega, by omega, hu, hretry, fun hlt => hlast (by omega)⟩
      · next he =>
        refine ⟨m, t, Nat.le_refl _, by omega, h, hf.symm, fun _ e' he' => ?_⟩
        rw [hf] at he'
        obtain rfl := Except.error.inj he'
        simpa using he

end Omkit.Lib
