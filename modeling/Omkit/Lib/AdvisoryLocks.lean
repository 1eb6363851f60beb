import Mathlib.Data.Nat.Notation
import Mathlib.Logic.Function.Basic
import Mathlib.Tactic.SplitIfs

/-!
# Advisory locks

The locks that the sessions of a database server take by key.  A session that has a lock may take it
again, and gives it up when it has released it as often as it has taken it, or when it releases
everything that it holds.
-/

namespace Omkit.Lib

/-- For each key that is locked, the session that holds it, and how often it has taken it. -/
structure AdvisoryLocks (κ γ : Type*) where
  holder : κ → Option (γ × ℕ)

namespace AdvisoryLocks

variable {κ γ : Type*}

/-- The session holds the lock. -/
def Holds (l : AdvisoryLocks κ γ) (c : γ) (k : κ) : Prop := ∃ n, l.holder k = some (c, n)

/-- No lock is held. -/
def free : AdvisoryLocks κ γ := ⟨fun _ => none⟩

variable {l : AdvisoryLocks κ γ} {c c' : γ} {k k' : κ}

lemma Holds.unique (h : l.Holds c k) (h' : l.Holds c' k) : c = c' := by
  obtain ⟨n, hn⟩ := h
  obtain ⟨n', hn'⟩ := h'
  exact (Prod.mk.inj (Option.some.inj (hn.symm.trans hn'))).1

lemma not_holds_free : ¬ (free : AdvisoryLocks κ γ).Holds c k := by
  rintro ⟨n, hn⟩
  cases hn

variable [DecidableEq κ] [DecidableEq γ]

/-- `pg_try_advisory_lock(k)` in the session `c`. -/
def tryLock (l : AdvisoryLocks κ γ) (c : γ) (k : κ) : Bool × AdvisoryLocks κ γ :=
  match l.holder k with
  | none => (true, ⟨Function.update l.holder k (some (c, 1))⟩)
  | some (c', n) =>
    if c' = c then (true, ⟨Function.update l.holder k (some (c, n + 1))⟩) else (false, l)

/-- `pg_advisory_unlock(k)` in the session `c`. -/
def unlock (l : AdvisoryLocks κ γ) (c : γ) (k : κ) : Bool × AdvisoryLocks κ γ :=
  match l.holder k with
  | none => (false, l)
  | some (c', n) =>
    if c' = c then
      (true, ⟨Function.update l.holder k (if n ≤ 1 then none else some (c, n - 1))⟩)
    else (false, l)

/-- `pg_advisory_unlock_all()` in the session `c`. -/
def unlockAll (l : AdvisoryLocks κ γ) (c : γ) : AdvisoryLocks κ γ :=
  ⟨fun k => (l.holder k).filter fun h => h.1 ≠ c⟩

/-- A session that is told that it has the lock has it. -/
lemma holds_of_tryLock (h : (l.tryLock c k).1 = true) : (l.tryLock c k).2.Holds c k := by
  unfold tryLock at h ⊢
  split at h
  · exact ⟨1, Function.update_self ..⟩
  · next c' n hk =>
    split_ifs at h ⊢
    exact ⟨n + 1, Function.update_self ..⟩

/-- Other sessions hold what they held. -/
lemma holds_tryLock_of_ne (hc : c' ≠ c) : (l.tryLock c k).2.Holds c' k' ↔ l.Holds c' k' := by
  unfold tryLock Holds
  split
  · next hk =>
    by_cases hkk : k' = k
    · subst hkk
      simp [hk, hc.symm]
    · simp [Function.update_of_ne hkk]
  · next c₁ n hk =>
    split_ifs with hc₁
    · by_cases hkk : k' = k
      · subst hkk
        simp [hk, hc₁, hc.symm]
      · simp [Function.update_of_ne hkk]
    · rfl

lemma holds_unlock_of_ne (hc : c' ≠ c) : (l.unlock c k).2.Holds c' k' ↔ l.Holds c' k' := by
  unfold unlock Holds
  split
  · rfl
  · next c₁ n hk =>
    split_ifs with hc₁ hn
    · by_cases hkk : k' = k
      · subst hkk
        simp [hk, hc₁, hc.symm]
      · simp [Function.update_of_ne hkk]
    · by_cases hkk : k' = k
      · subst hkk
        simp [hk, hc₁, hc.symm]
      · simp [Function.update_of_ne hkk]
    · rfl

omit [DecidableEq κ] in
lemma holds_unlockAll_of_ne (hc : c' ≠ c) : (l.unlockAll c).Holds c' k' ↔ l.Holds c' k' := by
  unfold unlockAll Holds
  constructor
  · rintro ⟨n, hn⟩
    exact ⟨n, (Option.filter_eq_some_iff.mp hn).1⟩
  · rintro ⟨n, hn⟩
    exact ⟨n, Option.filter_eq_some_iff.mpr ⟨hn, by simpa using hc⟩⟩

omit [DecidableEq κ] in
/-- A session that has released everything holds nothing. -/
lemma not_holds_unlockAll : ¬ (l.unlockAll c).Holds c k := by
  rintro ⟨n, hn⟩
  obtain ⟨-, hc⟩ := Option.filter_eq_some_iff.mp hn
  simp at hc

end AdvisoryLocks
end Omkit.Lib
