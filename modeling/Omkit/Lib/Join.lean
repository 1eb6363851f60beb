import Mathlib.Data.List.Basic
import Mathlib.Tactic.Common

/-!
# Joining with a separator

When do two pairs of texts give the same text, joined with a separator?  Either they are the same
pair, or the separator occurs in the parts and the cut is made at two of its occurrences.
-/

namespace Omkit.Lib

variable {α : Type*} {c : α}

/-- The cut of `u ++ c :: p` at another occurrence of the separator: `x` lies between the two. -/
def Recut (c : α) (u p u' p' : List α) : Prop := ∃ x, u = u' ++ c :: x ∧ p' = x ++ c :: p

lemma Recut.join_eq {u p u' p' : List α} (h : Recut c u p u' p') :
    u ++ c :: p = u' ++ c :: p' := by
  obtain ⟨x, rfl, rfl⟩ := h
  simp

/-- The first part gets shorter, and the last one longer. -/
lemma Recut.length_lt {u p u' p' : List α} (h : Recut c u p u' p') :
    u'.length < u.length ∧ p.length < p'.length := by
  obtain ⟨x, rfl, rfl⟩ := h
  simp only [List.length_append, List.length_cons]
  omega

/-- **Two joined pairs are equal exactly when they are the same pair cut at one of its
separators.** -/
theorem join_eq_join_iff {u p u' p' : List α} :
    u ++ c :: p = u' ++ c :: p' ↔
      (u = u' ∧ p = p') ∨ Recut c u p u' p' ∨ Recut c u' p' u p := by
  constructor
  · intro h
    rcases List.append_eq_append_iff.mp h with ⟨a, hu, hp⟩ | ⟨a, hu, hp⟩
    · cases a with
      | nil =>
        simp only [List.append_nil, List.nil_append, List.cons.injEq, true_and] at hu hp
        exact Or.inl ⟨hu.symm, hp⟩
      | cons d a =>
        obtain ⟨rfl, rfl⟩ := List.cons.inj hp
        exact Or.inr (Or.inr ⟨a, hu, rfl⟩)
    · cases a with
      | nil =>
        simp only [List.append_nil, List.nil_append, List.cons.injEq, true_and] at hu hp
        exact Or.inl ⟨hu, hp.symm⟩
      | cons d a =>
        obtain ⟨rfl, rfl⟩ := List.cons.inj hp
        exact Or.inr (Or.inl ⟨a, hu, rfl⟩)
  · rintro (⟨rfl, rfl⟩ | h | h)
    · rfl
    · exact h.join_eq
    · exact h.join_eq.symm

/-- If the separator does not occur in the last parts, they are read off the joined text. -/
theorem join_eq_join_iff_of_not_mem {u p u' p' : List α} (hp : c ∉ p) (hp' : c ∉ p') :
    u ++ c :: p = u' ++ c :: p' ↔ u = u' ∧ p = p' := by
  rw [join_eq_join_iff]
  constructor
  · rintro (h | ⟨x, -, rfl⟩ | ⟨x, -, rfl⟩)
    · exact h
    · exact absurd (by simp) hp'
    · exact absurd (by simp) hp
  · exact Or.inl

/-- Two texts of one length are read off a text that starts with them. -/
lemma append_eq_append_of_length {u v u' v' : List α} (h : u.length = u'.length) :
    u ++ v = u' ++ v' ↔ u = u' ∧ v = v' := by
  constructor
  · intro heq
    exact List.append_inj heq h
  · rintro ⟨rfl, rfl⟩
    rfl

end Omkit.Lib
