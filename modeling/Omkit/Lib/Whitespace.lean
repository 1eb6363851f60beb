import Omkit.Lib.Text
import Mathlib.Data.List.DropRight

/-!
# Whitespace

`str.isspace` and `str.strip`.  A text that neither begins nor ends with whitespace stays whole
when what stands around it is stripped.
-/

namespace Omkit.Lib

/-- Is the character whitespace, for `str.strip` and for `\s`? -/
def isSpace : PyChar → Bool
  | .scalar c =>
    let n := c.toNat
    (9 ≤ n && n ≤ 13) || (28 ≤ n && n ≤ 32) || n == 0x85 || n == 0xa0 || n == 0x1680 ||
      (0x2000 ≤ n && n ≤ 0x200a) || n == 0x2028 || n == 0x2029 || n == 0x202f || n == 0x205f ||
      n == 0x3000
  | .surrogate _ => false

/-- `s.strip()`. -/
def strip (s : PyStr) : PyStr := (s.dropWhile isSpace).rdropWhile isSpace

/-- A text of nothing but whitespace. -/
def Blank (s : PyStr) : Prop := ∀ x ∈ s, isSpace x = true

instance : DecidablePred Blank := fun s => inferInstanceAs (Decidable (∀ x ∈ s, isSpace x = true))

/-- A text that neither begins nor ends with whitespace. -/
structure Solid (s : PyStr) : Prop where
  head : ∃ x t, s = x :: t ∧ isSpace x = false
  last : ∃ t x, s = t ++ [x] ∧ isSpace x = false

section

variable {α : Type} {p : α → Bool} {x : α}

lemma dropWhile_append_stop (h : p x = false) (s t : List α) :
    (s ++ x :: t).dropWhile p = s.dropWhile p ++ x :: t := by
  have hstop : (x :: t).dropWhile p = x :: t := List.dropWhile_cons_of_neg (by simp [h])
  rw [List.dropWhile_append, hstop]
  split
  · next hnil => rw [List.isEmpty_iff.mp hnil, List.nil_append]
  · rfl

lemma rdropWhile_append_stop (h : p x = false) (s t : List α) :
    (s ++ x :: t).rdropWhile p = s ++ x :: t.rdropWhile p := by
  have hrev : (s ++ x :: t).reverse = t.reverse ++ x :: s.reverse := by simp
  rw [List.rdropWhile, hrev, dropWhile_append_stop h, List.rdropWhile]
  simp

end

/-- **Only what stands around a solid text is stripped.** -/
theorem strip_around {s : PyStr} (h : Solid s) (a b : PyStr) :
    strip (a ++ (s ++ b)) = a.dropWhile isSpace ++ (s ++ b.rdropWhile isSpace) := by
  obtain ⟨x, t, hs, hx⟩ := h.head
  obtain ⟨u, y, hs', hy⟩ := h.last
  have hleft : (a ++ (s ++ b)).dropWhile isSpace = a.dropWhile isSpace ++ (s ++ b) := by
    rw [hs, List.cons_append, dropWhile_append_stop hx]
  have hassoc : ∀ b, a.dropWhile isSpace ++ (s ++ b) =
      (a.dropWhile isSpace ++ u) ++ y :: b := fun b => by simp [hs']
  rw [strip, hleft, hassoc, rdropWhile_append_stop hy, ← hassoc]

/-- A solid text is not changed. -/
lemma strip_of_solid {s : PyStr} (h : Solid s) : strip s = s := by
  simpa using strip_around h [] []

/-- Stripping once is enough. -/
lemma strip_strip_around {s : PyStr} (h : Solid s) (a b : PyStr) :
    strip (a.dropWhile isSpace ++ (s ++ b.rdropWhile isSpace)) =
      a.dropWhile isSpace ++ (s ++ b.rdropWhile isSpace) := by
  rw [strip_around h, List.dropWhile_idempotent, List.rdropWhile_idempotent]

lemma infix_strip (s : PyStr) : strip s <:+: s :=
  (List.rdropWhile_prefix isSpace _).isInfix.trans (List.dropWhile_suffix isSpace).isInfix

/-- There is no whitespace left to strip. -/
lemma strip_strip (s : PyStr) : strip (strip s) = strip s := by
  cases hs : s.dropWhile isSpace with
  | nil => rw [strip, strip, hs]; rfl
  | cons x t =>
    have hx : isSpace x = false := by
      have hnot := List.head?_dropWhile_not isSpace s
      rw [hs] at hnot
      simpa using hnot
    have hstrip : strip s = x :: t.rdropWhile isSpace := by
      rw [strip, hs]
      exact rdropWhile_append_stop hx [] t
    have hleft : (strip s).dropWhile isSpace = strip s := by
      rw [hstrip, List.dropWhile_cons_of_neg (by simp [hx])]
    rw [strip, hleft, strip, List.rdropWhile_idempotent]

lemma dropWhile_eq_nil_iff_blank {s : PyStr} : s.dropWhile isSpace = [] ↔ Blank s :=
  List.dropWhile_eq_nil_iff

lemma rdropWhile_eq_nil_iff_blank {s : PyStr} : s.rdropWhile isSpace = [] ↔ Blank s :=
  List.rdropWhile_eq_nil_iff

end Omkit.Lib
