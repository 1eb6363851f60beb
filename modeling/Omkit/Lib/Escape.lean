import Mathlib.Data.List.Infix
import Mathlib.Tactic

/-!
# References in place of reserved characters

A text is escaped by writing a reference for each reserved character.  Where each reference begins
with a reserved character and none is the beginning of another, what is written can be read in one
way only.  A program may also replace the reserved characters one after the other; this writes the
same if no reference has a character whose turn is still to come.
-/

namespace Omkit.Lib

variable {α : Type}

/-- The reserved characters with their references. -/
abbrev References (α : Type) := List (α × List α)

namespace References

/-- `s` is a writing of `t`: a reserved character is written as its reference, and any other as
itself. -/
inductive Reads (e : References α) : List α → List α → Prop
  | nil : Reads e [] []
  | plain {x : α} {s t : List α} :
    x ∉ e.map Prod.fst → Reads e s t → Reads e (x :: s) (x :: t)
  | ref {c : α} {w s t : List α} : (c, w) ∈ e → Reads e s t → Reads e (w ++ s) (c :: t)

/-- A reference begins with a reserved character, and is not the beginning of another one. -/
structure Apart (e : References α) : Prop where
  marked : ∀ r ∈ e, ∃ x w, r.2 = x :: w ∧ x ∈ e.map Prod.fst
  prefixFree : ∀ r ∈ e, ∀ r' ∈ e, r.2 <+: r'.2 → r = r'

variable {e : References α} {c x : α} {w s t t' : List α}

/-! ## Reading -/

/-- A writing that begins with a reference is not one of a plain character. -/
lemma Apart.ne_plain (h : e.Apart) (hr : (c, w) ∈ e) (hx : x ∉ e.map Prod.fst) {u : List α} :
    w ++ s ≠ x :: u := by
  obtain ⟨y, v, hw, hy⟩ := h.marked _ hr
  intro heq
  have hcons : y :: (v ++ s) = x :: u := by
    rw [← List.cons_append, ← hw]
    exact heq
  exact hx ((List.cons.inj hcons).1 ▸ hy)

lemma Apart.ne_nil (h : e.Apart) (hr : (c, w) ∈ e) : w ++ s ≠ [] := by
  obtain ⟨y, v, hw, -⟩ := h.marked _ hr
  intro heq
  have hnil : w = [] := (List.append_eq_nil_iff.mp heq).1
  rw [hnil] at hw
  cases hw

/-- Two references that begin one text are the same. -/
lemma Apart.eq_of_append (h : e.Apart) {c' : α} {w' s' : List α} (hr : (c, w) ∈ e)
    (hr' : (c', w') ∈ e) (heq : w ++ s = w' ++ s') : c = c' ∧ s = s' := by
  have hpre : w <+: w' ++ s' := ⟨s, heq⟩
  have hsame : (c, w) = (c', w') := by
    rcases List.prefix_or_prefix_of_prefix hpre ⟨s', rfl⟩ with hw | hw
    · exact h.prefixFree _ hr _ hr' hw
    · exact (h.prefixFree _ hr' _ hr hw).symm
  obtain ⟨rfl, rfl⟩ := Prod.mk.inj hsame
  exact ⟨rfl, List.append_cancel_left heq⟩

/-- **A writing is read in one way.** -/
theorem Reads.unique (h : e.Apart) (hs : e.Reads s t) (hs' : e.Reads s t') : t = t' := by
  induction hs generalizing t' with
  | nil =>
    generalize hu : ([] : List α) = u at hs'
    cases hs' with
    | nil => rfl
    | plain _ _ => cases hu
    | ref hr _ => exact absurd hu.symm (h.ne_nil hr)
  | @plain x s t hx hs ih =>
    generalize hu : x :: s = u at hs'
    cases hs' with
    | nil => cases hu
    | plain _ hs' =>
      obtain ⟨rfl, rfl⟩ := List.cons.inj hu
      rw [ih hs']
    | ref hr _ => exact absurd hu.symm (h.ne_plain hr hx)
  | @ref c w s t hr hs ih =>
    generalize hu : w ++ s = u at hs'
    cases hs' with
    | nil => exact absurd hu (h.ne_nil hr)
    | plain hx _ => exact absurd hu (h.ne_plain hr hx)
    | ref hr' hs' =>
      obtain ⟨rfl, rfl⟩ := h.eq_of_append hr hr' hu
      rw [ih hs']

/-- A reserved character without which the references are written does not stand in a writing. -/
lemma Reads.notMem (h : e.Reads s t) (hc : c ∈ e.map Prod.fst) (hout : ∀ r ∈ e, c ∉ r.2) :
    c ∉ s := by
  induction h with
  | nil => exact List.not_mem_nil
  | plain hx _ ih =>
    rintro (_ | ⟨_, hmem⟩)
    · exact hx hc
    · exact ih hmem
  | ref hr _ ih =>
    intro hmem
    rcases List.mem_append.mp hmem with hmem | hmem
    · exact hout _ hr hmem
    · exact ih hmem

/-! ## Writing -/

section Write

variable [DecidableEq α]

/-- What is written for a character. -/
def write (e : References α) (x : α) : List α := (e.lookup x).getD [x]

/-- The text with a reference for each reserved character. -/
def escape (e : References α) (s : List α) : List α := s.flatMap e.write

/-- `s.replace(c, w)`, for one character `c`. -/
def replaceChar (c : α) (w s : List α) : List α := s.flatMap fun x => if x = c then w else [x]

/-- The reserved characters replaced one after the other. -/
def replaceInTurn : References α → List α → List α
  | [], s => s
  | (c, w) :: e, s => replaceInTurn e (replaceChar c w s)

lemma write_cons (c : α) (w : List α) (e : References α) (x : α) :
    write ((c, w) :: e) x = if x = c then w else e.write x := by
  rw [write, write, List.lookup_cons]
  split_ifs with hx
  · rw [beq_iff_eq.mpr hx, Option.getD_some]
  · rw [beq_eq_false_iff_ne.mpr hx]

lemma write_of_notMem (h : x ∉ e.map Prod.fst) : e.write x = [x] := by
  induction e with
  | nil => rfl
  | cons r e ih =>
    obtain ⟨hx, he⟩ := not_or.mp (fun hor => h (List.mem_cons.mpr hor))
    rw [write_cons, if_neg hx, ih he]

lemma mem_of_write (h : x ∈ e.map Prod.fst) : (x, e.write x) ∈ e := by
  induction e with
  | nil => cases h
  | cons r e ih =>
    obtain ⟨c, w⟩ := r
    rw [write_cons]
    split_ifs with hx
    · rw [hx]
      exact List.mem_cons_self
    · exact List.mem_cons_of_mem _ (ih ((List.mem_cons.mp h).resolve_left hx))

/-- **What is written for a text reads as the text.** -/
theorem reads_escape (e : References α) (t : List α) : e.Reads (e.escape t) t := by
  induction t with
  | nil => exact .nil
  | cons x t ih =>
    rw [escape, List.flatMap_cons]
    by_cases hx : x ∈ e.map Prod.fst
    · exact .ref (mem_of_write hx) ih
    · rw [write_of_notMem hx]
      exact .plain hx ih

/-! ## One after the other -/

lemma replaceInTurn_append (e : References α) (s t : List α) :
    e.replaceInTurn (s ++ t) = e.replaceInTurn s ++ e.replaceInTurn t := by
  induction e generalizing s t with
  | nil => rfl
  | cons r e ih =>
    simp only [replaceInTurn, replaceChar, List.flatMap_append]
    exact ih _ _

lemma replaceInTurn_of_disjoint (h : ∀ r ∈ e, r.1 ∉ s) : e.replaceInTurn s = s := by
  induction e with
  | nil => rfl
  | cons r e ih =>
    obtain ⟨hr, he⟩ := List.forall_mem_cons.mp h
    have hsame : replaceChar r.1 r.2 s = s := by
      have hmap : s.flatMap (fun x => if x = r.1 then r.2 else [x]) = s.flatMap fun x => [x] :=
        List.flatMap_congr fun x hx => if_neg fun heq => hr (by rwa [← heq])
      rw [replaceChar, hmap, List.flatMap_singleton']
    rw [replaceInTurn, hsame, ih he]

/-- A character that is not replaced at its turn waits for a later one. -/
lemma replaceInTurn_singleton (h : e.Pairwise fun r r' => r'.1 ∉ r.2) (x : α) :
    e.replaceInTurn [x] = e.write x := by
  induction e with
  | nil => rfl
  | cons r e ih =>
    obtain ⟨c, w⟩ := r
    obtain ⟨hr, he⟩ := List.pairwise_cons.mp h
    rw [write_cons, replaceInTurn, replaceChar, List.flatMap_singleton]
    split_ifs with hx
    · exact replaceInTurn_of_disjoint hr
    · exact ih he

/-- **Where no reference has a character whose turn comes later, the order does not matter.** -/
theorem replaceInTurn_eq_escape (h : e.Pairwise fun r r' => r'.1 ∉ r.2) (s : List α) :
    e.replaceInTurn s = e.escape s := by
  induction s with
  | nil => exact replaceInTurn_of_disjoint fun r _ => List.not_mem_nil
  | cons x s ih =>
    have hsplit := e.replaceInTurn_append [x] s
    rw [List.singleton_append] at hsplit
    rw [hsplit, replaceInTurn_singleton h, ih]
    rfl

end Write

end References

end Omkit.Lib
