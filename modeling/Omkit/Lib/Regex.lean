import Mathlib.Data.List.Infix
import Mathlib.Tactic

/-!
# Regular expressions

The matches of a backtracking engine in the order in which it tries them, the leftmost match of a
text, and the removal of all matches.  A pattern finds a match exactly in the texts that contain a
word of its language.
-/

namespace Omkit.Lib

variable {α : Type}

/-- A pattern: a character of a class, a sequence, a greedy option, any number of characters of a
class (greedily or lazily), and a group. -/
inductive Regex (α : Type)
  | empty
  | char (p : α → Bool)
  | seq (r r' : Regex α)
  | opt (r : Regex α)
  | rep (greedy : Bool) (p : α → Bool)
  | group (r : Regex α)

/-- A match: the text after it, and the text of the group. -/
structure Thread (α : Type) where
  rest : List α
  group : Option (List α) := none

namespace Regex

/-- A literal text, compared by `eqv`. -/
def lit (eqv : α → α → Bool) : List α → Regex α
  | [] => empty
  | x :: s => seq (char (eqv x)) (lit eqv s)

/-- At least one character of a class. -/
def plus (greedy : Bool) (p : α → Bool) : Regex α := seq (char p) (rep greedy p)

/-- What is left of a text after each number of characters of a class, fewest first. -/
def skips (p : α → Bool) : List α → List (List α)
  | [] => [[]]
  | x :: s => (x :: s) :: if p x then skips p s else []

/-- The matches at the start of a text, in the order in which they are tried. -/
def run : Regex α → Thread α → List (Thread α)
  | empty, t => [t]
  | char p, t => match t.rest with
    | [] => []
    | x :: s => if p x then [{ t with rest := s }] else []
  | seq r r', t => (r.run t).flatMap r'.run
  | opt r, t => r.run t ++ [t]
  | rep greedy p, t =>
    (if greedy then (skips p t.rest).reverse else skips p t.rest).map fun s => { t with rest := s }
  | group r, t =>
    (r.run t).map fun u => { u with group := some (t.rest.take (t.rest.length - u.rest.length)) }

/-- The match at the start of a text. -/
def matchAt (r : Regex α) (s : List α) : Option (Thread α) := (r.run ⟨s, none⟩).head?

/-- `re.search`: the leftmost match. -/
def search (r : Regex α) : List α → Option (Thread α)
  | [] => r.matchAt []
  | x :: s => match r.matchAt (x :: s) with
    | some t => some t
    | none => search r s

/-- `re.sub` with the empty text, on a text of at most `n` characters. -/
def removeAux (r : Regex α) : ℕ → List α → List α
  | 0, s => s
  | _ + 1, [] => []
  | n + 1, x :: s => match r.matchAt (x :: s) with
    | some t => if t.rest.length ≤ s.length then removeAux r n t.rest else x :: removeAux r n s
    | none => x :: removeAux r n s

/-- `re.sub` with the empty text: the matches are removed from left to right. -/
def remove (r : Regex α) (s : List α) : List α := removeAux r s.length s

/-! ## The language of a pattern -/

/-- The words that a pattern stands for. -/
def Matches : Regex α → List α → Prop
  | empty, w => w = []
  | char p, w => ∃ x, w = [x] ∧ p x = true
  | seq r r', w => ∃ u v, w = u ++ v ∧ r.Matches u ∧ r'.Matches v
  | opt r, w => w = [] ∨ r.Matches w
  | rep _ p, w => ∀ x ∈ w, p x = true
  | group r, w => r.Matches w

/-- A word of the pattern occurs in the text. -/
def Occurs (r : Regex α) (s : List α) : Prop := ∃ w, w <:+: s ∧ r.Matches w

lemma mem_skips {p : α → Bool} {s u : List α} :
    u ∈ skips p s ↔ ∃ w, s = w ++ u ∧ ∀ x ∈ w, p x = true := by
  induction s with
  | nil =>
    rw [skips, List.mem_singleton]
    constructor
    · rintro rfl
      exact ⟨[], rfl, by simp⟩
    · rintro ⟨w, hw, -⟩
      exact (List.append_eq_nil_iff.mp hw.symm).2
  | cons x s ih =>
    rw [skips, List.mem_cons]
    constructor
    · rintro (rfl | h)
      · exact ⟨[], rfl, by simp⟩
      · split at h
        · next hx =>
          obtain ⟨w, rfl, hw⟩ := ih.mp h
          exact ⟨x :: w, rfl, List.forall_mem_cons.mpr ⟨hx, hw⟩⟩
        · cases h
    · rintro ⟨w, hs, hw⟩
      cases w with
      | nil => exact Or.inl hs.symm
      | cons y w =>
        obtain ⟨rfl, rfl⟩ := List.cons.inj hs
        obtain ⟨hx, hw⟩ := List.forall_mem_cons.mp hw
        rw [if_pos hx]
        exact Or.inr (ih.mpr ⟨w, rfl, hw⟩)

/-- **The matches at the start of a text are its beginnings that the pattern stands for.** -/
theorem exists_run_iff (r : Regex α) (t : Thread α) (u : List α) :
    (∃ t' ∈ r.run t, t'.rest = u) ↔ ∃ w, t.rest = w ++ u ∧ r.Matches w := by
  induction r generalizing t u with
  | empty =>
    simp only [run, List.mem_singleton, exists_eq_left, Matches]
    constructor
    · rintro rfl
      exact ⟨[], rfl, rfl⟩
    · rintro ⟨w, h, rfl⟩
      exact h
  | char p =>
    rw [run]
    constructor
    · rintro ⟨t', ht', rfl⟩
      split at ht'
      · cases ht'
      · next x s hs =>
        split at ht'
        · next hx =>
          obtain rfl := List.mem_singleton.mp ht'
          exact ⟨[x], hs, x, rfl, hx⟩
        · cases ht'
    · rintro ⟨w, hw, x, rfl, hx⟩
      rw [List.singleton_append] at hw
      simp [hw, hx]
  | seq r r' ih ih' =>
    simp only [run, List.mem_flatMap, Matches]
    constructor
    · rintro ⟨t', ⟨t₁, h₁, h₂⟩, rfl⟩
      obtain ⟨w, hw, hm⟩ := (ih t t₁.rest).mp ⟨t₁, h₁, rfl⟩
      obtain ⟨w', hw', hm'⟩ := (ih' t₁ t'.rest).mp ⟨t', h₂, rfl⟩
      exact ⟨w ++ w', by rw [hw, hw', List.append_assoc], w, w', rfl, hm, hm'⟩
    · rintro ⟨_, hw, w, w', rfl, hm, hm'⟩
      obtain ⟨t₁, h₁, hrest⟩ := (ih t (w' ++ u)).mpr ⟨w, by rw [hw, List.append_assoc], hm⟩
      obtain ⟨t', h₂, rfl⟩ := (ih' t₁ u).mpr ⟨w', hrest, hm'⟩
      exact ⟨t', ⟨t₁, h₁, h₂⟩, rfl⟩
  | opt r ih =>
    simp only [run, List.mem_append, List.mem_singleton, Matches]
    constructor
    · rintro ⟨t', h | rfl, rfl⟩
      · obtain ⟨w, hw, hm⟩ := (ih t t'.rest).mp ⟨t', h, rfl⟩
        exact ⟨w, hw, Or.inr hm⟩
      · exact ⟨[], rfl, Or.inl rfl⟩
    · rintro ⟨w, hw, rfl | hm⟩
      · exact ⟨t, Or.inr rfl, hw⟩
      · obtain ⟨t', h, rfl⟩ := (ih t u).mpr ⟨w, hw, hm⟩
        exact ⟨t', Or.inl h, rfl⟩
  | rep greedy p =>
    have hmem : (∃ t' ∈ (rep greedy p).run t, t'.rest = u) ↔ u ∈ skips p t.rest := by
      cases greedy <;> simp [run]
    rw [hmem, mem_skips]
    rfl
  | group r ih =>
    simp only [run, List.mem_map, Matches]
    rw [← ih t u]
    constructor
    · rintro ⟨_, ⟨t', h, rfl⟩, rfl⟩
      exact ⟨t', h, rfl⟩
    · rintro ⟨t', h, rfl⟩
      exact ⟨_, ⟨t', h, rfl⟩, rfl⟩

lemma matchAt_eq_none {r : Regex α} {s : List α} :
    r.matchAt s = none ↔ ∀ w, w <+: s → ¬ r.Matches w := by
  rw [matchAt, List.head?_eq_none_iff]
  constructor
  · rintro h w ⟨u, rfl⟩ hm
    obtain ⟨t', ht', -⟩ := (r.exists_run_iff ⟨w ++ u, none⟩ u).mpr ⟨w, rfl, hm⟩
    rw [h] at ht'
    cases ht'
  · intro h
    rw [List.eq_nil_iff_forall_not_mem]
    intro t ht
    obtain ⟨w, hw, hm⟩ := (r.exists_run_iff ⟨s, none⟩ t.rest).mp ⟨t, ht, rfl⟩
    exact h w ⟨t.rest, hw.symm⟩ hm

lemma Occurs.mono {r : Regex α} {s t : List α} (h : r.Occurs s) (hst : s <:+: t) : r.Occurs t := by
  obtain ⟨w, hw, hm⟩ := h
  exact ⟨w, hw.trans hst, hm⟩

lemma matchAt_of_not_occurs {r : Regex α} {s : List α} (h : ¬ r.Occurs s) : r.matchAt s = none :=
  matchAt_eq_none.mpr fun w hw hm => h ⟨w, hw.isInfix, hm⟩

/-- **A search finds a match exactly if a word of the pattern occurs.** -/
theorem search_eq_none {r : Regex α} {s : List α} : r.search s = none ↔ ¬ r.Occurs s := by
  constructor
  · rintro h ⟨w, hw, hm⟩
    induction s with
    | nil =>
      obtain rfl := List.infix_nil.mp hw
      exact matchAt_eq_none.mp h [] (List.prefix_refl _) hm
    | cons x s ih =>
      rw [search] at h
      split at h
      · cases h
      · next hnone =>
        rcases List.infix_cons_iff.mp hw with hpre | hin
        · exact matchAt_eq_none.mp hnone w hpre hm
        · exact ih h hin
  · intro h
    induction s with
    | nil => exact matchAt_of_not_occurs h
    | cons x s ih =>
      rw [search, matchAt_of_not_occurs h]
      exact ih fun hs => h (hs.mono (List.suffix_cons x s).isInfix)

instance (r : Regex α) (s : List α) : Decidable (r.Occurs s) :=
  decidable_of_iff ((r.search s).isSome = true) (by
    rw [Option.isSome_iff_ne_none, Ne, search_eq_none, not_not])

/-- Nothing is removed from a text in which no word of the pattern occurs. -/
theorem remove_of_not_occurs {r : Regex α} {s : List α} (h : ¬ r.Occurs s) : r.remove s = s := by
  have key : ∀ n (s : List α), ¬ r.Occurs s → r.removeAux n s = s := by
    intro n
    induction n with
    | zero => exact fun s _ => rfl
    | succ n ih =>
      intro s hs
      cases s with
      | nil => rfl
      | cons x s =>
        rw [removeAux, matchAt_of_not_occurs hs]
        exact congrArg _ (ih s fun hs' => hs (hs'.mono (List.suffix_cons x s).isInfix))
  exact key s.length s h

end Regex

end Omkit.Lib
