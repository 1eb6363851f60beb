import Omkit.Lib.Regex
import Mathlib.Data.List.Chain

/-!
# What a removal leaves

A removal goes over a text once: what stood on the two sides of a match comes together, and may make
a word of the pattern that was not there before.  With the position of each character beside it, a
word that is left is one of characters that stood next to each other or it was pieced together; the
first kind does not survive the removal.
-/

namespace Omkit.Lib

variable {α β : Type}

/-! ## Patterns over annotated characters -/

/-- The images of the characters of a match. -/
def Thread.map (f : β → α) (t : Thread β) : Thread α := ⟨t.rest.map f, t.group.map (List.map f)⟩

namespace Regex

/-- The pattern for characters that carry more than what it looks at. -/
def comap (f : β → α) : Regex α → Regex β
  | empty => empty
  | char p => char (p ∘ f)
  | seq r r' => seq (r.comap f) (r'.comap f)
  | opt r => opt (r.comap f)
  | rep greedy p => rep greedy (p ∘ f)
  | group r => group (r.comap f)

variable {f : β → α}

lemma skips_map (p : α → Bool) (s : List β) :
    skips p (s.map f) = (skips (p ∘ f) s).map (List.map f) := by
  induction s with
  | nil => rfl
  | cons x s ih =>
    rw [List.map_cons, skips, skips, ih]
    by_cases hx : p (f x) = true
    · simp [hx]
    · simp [hx]

/-- The matches of the images are the images of the matches. -/
lemma run_comap (r : Regex α) (t : Thread β) :
    r.run (t.map f) = ((r.comap f).run t).map (Thread.map f) := by
  induction r generalizing t with
  | empty => rfl
  | char p =>
    obtain ⟨rest, g⟩ := t
    cases rest with
    | nil => rfl
    | cons x s =>
      simp only [run, comap, Thread.map, List.map_cons, Function.comp]
      split_ifs
      · rfl
      · rfl
  | seq r r' ih ih' =>
    simp only [run, comap, ih, List.flatMap_map, List.map_flatMap, ih']
  | opt r ih => simp only [run, comap, ih, List.map_append, List.map_cons, List.map_nil]
  | rep greedy p =>
    obtain ⟨rest, g⟩ := t
    cases greedy with
    | true =>
      simp only [run, comap, Thread.map, skips_map, if_true, List.map_reverse, List.map_map]
      rfl
    | false =>
      simp only [run, comap, Thread.map, skips_map, Bool.false_eq_true, if_false, List.map_map]
      rfl
  | group r ih =>
    simp only [run, comap, ih, List.map_map]
    refine List.map_congr_left fun u _ => ?_
    simp [Thread.map, List.map_take]

lemma matchAt_comap (r : Regex α) (s : List β) :
    r.matchAt (s.map f) = ((r.comap f).matchAt s).map (Thread.map f) := by
  have h := r.run_comap (f := f) ⟨s, none⟩
  rw [matchAt, matchAt, ← List.head?_map, ← h]
  rfl

lemma search_comap (r : Regex α) (s : List β) :
    r.search (s.map f) = ((r.comap f).search s).map (Thread.map f) := by
  induction s with
  | nil => exact r.matchAt_comap []
  | cons x s ih =>
    have h := r.matchAt_comap (f := f) (x :: s)
    rw [List.map_cons] at h ⊢
    rw [search, search, h, ih]
    cases (r.comap f).matchAt (x :: s) <;> rfl

/-- What is left of the images is the image of what is left. -/
theorem remove_comap (r : Regex α) (s : List β) :
    r.remove (s.map f) = ((r.comap f).remove s).map f := by
  have key : ∀ n (s : List β), r.removeAux n (s.map f) = ((r.comap f).removeAux n s).map f := by
    intro n
    induction n with
    | zero => exact fun s => rfl
    | succ n ih =>
      intro s
      cases s with
      | nil => rfl
      | cons x s =>
        have h := r.matchAt_comap (f := f) (x :: s)
        rw [List.map_cons] at h ⊢
        rw [removeAux, removeAux, h]
        cases (r.comap f).matchAt (x :: s) with
        | none => simp only [Option.map_none, ih, List.map_cons]
        | some t =>
          simp only [Option.map_some, Thread.map, List.length_map, ih]
          split_ifs
          · rfl
          · rfl
  rw [remove, remove, List.length_map, key]

lemma matches_comap {r : Regex α} {w : List β} :
    (r.comap f).Matches w ↔ r.Matches (w.map f) := by
  induction r generalizing w with
  | empty => simp [comap, Matches]
  | char p =>
    simp only [comap, Matches, Function.comp]
    constructor
    · rintro ⟨x, rfl, hx⟩
      exact ⟨f x, rfl, hx⟩
    · rintro ⟨y, hw, hy⟩
      obtain ⟨x, rfl, rfl⟩ := List.map_eq_singleton_iff.mp hw
      exact ⟨x, rfl, hy⟩
  | seq r r' ih ih' =>
    simp only [comap, Matches]
    constructor
    · rintro ⟨u, v, rfl, hu, hv⟩
      exact ⟨u.map f, v.map f, List.map_append, ih.mp hu, ih'.mp hv⟩
    · rintro ⟨u, v, hw, hu, hv⟩
      obtain ⟨u, v, rfl, rfl, rfl⟩ := List.map_eq_append_iff.mp hw
      exact ⟨u, v, rfl, ih.mpr hu, ih'.mpr hv⟩
  | opt r ih => simp [comap, Matches, ih]
  | rep greedy p => simp [comap, Matches]
  | group r ih => exact ih

/-! ## What is left -/

variable {r : Regex α} {s t w : List α}

lemma suffix_of_run {t' : Thread α} {t : Thread α} (h : t' ∈ r.run t) : t'.rest <:+ t.rest := by
  obtain ⟨w, hw, -⟩ := (r.exists_run_iff t t'.rest).mp ⟨t', h, rfl⟩
  exact ⟨w, hw.symm⟩

/-- The text of the group is a part of the text. -/
lemma group_of_run {t t' : Thread α} (h : t' ∈ r.run t) :
    t'.group = t.group ∨ ∃ g, t'.group = some g ∧ g <:+: t.rest := by
  induction r generalizing t t' with
  | empty =>
    obtain rfl := List.mem_singleton.mp h
    exact Or.inl rfl
  | char p =>
    rw [run] at h
    split at h
    · cases h
    · split_ifs at h
      · obtain rfl := List.mem_singleton.mp h
        exact Or.inl rfl
      · cases h
  | seq r r' ih ih' =>
    obtain ⟨t₁, h₁, h₂⟩ := List.mem_flatMap.mp h
    rcases ih' h₂ with heq | ⟨g, hg, hin⟩
    · rw [heq]
      exact ih h₁
    · exact Or.inr ⟨g, hg, hin.trans (suffix_of_run h₁).isInfix⟩
  | opt r ih =>
    rcases List.mem_append.mp h with h | h
    · exact ih h
    · obtain rfl := List.mem_singleton.mp h
      exact Or.inl rfl
  | rep greedy p =>
    obtain ⟨u, -, rfl⟩ := List.mem_map.mp h
    exact Or.inl rfl
  | group r ih =>
    obtain ⟨u, hu, rfl⟩ := List.mem_map.mp h
    exact Or.inr ⟨_, rfl, (List.take_prefix _ _).isInfix⟩

lemma search_group_infix {m : Thread α} (h : r.search s = some m) : m.group.getD [] <:+: s := by
  have hmatch : ∀ u : List α, r.matchAt u = some m → m.group.getD [] <:+: u := by
    intro u hu
    rcases group_of_run (List.mem_of_mem_head? hu) with hnone | ⟨g, hg, hin⟩
    · rw [hnone]
      exact (List.nil_infix : [] <:+: u)
    · rw [hg]
      exact hin
  induction s with
  | nil => exact hmatch [] h
  | cons x s ih =>
    rw [search] at h
    cases hm : r.matchAt (x :: s) with
    | some m' =>
      rw [hm] at h
      obtain rfl := Option.some.inj h
      exact hmatch _ hm
    | none =>
      rw [hm] at h
      exact (ih h).trans (List.suffix_cons x s).isInfix

lemma removeAux_sublist (r : Regex α) (n : ℕ) (s : List α) : (r.removeAux n s).Sublist s := by
  induction n generalizing s with
  | zero => exact List.Sublist.refl s
  | succ n ih =>
    cases s with
    | nil => exact List.Sublist.refl _
    | cons x s =>
      rw [removeAux]
      cases hm : r.matchAt (x :: s) with
      | none => exact (ih s).cons_cons x
      | some t =>
        dsimp only
        split_ifs
        · exact (ih t.rest).trans (suffix_of_run (List.mem_of_mem_head? hm)).sublist
        · exact (ih s).cons_cons x

lemma remove_sublist (r : Regex α) (s : List α) : (r.remove s).Sublist s :=
  r.removeAux_sublist s.length s

/-- **Of a word that stands in the text the first character is taken away.** -/
theorem remove_head (hne : ¬ r.Matches []) (hs : s.Nodup) {z : α} (hw : z :: w <:+: s)
    (hm : r.Matches (z :: w)) : z ∉ r.remove s := by
  have key : ∀ n (s : List α), s.length ≤ n → s.Nodup → z :: w <:+: s → z ∉ r.removeAux n s := by
    intro n
    induction n with
    | zero =>
      intro s hlen _ hw
      obtain rfl := List.length_eq_zero_iff.mp (Nat.le_zero.mp hlen)
      exact absurd (List.infix_nil.mp hw) (List.cons_ne_nil z w)
    | succ n ih =>
      intro s hlen hs hw
      cases s with
      | nil => exact absurd (List.infix_nil.mp hw) (List.cons_ne_nil z w)
      | cons x s =>
        obtain ⟨hx, hs⟩ := List.nodup_cons.mp hs
        have hlen : s.length ≤ n := Nat.le_of_succ_le_succ hlen
        -- the rest of the text after the match at its start, if there is one
        have hrest : ∀ u, u <:+ s → z :: w <:+: u → z ∉ r.removeAux n u := fun u hu hwu =>
          ih u (hu.length_le.trans hlen) (hs.sublist hu.sublist) hwu
        rw [removeAux]
        cases hat : r.matchAt (x :: s) with
        | none =>
          rcases List.infix_cons_iff.mp hw with hpre | hin
          · exact absurd hm (matchAt_eq_none.mp hat _ hpre)
          · intro hmem
            rcases List.mem_cons.mp hmem with rfl | hmem
            · exact hx (hin.subset List.mem_cons_self)
            · exact hrest s (List.suffix_refl s) hin hmem
        | some t =>
          obtain ⟨u, hu, hmu⟩ := (r.exists_run_iff ⟨x :: s, none⟩ t.rest).mp
            ⟨t, List.mem_of_mem_head? hat, rfl⟩
          have hsplit : x :: s = u ++ t.rest := hu
          have hsuffix : t.rest <:+ s := by
            cases u with
            | nil => exact absurd hmu hne
            | cons y u => exact ⟨u, (List.cons.inj hsplit).2.symm⟩
          dsimp only
          rw [if_pos hsuffix.length_le]
          obtain ⟨a, b, hab⟩ := hw
          rw [List.append_assoc, hsplit] at hab
          rcases List.append_eq_append_iff.mp hab with ⟨c, rfl, hc⟩ | ⟨c, rfl, hc⟩
          · cases c with
            | nil => exact hrest t.rest hsuffix ⟨[], b, hc⟩
            | cons y c =>
              -- the word begins in the match
              obtain rfl := (List.cons.inj hc).1
              intro hmem
              have hnodup : ((a ++ z :: c) ++ t.rest).Nodup :=
                hsplit ▸ List.nodup_cons.mpr ⟨hx, hs⟩
              exact (List.nodup_append.mp hnodup).2.2 z (by simp) z
                ((r.removeAux_sublist n t.rest).subset hmem) rfl
          · exact hrest t.rest hsuffix ⟨c, b, by rw [hc, List.append_assoc]⟩
  exact key s.length s le_rfl hs hw

/-- Of a word that stands in the text a character is taken away. -/
lemma remove_hits (hne : ¬ r.Matches []) (hs : s.Nodup) (hw : w <:+: s) (hm : r.Matches w) :
    ∃ x ∈ w, x ∉ r.remove s := by
  cases w with
  | nil => exact absurd hm hne
  | cons x w => exact ⟨x, List.mem_cons_self, remove_head hne hs hw hm⟩

end Regex

/-! ## Positions -/

/-- The positions of the characters increase. -/
def Ordered (t : List (α × ℕ)) : Prop := t.Pairwise fun x y => x.2 < y.2

/-- The characters stood next to each other. -/
def Adjacent (w : List (α × ℕ)) : Prop := w.IsChain fun x y => y.2 = x.2 + 1

instance (w : List (α × ℕ)) : Decidable (Adjacent w) :=
  inferInstanceAs (Decidable (w.IsChain fun x y => y.2 = x.2 + 1))

variable {s t w : List (α × ℕ)}

lemma ordered_zipIdx (l : List α) : Ordered l.zipIdx := by
  have h : (l.zipIdx.map Prod.snd).Pairwise (· < ·) := by
    rw [List.zipIdx_map_snd]
    exact List.pairwise_lt_range'
  exact List.pairwise_map.mp h

lemma Ordered.nodup (h : Ordered t) : t.Nodup :=
  h.imp fun hlt heq => absurd (heq ▸ hlt) (lt_irrefl _)

lemma Ordered.sublist (h : Ordered t) (hs : s.Sublist t) : Ordered s :=
  List.Pairwise.sublist hs h

lemma Adjacent.ordered (h : Adjacent w) : Ordered w := by
  have hlt : (w.map Prod.snd).IsChain (· < ·) :=
    List.isChain_map_of_isChain Prod.snd (fun x y hxy => by omega) h
  exact List.pairwise_map.mp hlt.pairwise

lemma prefix_of_adjacent {x : α × ℕ} (ht : Ordered (x :: t)) (hw : Adjacent (x :: w))
    (hsub : w ⊆ t) : w <+: t := by
  induction w generalizing x t with
  | nil => exact List.nil_prefix
  | cons y w ih =>
    obtain ⟨hstep, hw⟩ := List.isChain_cons_cons.mp hw
    obtain ⟨hx, ht⟩ := List.pairwise_cons.mp ht
    have hy : y ∈ t := hsub List.mem_cons_self
    cases t with
    | nil => cases hy
    | cons z t =>
      have hyz : y = z := by
        -- no position lies between two that follow each other
        obtain ⟨hz, -⟩ := List.pairwise_cons.mp ht
        rcases List.mem_cons.mp hy with rfl | hy
        · rfl
        · have hxz := hx z List.mem_cons_self
          have hzy := hz y hy
          omega
      subst hyz
      refine List.cons_prefix_cons.mpr ⟨rfl, ih ht hw fun a ha => ?_⟩
      have hya := (List.pairwise_cons.mp (Adjacent.ordered hw)).1 a ha
      rcases List.mem_cons.mp (hsub (List.mem_cons_of_mem _ ha)) with rfl | hmem
      · exact absurd hya (lt_irrefl _)
      · exact hmem

/-- What stood next to each other still does. -/
lemma infix_of_adjacent (ht : Ordered t) (hw : Adjacent w) (hsub : w ⊆ t) : w <:+: t := by
  cases w with
  | nil => exact (List.nil_infix : [] <:+: t)
  | cons x w =>
    obtain ⟨a, b, rfl⟩ := List.append_of_mem (hsub List.mem_cons_self)
    obtain ⟨-, hb, hab⟩ := List.pairwise_append.mp ht
    have hsub' : w ⊆ b := by
      intro y hy
      have hxy := (List.pairwise_cons.mp (Adjacent.ordered hw)).1 y hy
      rcases List.mem_append.mp (hsub (List.mem_cons_of_mem _ hy)) with hya | hyb
      · have hyx := hab y hya x List.mem_cons_self
        omega
      · rcases List.mem_cons.mp hyb with rfl | hyb
        · exact absurd hxy (lt_irrefl _)
        · exact hyb
    obtain ⟨c, hc⟩ := prefix_of_adjacent hb hw hsub'
    exact ⟨a, c, by rw [List.append_assoc, List.cons_append, hc]⟩

/-- **A removal leaves no word of characters that stood next to each other.** -/
theorem not_adjacent_of_removed {r : Regex (α × ℕ)} (hne : ¬ r.Matches []) (ht : Ordered t)
    (hsub : w ⊆ r.remove t) (hm : r.Matches w) : ¬ Adjacent w := by
  intro hw
  have hin : w <:+: t := infix_of_adjacent ht hw fun x hx => (r.remove_sublist t).subset (hsub hx)
  obtain ⟨x, hx, hout⟩ := Regex.remove_hits hne ht.nodup hin hm
  exact hout (hsub hx)

end Omkit.Lib
