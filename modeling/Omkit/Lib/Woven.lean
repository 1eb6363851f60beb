import Omkit.Lib.Cuts

/-!
# Texts with words put in

What removals take out of a text are whole words of their patterns, and words may have been taken
out of these before.  Seen from what is left, the text is woven: it has words put in, which may have
words put in themselves.  A word that a removal leaves is one that was interrupted by others.
-/

namespace Omkit.Lib

variable {α β : Type}

/-! ## What the engine takes -/

/-- The match with more text after it. -/
def Thread.extend (q : List α) (t : Thread α) : Thread α := { t with rest := t.rest ++ q }

namespace Regex

variable {r : Regex α} {s v q : List α}

/-- Started at the word, the engine takes all of it. -/
def Takes (r : Regex α) (w : List α) : Prop := ∃ t, r.matchAt w = some t ∧ t.rest = []

lemma length_le_of_mem_skips {p : α → Bool} {u : List α} (h : u ∈ skips p s) :
    u.length ≤ s.length := by
  obtain ⟨w, rfl, -⟩ := mem_skips.mp h
  simp

lemma skips_append (p : α → Bool) (v q : List α) :
    (skips p (v ++ q)).filter (fun u => q.length ≤ u.length) = (skips p v).map (· ++ q) := by
  induction v with
  | nil =>
    cases q with
    | nil => rfl
    | cons x q =>
      have hshort : ∀ u ∈ (if p x then skips p q else []), ¬ (x :: q).length ≤ u.length := by
        intro u hu
        split_ifs at hu with hx
        · have hle := length_le_of_mem_skips hu
          rw [List.length_cons]
          omega
        · cases hu
      have hnone : (if p x then skips p q else []).filter
          (fun u => (x :: q).length ≤ u.length) = [] :=
        List.filter_eq_nil_iff.mpr fun u hu => by simpa using hshort u hu
      rw [List.nil_append]
      conv_lhs => rw [skips, List.filter_cons_of_pos (by simp), hnone]
      rfl
  | cons x v ih =>
    rw [List.cons_append, skips, skips, List.filter_cons_of_pos (by simp; omega), List.map_cons]
    by_cases hx : p x = true
    · rw [if_pos hx, if_pos hx, ih, List.cons_append]
    · rw [if_neg hx, if_neg hx]
      rfl

lemma flatMap_filter_of_nil {γ δ : Type} {f : γ → List δ} {c : γ → Bool}
    (h : ∀ u, c u = false → f u = []) (l : List γ) : (l.filter c).flatMap f = l.flatMap f := by
  induction l with
  | nil => rfl
  | cons u l ih =>
    rw [List.flatMap_cons]
    cases hu : c u with
    | false => rw [List.filter_cons_of_neg (by simp [hu]), ih, h u hu, List.nil_append]
    | true => rw [List.filter_cons_of_pos hu, List.flatMap_cons, ih]

/-- **The matches within a part of a text are those of the part on its own.** -/
lemma run_append (r : Regex α) (q : List α) (t : Thread α) :
    (r.run (t.extend q)).filter (fun u => q.length ≤ u.rest.length) =
      (r.run t).map (Thread.extend q) := by
  induction r generalizing t with
  | empty => simp [run, Thread.extend]
  | char p =>
    obtain ⟨v, g⟩ := t
    cases v with
    | nil =>
      cases q with
      | nil => rfl
      | cons x q =>
        simp only [run, Thread.extend, List.nil_append]
        split_ifs <;> simp
    | cons x v =>
      simp only [run, Thread.extend, List.cons_append]
      split_ifs <;> simp [Thread.extend]
  | seq r r' ih ih' =>
    -- what has gone beyond the part does not come back into it
    have hbeyond : ∀ u : Thread α, decide (q.length ≤ u.rest.length) = false →
        (r'.run u).filter (fun u => q.length ≤ u.rest.length) = [] := by
      intro u hu
      rw [decide_eq_false_iff_not] at hu
      refine List.filter_eq_nil_iff.mpr fun u' hu' => ?_
      have hle := (suffix_of_run hu').length_le
      simp only [decide_eq_true_eq]
      omega
    rw [run, run, List.filter_flatMap, ← flatMap_filter_of_nil hbeyond, ih, List.flatMap_map,
      List.map_flatMap]
    exact List.flatMap_congr fun u _ => ih' u
  | opt r ih =>
    rw [run, run, List.filter_append, ih, List.map_append, List.filter_cons_of_pos]
    · rfl
    · simp [Thread.extend]
  | rep greedy p =>
    have hskips := skips_append p t.rest q
    have hrun : ∀ l : List (List α), ((l.map fun s => { t.extend q with rest := s }).filter
        fun u => q.length ≤ u.rest.length) =
          (l.filter fun u => q.length ≤ u.length).map fun s => { t with rest := s } := by
      intro l
      rw [List.filter_map]
      rfl
    rw [run, run, hrun]
    cases greedy with
    | true =>
      simp only [if_true, Thread.extend, List.filter_reverse, hskips, List.map_reverse, List.map_map]
      rfl
    | false =>
      simp only [Bool.false_eq_true, if_false, Thread.extend, hskips, List.map_map]
      rfl
  | group r ih =>
    rw [run, run, List.filter_map]
    show ((r.run (t.extend q)).filter fun u => q.length ≤ u.rest.length).map _ = _
    rw [ih, List.map_map, List.map_map]
    refine List.map_congr_left fun u hu => ?_
    have hle := (suffix_of_run hu).length_le
    simp only [Function.comp, Thread.extend, List.length_append, Nat.add_sub_add_right]
    rw [List.take_append_of_le_length (Nat.sub_le _ _)]

/-- What the engine takes at the start of a text is a word that it takes. -/
lemma takes_of_matchAt {t : Thread α} (h : r.matchAt (v ++ q) = some t) (hq : t.rest = q) :
    ∃ u, r.matchAt v = some u ∧ u.rest = [] ∧ u.group = t.group := by
  have hrun := r.run_append q ⟨v, none⟩
  -- the first match of the text is the first that does not go beyond `v`
  have hhead : (r.run ⟨v ++ q, none⟩).head? = some t := h
  obtain ⟨l, hl⟩ := List.head?_eq_some_iff.mp hhead
  have hext : (⟨v, none⟩ : Thread α).extend q = ⟨v ++ q, none⟩ := rfl
  rw [hext, hl, List.filter_cons_of_pos (by simp [hq])] at hrun
  obtain ⟨u, l', hu, heq, -⟩ := List.map_eq_cons_iff.mp hrun.symm
  have hrest : u.rest ++ q = q := (congrArg Thread.rest heq).trans hq
  refine ⟨u, ?_, by simpa using hrest, by rw [← heq]; rfl⟩
  rw [matchAt, hu]
  rfl

/-- What a search finds is a part of the text that the engine takes. -/
lemma takes_of_search {t : Thread α} (h : r.search s = some t) :
    ∃ w u, w <:+: s ∧ r.matchAt w = some u ∧ u.rest = [] ∧ u.group = t.group := by
  have hmatch : ∀ s : List α, r.matchAt s = some t →
      ∃ w u, w <+: s ∧ r.matchAt w = some u ∧ u.rest = [] ∧ u.group = t.group := by
    intro s h
    obtain ⟨w, hw⟩ := suffix_of_run (List.mem_of_mem_head? h)
    have hsplit : w ++ t.rest = s := hw
    rw [← hsplit] at h ⊢
    obtain ⟨u, hu⟩ := takes_of_matchAt h rfl
    exact ⟨w, u, List.prefix_append w t.rest, hu⟩
  induction s with
  | nil =>
    obtain ⟨w, u, hw, hu⟩ := hmatch [] h
    exact ⟨w, u, hw.isInfix, hu⟩
  | cons x s ih =>
    rw [search] at h
    cases hm : r.matchAt (x :: s) with
    | some m =>
      rw [hm] at h
      obtain rfl := Option.some.inj h
      obtain ⟨w, u, hw, hu⟩ := hmatch _ hm
      exact ⟨w, u, hw.isInfix, hu⟩
    | none =>
      rw [hm] at h
      obtain ⟨w, u, hw, hu⟩ := ih h
      exact ⟨w, u, hw.trans (List.suffix_cons x s).isInfix, hu⟩

lemma Takes.matches (h : r.Takes v) : r.Matches v := by
  obtain ⟨t, ht, hrest⟩ := h
  obtain ⟨w, hw, hm⟩ := (r.exists_run_iff ⟨v, none⟩ []).mp ⟨t, List.mem_of_mem_head? ht, hrest⟩
  have hv : v = w := hw.trans (List.append_nil w)
  rwa [hv]

lemma takes_comap {r : Regex α} {f : β → α} {w : List β} :
    (r.comap f).Takes w ↔ r.Takes (w.map f) := by
  rw [Takes, Takes, matchAt_comap]
  cases (r.comap f).matchAt w with
  | none => simp
  | some t => simp [Thread.map]

end Regex

/-! ## Weaving -/

/-- The text `t` is `w` with words of the patterns put in, which may have words put in
themselves. -/
inductive Woven (R : List (Regex α)) : List α → List α → Prop
  | nil : Woven R [] []
  | keep (x : α) {w t : List α} : Woven R w t → Woven R (x :: w) (x :: t)
  | skip {r : Regex α} {v g w t : List α} : r ∈ R → r.Takes v → Woven R v g → Woven R w t →
    Woven R w (g ++ t)

namespace Woven

variable {R R' : List (Regex α)} {r : Regex α} {s t u v w : List α}

lemma refl (R : List (Regex α)) (w : List α) : Woven R w w := by
  induction w with
  | nil => exact .nil
  | cons x w ih => exact .keep x ih

lemma mono (h : Woven R w t) (hR : R ⊆ R') : Woven R' w t := by
  induction h with
  | nil => exact .nil
  | keep x _ ih => exact .keep x ih
  | skip hr hv _ _ ihg ih => exact .skip (hR hr) hv ihg ih

lemma append (h : Woven R u s) (h' : Woven R w t) : Woven R (u ++ w) (s ++ t) := by
  induction h with
  | nil => exact h'
  | keep x _ ih => exact .keep x ih
  | skip hr hv hg _ _ ih =>
    rw [List.append_assoc]
    exact .skip hr hv hg ih

lemma sublist (h : Woven R w t) : w.Sublist t := by
  induction h with
  | nil => exact List.Sublist.refl []
  | keep x _ ih => exact ih.cons_cons x
  | skip _ _ _ _ _ ih => exact ih.trans (List.sublist_append_right _ _)

/-- Words may stand before the first character. -/
lemma uncons {x : α} (h : Woven R (x :: w) t) :
    ∃ a s, t = a ++ x :: s ∧ Woven R [] a ∧ Woven R w s := by
  generalize hu : x :: w = u at h
  induction h with
  | nil => cases hu
  | keep y h _ =>
    obtain ⟨rfl, rfl⟩ := List.cons.inj hu
    exact ⟨[], _, rfl, .nil, h⟩
  | @skip r v g w' t hr hv hg _ _ ih =>
    obtain ⟨a, s, rfl, ha, hs⟩ := ih hu
    exact ⟨g ++ a, s, (List.append_assoc ..).symm, .skip hr hv hg ha, hs⟩

lemma split (h : Woven R (u ++ w) t) : ∃ a b, t = a ++ b ∧ Woven R u a ∧ Woven R w b := by
  induction u generalizing t with
  | nil => exact ⟨[], t, rfl, .nil, h⟩
  | cons x u ih =>
    obtain ⟨a, s, rfl, ha, hs⟩ := h.uncons
    obtain ⟨b, c, rfl, hb, hc⟩ := ih hs
    exact ⟨a ++ x :: b, c, by simp, ha.append (.keep x hb), hc⟩

lemma trans (h : Woven R w t) (h' : Woven R t s) : Woven R w s := by
  induction h generalizing s with
  | nil => exact h'
  | keep x _ ih =>
    obtain ⟨a, s, rfl, ha, hs⟩ := h'.uncons
    exact ha.append (.keep x (ih hs))
  | skip hr hv _ _ ihg ih =>
    obtain ⟨a, b, rfl, ha, hb⟩ := h'.split
    exact .skip hr hv (ihg ha) (ih hb)

lemma map {f : β → α} {w t : List β} (h : Woven (R.map (Regex.comap f)) w t) :
    Woven R (w.map f) (t.map f) := by
  induction h with
  | nil => exact .nil
  | keep x _ ih => exact .keep (f x) ih
  | skip hr hv _ _ ihg ih =>
    obtain ⟨r', hr', rfl⟩ := List.mem_map.mp hr
    rw [List.map_append]
    exact .skip hr' (Regex.takes_comap.mp hv) ihg ih

/-- **A removal leaves a text that its words were put into.** -/
theorem remove (r : Regex α) (s : List α) : Woven [r] (r.remove s) s := by
  have key : ∀ n (s : List α), Woven [r] (r.removeAux n s) s := by
    intro n
    induction n with
    | zero => exact fun s => .refl _ s
    | succ n ih =>
      intro s
      cases s with
      | nil => exact .nil
      | cons x s =>
        rw [Regex.removeAux]
        cases hm : r.matchAt (x :: s) with
        | none => exact .keep x (ih s)
        | some t =>
          dsimp only
          split_ifs
          · obtain ⟨v, hv⟩ := Regex.suffix_of_run (List.mem_of_mem_head? hm)
            have hsplit : v ++ t.rest = x :: s := hv
            rw [← hsplit] at hm ⊢
            obtain ⟨u, hu, hrest, -⟩ := Regex.takes_of_matchAt hm rfl
            exact .skip List.mem_cons_self ⟨u, hu, hrest⟩ (.refl _ v) (ih t.rest)
          · exact .keep x (ih s)
  exact key s.length s

/-- Where something was put in, a word stands. -/
lemma occurs (h : Woven R w t) (hne : w ≠ t) : ∃ r ∈ R, r.Occurs t := by
  induction h with
  | nil => exact absurd rfl hne
  | keep x _ ih =>
    obtain ⟨r, hr, ho⟩ := ih fun h => hne (congrArg _ h)
    exact ⟨r, hr, ho.mono (List.suffix_cons x _).isInfix⟩
  | @skip r v g w t hr hv _ _ ihg _ =>
    by_cases hvg : v = g
    · exact ⟨r, hr, g, (List.prefix_append g t).isInfix, hvg ▸ hv.matches⟩
    · obtain ⟨r', hr', ho⟩ := ihg hvg
      exact ⟨r', hr', ho.mono (List.prefix_append g t).isInfix⟩

end Woven

/-- A part of `t` is `w` with words put in. -/
def WovenIn (R : List (Regex α)) (w t : List α) : Prop := ∃ p, p <:+: t ∧ Woven R w p

namespace WovenIn

variable {R R' : List (Regex α)} {s t w : List α}

lemma of_part (R : List (Regex α)) (h : w <:+: t) : WovenIn R w t := ⟨w, h, .refl R w⟩

lemma mono (h : WovenIn R w t) (hR : R ⊆ R') : WovenIn R' w t := by
  obtain ⟨p, hp, hw⟩ := h
  exact ⟨p, hp, hw.mono hR⟩

/-- More words may be put into the text. -/
lemma woven (h : WovenIn R w t) (ht : Woven R t s) : WovenIn R w s := by
  obtain ⟨p, ⟨a, b, rfl⟩, hw⟩ := h
  obtain ⟨c, d, rfl, hc, -⟩ := ht.split
  obtain ⟨a', p', rfl, -, hp'⟩ := hc.split
  exact ⟨p', ⟨a', d, rfl⟩, hw.trans hp'⟩

lemma trans (h : WovenIn R w t) (ht : ∀ v, v <:+: t → WovenIn R v s) : WovenIn R w s := by
  obtain ⟨p, hp, hw⟩ := h
  obtain ⟨q, hq, hpq⟩ := ht p hp
  exact ⟨q, hq, hw.trans hpq⟩

end WovenIn

/-! ## Interrupted words -/

/-- A word of the pattern that words of the patterns `L` interrupt, so that none begins where it
does.  Words of the patterns `E`, which are taken out before, do not count. -/
def Interrupted (E L : List (Regex α)) (r : Regex α) (t : List α) : Prop :=
  ∃ x m m₁ m₂, t = x :: m₂ ∧ r.Matches (x :: m) ∧ Woven L m m₁ ∧ Woven E m₁ m₂ ∧
    ∀ p, p <+: x :: m₁ → ¬ r.Matches p

/-- **A word that is left was interrupted.** -/
theorem interrupted_of_removed {E L : List (Regex α)} {r : Regex α} {s t w : List α}
    (hne : ¬ r.Matches []) (ht : t.Nodup) (hE : ∀ v, v <:+: t → WovenIn E v s)
    (hL : WovenIn L w t) (hw : w ⊆ r.remove t) (hm : r.Matches w) :
    ∃ p, p <:+: s ∧ Interrupted E L r p := by
  cases w with
  | nil => exact absurd hm hne
  | cons x m =>
    obtain ⟨p, hp, hwoven⟩ := hL
    obtain ⟨a, m₁, rfl, -, hm₁⟩ := hwoven.uncons
    have hin : x :: m₁ <:+: t := (List.suffix_append a _).isInfix.trans hp
    obtain ⟨q, hq, hwoven'⟩ := hE _ hin
    obtain ⟨b, m₂, rfl, -, hm₂⟩ := hwoven'.uncons
    refine ⟨x :: m₂, (List.suffix_append b _).isInfix.trans hq, x, m, m₁, m₂, rfl, hm, hm₁, hm₂,
      fun v hv hmv => ?_⟩
    -- a word that began there would have been taken out
    cases v with
    | nil => exact hne hmv
    | cons y v =>
      obtain ⟨rfl, -⟩ := List.cons_prefix_cons.mp hv
      exact Regex.remove_head hne ht (hv.isInfix.trans hin) hmv (hw List.mem_cons_self)

namespace Interrupted

variable {E L : List (Regex α)} {r : Regex α} {t : List α}

lemma map {f : β → α} {t : List β}
    (h : Interrupted (E.map (Regex.comap f)) (L.map (Regex.comap f)) (r.comap f) t) :
    Interrupted E L r (t.map f) := by
  obtain ⟨x, m, m₁, m₂, rfl, hm, hL, hE, hnone⟩ := h
  refine ⟨f x, m.map f, m₁.map f, m₂.map f, rfl, Regex.matches_comap.mp hm, hL.map, hE.map,
    fun p hp hmp => ?_⟩
  rw [← List.map_cons] at hp
  obtain ⟨q, hq, rfl⟩ := List.prefix_map_iff.mp hp
  exact hnone q hq (Regex.matches_comap.mpr hmp)

/-- The words that interrupt stand after the first character. -/
lemma occurs (h : Interrupted E L r t) : ∃ r' ∈ E ++ L, r'.Occurs t.tail := by
  obtain ⟨x, m, m₁, m₂, rfl, hm, hL, hE, hnone⟩ := h
  by_cases hm₂ : m₁ = m₂
  · subst hm₂
    have hne : m ≠ m₁ := by
      rintro rfl
      exact hnone _ (List.prefix_refl _) hm
    obtain ⟨r', hr', ho⟩ := hL.occurs hne
    exact ⟨r', List.mem_append_right _ hr', ho⟩
  · obtain ⟨r', hr', ho⟩ := hE.occurs hm₂
    exact ⟨r', List.mem_append_left _ hr', ho⟩

end Interrupted

end Omkit.Lib
