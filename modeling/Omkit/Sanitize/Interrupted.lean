import Omkit.Lib.Woven
import Omkit.Sanitize.Spliced

/-!
# Texts that sanitizing cleans

A text in which no block is interrupted by blocks, and from which no JSON document with a block in
its strings can be left, is clean after it was sanitized once.
-/

namespace Omkit.Sanitize

open Lib

variable {s t : PyStr}

/-! ## What may be left of a text -/

/-- The text `c` stands in a code fence of `u`. -/
def Fenced (u c : PyStr) : Prop :=
  ∃ w m, w <:+: u ∧ codeFence.matchAt w = some m ∧ m.rest = [] ∧ m.group.getD [] = c

/-- The text `t` is left of `s` when think blocks are taken out, then what stands around a code
fence, then images, however the blocks are chosen. -/
def Remnant (s t : PyStr) : Prop :=
  ∃ u c d, Woven [thinkBlock ignoreCase] u s ∧
    (¬ codeFence.Occurs (strip u) ∧ c = strip u ∨ ∃ g, Fenced (strip u) g ∧ c = strip g) ∧
    Woven [dataUri, markdownImage] d c ∧ t = strip d

/-- No block of the text is interrupted, and no document that may be left of it spells one. -/
structure Uninterrupted (F : Type) [JsonRuntime F] (depth : ℕ) (s : PyStr) : Prop where
  output : ∀ t, t <:+: s → ¬ Interrupted [] [thinkBlock sameChar] (thinkBlock sameChar) t
  response : ∀ E r L, removed = E ++ r :: L → ∀ t, t <:+: s → ¬ Interrupted E (r :: L) r t
  json : ∀ t, Remnant s t → (∀ r ∈ removed, ¬ r.Occurs t) →
    ∀ v, document F t = .ok (some v) → check depth v = .ok () →
      ∀ r ∈ removed, ¬ r.Occurs (outline (sortKeys v))

/-! ## What is left -/

section Left

lemma infix_stripAt (t : Marked) : stripAt t <:+: t :=
  (List.rdropWhile_prefix _ _).isInfix.trans (List.dropWhile_suffix _).isInfix

lemma infix_unfencedAt (t : Marked) : unfencedAt t <:+: t := by
  rw [unfencedAt]
  cases hm : (codeFence.comap Prod.fst).search t with
  | none => exact List.infix_refl t
  | some m => exact (infix_stripAt _).trans (Regex.search_group_infix hm)

lemma unfenced_cases (t : PyStr) : ¬ codeFence.Occurs t ∧ unfenced t = t ∨
    ∃ g, Fenced t g ∧ unfenced t = strip g := by
  rw [unfenced]
  cases hm : codeFence.search t with
  | none => exact Or.inl ⟨Regex.search_eq_none.mp hm, rfl⟩
  | some m =>
    obtain ⟨w, u, hw, hu, hrest, hgroup⟩ := Regex.takes_of_search hm
    exact Or.inr ⟨_, ⟨w, u, hw, hu, hrest, congrArg (Option.getD · []) hgroup⟩, rfl⟩

/-- What is left is one of the texts that may be left. -/
lemma remnant_left (s : PyStr) : Remnant s (left s) := by
  rw [left_eq]
  generalize hu : (thinkBlock ignoreCase).remove s = u
  have hwoven : Woven [thinkBlock ignoreCase] u s := hu ▸ Woven.remove _ s
  generalize hc : unfenced (strip u) = c
  refine ⟨u, c, _, hwoven, ?_, ?_, rfl⟩
  · rcases unfenced_cases (strip u) with ⟨hnone, heq⟩ | ⟨g, hg, heq⟩
    · exact Or.inl ⟨hnone, hc ▸ heq⟩
    · exact Or.inr ⟨g, hg, hc ▸ heq⟩
  · have himage : Woven [dataUri, markdownImage] _ (dataUri.remove c) :=
      (Woven.remove markdownImage (dataUri.remove c)).mono (by simp)
    have huri : Woven [dataUri, markdownImage] _ c := (Woven.remove dataUri c).mono (by simp)
    exact himage.trans huri

/-- A block that is left of a text from which its pattern was cut out was interrupted. -/
lemma interrupted_of_spliced {E L : List (Regex PyChar)} {r : Regex PyChar} {t u : Marked}
    (hne : ¬ r.Matches []) (ht : Ordered t)
    (hE : ∀ v, v <:+: t → WovenIn (E.map (Regex.comap Prod.fst)) v s.zipIdx)
    (hL : ∀ w, w <:+: u → WovenIn (L.map (Regex.comap Prod.fst)) w t)
    (hsub : u ⊆ (r.comap Prod.fst).remove t) (h : Spliced r u) :
    ∃ p, p <:+: s ∧ Interrupted E L r p := by
  obtain ⟨w, hw, hm, -⟩ := h
  have hnil : ¬ (r.comap Prod.fst).Matches ([] : Marked) := fun h => hne (Regex.matches_comap.mp h)
  obtain ⟨p, hp, hint⟩ := interrupted_of_removed hnil ht.nodup hE (hL w hw)
    (fun x hx => hsub (hw.subset hx)) (Regex.matches_comap.mpr hm)
  have hpart := hp.map Prod.fst
  rw [map_zipIdx] at hpart
  exact ⟨p.map Prod.fst, hpart, hint.map⟩

lemma interrupted_of_output (h : Spliced (thinkBlock sameChar) (outputAt s)) :
    ∃ p, p <:+: s ∧ Interrupted [] [thinkBlock sameChar] (thinkBlock sameChar) p := by
  have hhead : (thinkBlock sameChar).StartsWith fun _ => True :=
    (Regex.startsWith_lit (text "think>") fun _ _ => trivial).seq _
  refine interrupted_of_spliced (not_matches_nil hhead) (ordered_zipIdx s)
    (fun v hv => .of_part _ hv) (fun w hw => ?_) (stripAt_sublist _).subset h
  exact (WovenIn.of_part _ (hw.trans (infix_stripAt _))).woven (.remove _ _)

/-- What is left of a text is woven into it step by step. -/
lemma wovenIn_unthought {v : Marked} (hv : v <:+: unthoughtAt s) :
    WovenIn ([thinkBlock ignoreCase].map (Regex.comap Prod.fst)) v s.zipIdx :=
  (WovenIn.of_part _ (hv.trans ((infix_unfencedAt _).trans (infix_stripAt _)))).woven (.remove _ _)

lemma wovenIn_uris {v : Marked} (hv : v <:+: (dataUri.comap Prod.fst).remove (unthoughtAt s)) :
    WovenIn ([dataUri].map (Regex.comap Prod.fst)) v (unthoughtAt s) :=
  (WovenIn.of_part _ hv).woven (.remove _ _)

lemma wovenIn_images {v : Marked} (hv : v <:+: leftAt s) :
    WovenIn ([markdownImage].map (Regex.comap Prod.fst)) v
      ((dataUri.comap Prod.fst).remove (unthoughtAt s)) :=
  (WovenIn.of_part _ (hv.trans (infix_stripAt _))).woven (.remove _ _)

/-- **A block that is left was interrupted by blocks that were cut out with it or later.** -/
theorem interrupted_of_left : ∀ r ∈ removed, Spliced r (leftAt s) →
    ∃ E L, removed = E ++ r :: L ∧ ∃ p, p <:+: s ∧ Interrupted E (r :: L) r p := by
  have hne : ∀ r ∈ removed, ¬ r.Matches [] := fun r hr =>
    not_matches_nil (stretches_removed r hr).head
  have himages := leftAt_sublist s
  have huris := himages.trans (Regex.remove_sublist _ _)
  have hthinks := (huris.trans (Regex.remove_sublist _ _)).trans (unthoughtAt_sublist s)
  have hordered := ordered_unthoughtAt s
  simp only [removed, List.forall_mem_cons] at hne ⊢
  obtain ⟨hthink, huri, himage, -⟩ := hne
  refine ⟨fun h => ⟨[], _, rfl, ?_⟩, fun h => ⟨[thinkBlock ignoreCase], _, rfl, ?_⟩,
    fun h => ⟨[thinkBlock ignoreCase, dataUri], _, rfl, ?_⟩, by simp⟩
  · -- a think block, that a block of each pattern may have interrupted
    refine interrupted_of_spliced hthink (ordered_zipIdx s) (fun v hv => .of_part _ hv)
      (fun w hw => ?_) hthinks.subset h
    refine ((wovenIn_images hw).mono (by simp)).trans fun v hv => ?_
    exact ((wovenIn_uris hv).mono (by simp)).trans fun v hv => (wovenIn_unthought hv).mono (by simp)
  · refine interrupted_of_spliced huri hordered (fun v hv => wovenIn_unthought hv)
      (fun w hw => ?_) huris.subset h
    exact ((wovenIn_images hw).mono (by simp)).trans fun v hv => (wovenIn_uris hv).mono (by simp)
  · refine interrupted_of_spliced himage (hordered.sublist (Regex.remove_sublist _ _))
      (fun v hv => ?_) (fun w hw => wovenIn_images hw) himages.subset h
    exact ((wovenIn_uris hv).mono (by simp)).trans fun v hv => (wovenIn_unthought hv).mono (by simp)

end Left

/-! ## Nothing is left -/

section Clean

variable {F : Type} [JsonRuntime F] {depth : ℕ}

lemma Uninterrupted.seamless (h : Uninterrupted F depth s) : Seamless F depth s := by
  have hleft : ∀ r ∈ removed, ¬ Spliced r (leftAt s) := by
    intro r hr hsp
    obtain ⟨E, L, hsplit, p, hp, hint⟩ := interrupted_of_left r hr hsp
    exact h.response E r L hsplit p hp hint
  refine ⟨fun hsp => ?_, fun _ => hleft, fun v hdoc hc => ?_⟩
  · obtain ⟨p, hp, hint⟩ := interrupted_of_output hsp
    exact h.output p hp hint
  · exact h.json _ (remnant_left s) (fun r hr ho => hleft r hr ((occurs_left s r hr).mp ho)) v hdoc hc

/-- **Sanitizing leaves nothing to sanitize in a text without an interrupted block, if no document
that may be left of it spells one.** -/
theorem clean_of_uninterrupted (h : Uninterrupted F depth s) : Clean F depth s :=
  (clean_iff_seamless depth s).mpr h.seamless

/-! ### Blocks at the beginning -/

lemma Remnant.sublist (h : Remnant s t) : t.Sublist s := by
  obtain ⟨u, c, d, hu, hc, hd, rfl⟩ := h
  have hcu : c.Sublist u := by
    rcases hc with ⟨-, rfl⟩ | ⟨g, ⟨w, m, hw, hm, -, rfl⟩, rfl⟩
    · exact (infix_strip u).sublist
    · have hg : m.group.getD [] <:+: w := by
        refine Regex.search_group_infix (r := codeFence) ?_
        cases w with
        | nil => exact hm
        | cons x w => rw [Regex.search, hm]
      exact (infix_strip _).sublist.trans (hg.trans (hw.trans (infix_strip u))).sublist
  exact (infix_strip d).sublist.trans (hd.sublist.trans (hcu.trans hu.sublist))

/-- A text without brackets that has blocks at its beginning only. -/
lemma uninterrupted_of_tail (hout : ¬ (thinkBlock sameChar).Occurs s.tail)
    (hres : ∀ r ∈ removed, ¬ r.Occurs s.tail) (hopen : ∀ x ∈ s, isOpen x = false) :
    Uninterrupted F depth s := by
  have htail : ∀ t, t <:+: s → t.tail <:+: s.tail := by
    rintro t ⟨a, b, rfl⟩
    cases t with
    | nil => exact List.nil_infix
    | cons x t =>
      cases a with
      | nil => exact (List.prefix_append t b).isInfix
      | cons y a => exact ⟨a ++ [x], b, by simp⟩
  refine ⟨fun t ht hint => ?_, fun E r L hsplit t ht hint => ?_, fun t ht _ v hdoc => ?_⟩
  · obtain ⟨r, hr, ho⟩ := hint.occurs
    obtain rfl : r = thinkBlock sameChar := by simpa using hr
    exact hout (ho.mono (htail t ht))
  · obtain ⟨r', hr', ho⟩ := hint.occurs
    exact hres r' (hsplit ▸ hr') (ho.mono (htail t ht))
  · -- a document begins with a bracket
    have hnone : t.head?.any isOpen = false := by
      cases t with
      | nil => rfl
      | cons x t => exact hopen x (ht.sublist.subset List.mem_cons_self)
    rw [document, hnone] at hdoc
    cases hdoc

end Clean

theorem clean_thought : Clean Empty 900 (text "<think>a plan</think>yes") :=
  clean_of_uninterrupted (uninterrupted_of_tail (by decide +kernel)
    (by simp only [removed, List.forall_mem_cons]; decide +kernel) (by decide +kernel))

end Omkit.Sanitize
