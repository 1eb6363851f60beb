import Omkit.Lib.Cuts
import Omkit.Lib.Json.Outline
import Omkit.Lib.Json.Sorted
import Omkit.Sanitize

/-!
# What sanitizing leaves to sanitize

Each pattern is cut out of a text once.  What is left has a block of a pattern if the cuts brought
together characters that make one up, or if the strings of the JSON document that is written in
place of the text spell one.
-/

namespace Omkit.Sanitize

open Lib

/-! ## The blocks that are cut out -/

/-- What `sanitize_llm_response` cuts out of a text. -/
def removed : List (Regex PyChar) := [thinkBlock ignoreCase, dataUri, markdownImage]

section Patterns

variable {c : Char} {x : PyChar} {s : PyStr} {eqv : PyChar → PyChar → Bool}

/-- Case does not matter to a character without variants. -/
lemma eq_of_ignoreCase (hc : caseVariants c = [c, c]) (h : ignoreCase (.scalar c) x = true) :
    x = .scalar c := by
  cases x with
  | scalar d => simpa [ignoreCase, hc] using h
  | surrogate k => cases h

lemma eq_of_sameChar {c x : PyChar} (h : sameChar c x = true) : x = c := of_decide_eq_true h

lemma forall_sameChar {c : PyChar} {p : PyChar → Prop} (hc : p c) :
    ∀ x, sameChar c x = true → p x := by
  intro x hx
  rw [eq_of_sameChar hx]
  exact hc

lemma eq_of_isEdge (h : isEdge x = true) : x = .scalar '"' ∨ x = .scalar ']' := by
  simpa [isEdge] using h

/-- A literal that stands neither for a quote nor for a closing bracket has no edges. -/
lemma within_lit_edge (eqv : PyChar → PyChar → Bool) (s : PyStr)
    (hquote : ∀ c ∈ s, eqv c (.scalar '"') = false)
    (hclose : ∀ c ∈ s, eqv c (.scalar ']') = false) :
    (Regex.lit eqv s).Within fun x => isEdge x = false := by
  refine Regex.within_lit fun c hc x hx => ?_
  by_contra hedge
  rcases eq_of_isEdge (Bool.eq_true_of_not_eq_false hedge) with rfl | rfl
  · exact absurd hx (by simp [hquote c hc])
  · exact absurd hx (by simp [hclose c hc])

/-- Padding has none of the characters that end a part of a block. -/
lemma ne_of_isPadding (hc : isPadding (.scalar c) = false) (hx : isPadding x = true) :
    (fun x => decide (x ≠ .scalar c)) x = true := by
  rw [decide_eq_true_eq]
  rintro rfl
  exact absurd hx (by simp [hc])

lemma isEdge_of_base64 (hx : isBase64 x = true) : isEdge x = false := by
  by_contra hedge
  rcases eq_of_isEdge (Bool.eq_true_of_not_eq_false hedge) with rfl | rfl
  · exact absurd hx (by decide)
  · exact absurd hx (by decide)

lemma isAlphanum_range {c : Char} (h : c.isAlphanum = true) :
    65 ≤ c.toNat ∧ c.toNat ≤ 90 ∨ 97 ≤ c.toNat ∧ c.toNat ≤ 122 ∨ 48 ≤ c.toNat ∧ c.toNat ≤ 57 := by
  have hdef : c.isAlphanum = ((decide ('A'.val ≤ c.val ∧ c.val ≤ 'Z'.val) ||
      decide ('a'.val ≤ c.val) && decide (c.val ≤ 'z'.val)) ||
      decide ('0'.val ≤ c.val) && decide (c.val ≤ '9'.val)) := rfl
  simp only [hdef, Bool.or_eq_true, Bool.and_eq_true, decide_eq_true_eq] at h
  rcases h with (h | h) | h
  · exact Or.inl h
  · exact Or.inr (Or.inl h)
  · exact Or.inr (Or.inr h)

lemma isSpace_of_base64 (hx : isBase64 x = true) : isSpace x = false := by
  cases x with
  | surrogate k => rfl
  | scalar c =>
    simp only [isBase64, Bool.or_eq_true, decide_eq_true_eq, List.mem_cons, List.not_mem_nil,
      or_false] at hx
    rcases hx with h | rfl | rfl | rfl
    · have hrange := isAlphanum_range h
      simp only [isSpace, Bool.or_eq_false_iff, Bool.and_eq_false_iff, decide_eq_false_iff_not,
        beq_eq_false_iff_ne]
      omega
    · rfl
    · rfl
    · rfl

/-! ### Padding in a block -/

/-- A literal that begins with a character of a document's strings only. -/
lemma stretches_lit {r : PyStr}
    (hlit : (Regex.lit eqv (.scalar c :: r)).Within fun x => isEdge x = false)
    (hc : ∀ x, eqv (.scalar c) x = true → isPadding x = false) :
    (Regex.lit eqv (.scalar c :: r)).Stretches isPadding isEdge :=
  ⟨hlit.elastic, Regex.startsWith_lit r hc⟩

lemma ignoreCase_lt (h : ignoreCase (.scalar '<') x = true) : x = .scalar '<' :=
  eq_of_ignoreCase (by decide) h

lemma ignoreCase_gt (h : ignoreCase (.scalar '>') x = true) : x = .scalar '>' :=
  eq_of_ignoreCase (by decide) h

lemma stretches_thinkBlock : (thinkBlock ignoreCase).Stretches isPadding isEdge := by
  have hlt : ∀ x, ignoreCase (.scalar '<') x = true → isPadding x = false := by
    intro x hx
    rw [ignoreCase_lt hx]
    rfl
  have hopen := stretches_lit (within_lit_edge _ (text "<think>") (by decide) (by decide)) hlt
  have hclose := stretches_lit (within_lit_edge _ (text "</think>") (by decide) (by decide)) hlt
  have hany : (Regex.rep false anyChar).Absorbs isPadding isEdge :=
    Regex.absorbs_rep _ fun _ _ => rfl
  exact hopen.seq (hany.seq hclose)

lemma stretches_dataUri : dataUri.Stretches isPadding isEdge := by
  have hopen := stretches_lit
    (within_lit_edge sameChar (text "data:image/") (by decide) (by decide)) (forall_sameChar rfl)
  have hmid := stretches_lit (within_lit_edge sameChar (text ";base64,") (by decide) (by decide))
    (forall_sameChar rfl)
  have hkind : (Regex.plus true (· ≠ PyChar.scalar ';')).Absorbs isPadding isEdge :=
    Regex.absorbs_plus _ fun x hx => ne_of_isPadding rfl hx
  have hdata : (Regex.plus true isBase64).Elastic isPadding isEdge :=
    (Regex.within_plus _ fun x hx => isEdge_of_base64 hx).elastic
  exact hopen.seq (hkind.seq (hmid.seq hdata))

/-- A closing bracket may stand there, but only before a parenthesis. -/
lemma stretches_linkOpen : (Regex.lit sameChar (text "](")).Stretches isPadding isEdge := by
  have hparen : (Regex.lit sameChar (text "(")).Within fun x => isEdge x = false :=
    within_lit_edge _ _ (by decide) (by decide)
  have hfirm : (Regex.lit sameChar (text "(")).StartsWith fun x =>
      isPadding x = false ∧ isEdge x = false :=
    Regex.startsWith_lit [] (forall_sameChar ⟨rfl, rfl⟩)
  exact ⟨Regex.Elastic.char_seq hfirm hparen.elastic, Regex.startsWith_lit _ (forall_sameChar rfl)⟩

lemma stretches_markdownImage : markdownImage.Stretches isPadding isEdge := by
  have hopen := stretches_lit (within_lit_edge sameChar (text "![") (by decide) (by decide))
    (forall_sameChar rfl)
  have hclose := stretches_lit (within_lit_edge sameChar (text ")") (by decide) (by decide))
    (forall_sameChar rfl)
  have halt : (Regex.rep true (· ≠ PyChar.scalar ']')).Absorbs isPadding isEdge :=
    Regex.absorbs_rep _ fun x hx => ne_of_isPadding rfl hx
  have hurl : (Regex.plus true (· ≠ PyChar.scalar ')')).Absorbs isPadding isEdge :=
    Regex.absorbs_plus _ fun x hx => ne_of_isPadding rfl hx
  exact hopen.seq (halt.seq (stretches_linkOpen.seq (hurl.seq hclose)))

lemma stretches_removed : ∀ r ∈ removed, r.Stretches isPadding isEdge := by
  simp only [removed, List.forall_mem_cons]
  exact ⟨stretches_thinkBlock, stretches_dataUri, stretches_markdownImage, by simp⟩

/-! ### Whitespace around a block -/

/-- The words of a pattern that neither begin nor end with whitespace are not stripped. -/
lemma occurs_strip {r : Regex PyChar} (h : r.StartsWith fun x => isSpace x = false)
    (h' : r.EndsWith fun x => isSpace x = false) {t : PyStr} :
    r.Occurs (strip t) ↔ r.Occurs t := by
  constructor
  · exact fun ho => ho.mono (infix_strip t)
  · rintro ⟨w, ⟨a, b, rfl⟩, hm⟩
    have hw : Solid w := ⟨h w hm, h' w hm⟩
    rw [List.append_assoc, strip_around hw]
    exact ⟨w, ⟨_, _, List.append_assoc ..⟩, hm⟩

lemma occurs_strip_removed : ∀ r ∈ removed, ∀ t, r.Occurs (strip t) ↔ r.Occurs t := by
  simp only [removed, List.forall_mem_cons]
  refine ⟨fun t => occurs_strip ?_ ?_, fun t => occurs_strip ?_ ?_, fun t => occurs_strip ?_ ?_,
    by simp⟩
  · refine (Regex.startsWith_lit (text "think>") fun x hx => ?_).seq _
    rw [ignoreCase_lt hx]
    rfl
  · refine .seq _ (.seq _ (Regex.endsWith_lit (text "</think") fun x hx => ?_))
    rw [ignoreCase_gt hx]
    rfl
  · refine (Regex.startsWith_lit (text "ata:image/") (forall_sameChar ?_)).seq _
    rfl
  · exact .seq _ (.seq _ (.seq _ (Regex.endsWith_plus _ fun x hx => isSpace_of_base64 hx)))
  · refine (Regex.startsWith_lit (text "[") (forall_sameChar ?_)).seq _
    rfl
  · exact .seq _ (.seq _ (.seq _ (.seq _ (Regex.endsWith_lit [] (forall_sameChar rfl)))))

end Patterns

/-! ## What is kept -/

/-- The characters of a text with their positions. -/
abbrev Marked := List (PyChar × ℕ)

/-- `strip`. -/
def stripAt (t : Marked) : Marked :=
  (t.dropWhile (isSpace ∘ Prod.fst)).rdropWhile (isSpace ∘ Prod.fst)

/-- The text in the first code fence, or all of it if there is none. -/
def unfenced (t : PyStr) : PyStr :=
  match codeFence.search t with
  | some m => strip (m.group.getD [])
  | none => t

/-- `unfenced`, with positions. -/
def unfencedAt (t : Marked) : Marked :=
  match (codeFence.comap Prod.fst).search t with
  | some m => stripAt (m.group.getD [])
  | none => t

/-- What `sanitize_llm_output` keeps of a text. -/
def outputAt (s : PyStr) : Marked :=
  stripAt (((thinkBlock sameChar).comap Prod.fst).remove s.zipIdx)

/-- What `sanitize_llm_response` keeps of a text when it comes to look for images. -/
def unthoughtAt (s : PyStr) : Marked :=
  unfencedAt (stripAt (((thinkBlock ignoreCase).comap Prod.fst).remove s.zipIdx))

/-- What `sanitize_llm_response` keeps of a text when it comes to look for JSON. -/
def leftAt (s : PyStr) : Marked :=
  stripAt ((markdownImage.comap Prod.fst).remove ((dataUri.comap Prod.fst).remove (unthoughtAt s)))

/-- A block of the pattern was pieced together: its characters did not all stand next to each
other. -/
def Spliced (r : Regex PyChar) (t : Marked) : Prop :=
  ∃ w, w <:+: t ∧ r.Matches (w.map Prod.fst) ∧ ¬ Adjacent w

section Kept

variable {s : PyStr} {t u : Marked}

lemma map_rdropWhile (p : PyChar → Bool) (t : Marked) :
    (t.map Prod.fst).rdropWhile p = (t.rdropWhile (p ∘ Prod.fst)).map Prod.fst := by
  simp only [List.rdropWhile, ← List.map_reverse, List.dropWhile_map]

lemma map_stripAt (t : Marked) : (stripAt t).map Prod.fst = strip (t.map Prod.fst) := by
  rw [strip, stripAt, List.dropWhile_map, map_rdropWhile]

lemma map_zipIdx (s : PyStr) : s.zipIdx.map Prod.fst = s := List.zipIdx_map_fst 0 s

lemma map_unfencedAt (t : Marked) :
    (unfencedAt t).map Prod.fst = unfenced (t.map Prod.fst) := by
  rw [unfencedAt, unfenced, Regex.search_comap]
  cases (codeFence.comap Prod.fst).search t with
  | none => rfl
  | some m =>
    simp only [Option.map_some, Thread.map, map_stripAt]
    cases m.group <;> rfl

lemma map_outputAt (s : PyStr) : (outputAt s).map Prod.fst = sanitizeLlmOutput s := by
  rw [outputAt, map_stripAt, ← Regex.remove_comap, map_zipIdx, sanitizeLlmOutput]
  split_ifs with hs
  · subst hs
    rfl
  · rfl

/-- The text that is searched for JSON. -/
def left (s : PyStr) : PyStr := (leftAt s).map Prod.fst

lemma left_eq (s : PyStr) : left s = strip (markdownImage.remove (dataUri.remove
    (unfenced (strip ((thinkBlock ignoreCase).remove s))))) := by
  rw [left, leftAt, map_stripAt, ← Regex.remove_comap, ← Regex.remove_comap, unthoughtAt,
    map_unfencedAt, map_stripAt, ← Regex.remove_comap, map_zipIdx]

variable {F : Type} [JsonRuntime F]

lemma sanitizeLlmResponse_eq (depth : ℕ) (s : PyStr) :
    sanitizeLlmResponse F depth s = (normalise F depth (left s)).map strip := by
  rw [left_eq, sanitizeLlmResponse]
  split_ifs with hs
  · subst hs
    rfl
  · rfl

/-! ### Order -/

lemma stripAt_sublist (t : Marked) : (stripAt t).Sublist t :=
  (List.rdropWhile_prefix _ _).sublist.trans (List.dropWhile_sublist _)

lemma unfencedAt_sublist (t : Marked) : (unfencedAt t).Sublist t := by
  rw [unfencedAt]
  cases hm : (codeFence.comap Prod.fst).search t with
  | none => exact List.Sublist.refl t
  | some m => exact (stripAt_sublist _).trans (Regex.search_group_infix hm).sublist

lemma unthoughtAt_sublist (s : PyStr) :
    (unthoughtAt s).Sublist (((thinkBlock ignoreCase).comap Prod.fst).remove s.zipIdx) :=
  (unfencedAt_sublist _).trans (stripAt_sublist _)

lemma ordered_unthoughtAt (s : PyStr) : Ordered (unthoughtAt s) :=
  (ordered_zipIdx s).sublist ((unthoughtAt_sublist s).trans (Regex.remove_sublist _ _))

lemma leftAt_sublist (s : PyStr) :
    (leftAt s).Sublist ((markdownImage.comap Prod.fst).remove
      ((dataUri.comap Prod.fst).remove (unthoughtAt s))) :=
  stripAt_sublist _

/-- **After a removal only pieced blocks are left.** -/
lemma occurs_iff_spliced {r : Regex PyChar} (hne : ¬ r.Matches []) (hu : Ordered u)
    (hsub : t ⊆ (r.comap Prod.fst).remove u) : r.Occurs (t.map Prod.fst) ↔ Spliced r t := by
  constructor
  · rintro ⟨v, hv, hm⟩
    obtain ⟨w, hw, rfl⟩ := List.infix_map_iff.mp hv
    have hnil : ¬ (r.comap Prod.fst).Matches ([] : Marked) := fun h =>
      hne (Regex.matches_comap.mp h)
    exact ⟨w, hw, hm, not_adjacent_of_removed hnil hu (fun x hx => hsub (hw.subset hx))
      (Regex.matches_comap.mpr hm)⟩
  · rintro ⟨w, hw, hm, -⟩
    exact ⟨w.map Prod.fst, hw.map Prod.fst, hm⟩

lemma not_matches_nil {r : Regex PyChar} {p : PyChar → Prop} (h : r.StartsWith p) :
    ¬ r.Matches [] := by
  intro hm
  obtain ⟨x, t, hnil, -⟩ := h [] hm
  cases hnil

lemma occurs_output (s : PyStr) :
    (thinkBlock sameChar).Occurs (sanitizeLlmOutput s) ↔
      Spliced (thinkBlock sameChar) (outputAt s) := by
  have hhead : (thinkBlock sameChar).StartsWith fun _ => True :=
    (Regex.startsWith_lit (text "think>") fun _ _ => trivial).seq _
  rw [← map_outputAt]
  exact occurs_iff_spliced (not_matches_nil hhead) (ordered_zipIdx s) (stripAt_sublist _).subset

lemma occurs_left (s : PyStr) : ∀ r ∈ removed, r.Occurs (left s) ↔ Spliced r (leftAt s) := by
  have hne : ∀ r ∈ removed, ¬ r.Matches [] := fun r hr =>
    not_matches_nil (stretches_removed r hr).head
  have huri := Regex.remove_sublist (dataUri.comap Prod.fst) (unthoughtAt s)
  have himage := (leftAt_sublist s).trans (Regex.remove_sublist _ _)
  simp only [removed, List.forall_mem_cons] at hne ⊢
  obtain ⟨hthink, hdata, hmark, -⟩ := hne
  refine ⟨?_, ?_, ?_, by simp⟩
  · exact occurs_iff_spliced hthink (ordered_zipIdx s)
      ((himage.trans huri).trans (unthoughtAt_sublist s)).subset
  · exact occurs_iff_spliced hdata (ordered_unthoughtAt s) himage.subset
  · exact occurs_iff_spliced hmark ((ordered_unthoughtAt s).sublist huri) (leftAt_sublist s).subset

end Kept

/-! ## Nothing to sanitize -/

section Clean

variable (F : Type) [JsonRuntime F]

/-- `sanitize_llm_response(text)` where no block is cut out. -/
def reformat (depth : ℕ) (s : PyStr) : Except StdExc PyStr :=
  (normalise F depth (strip (unfenced (strip s)))).map strip

/-- Sanitizing a text leaves no block, and doing it again cuts nothing out. -/
structure Clean (depth : ℕ) (s : PyStr) : Prop where
  output : ¬ (thinkBlock sameChar).Occurs (sanitizeLlmOutput s)
  output_again : sanitizeLlmOutput (sanitizeLlmOutput s) = sanitizeLlmOutput s
  response : ∀ t, sanitizeLlmResponse F depth s = .ok t → ∀ r ∈ removed, ¬ r.Occurs t
  response_again : ∀ t, sanitizeLlmResponse F depth s = .ok t →
    sanitizeLlmResponse F depth t = reformat F depth t

/-- The document that is written anew in place of a text. -/
def document (s : PyStr) : Except StdExc (Option (Json F)) :=
  if s.head?.any isOpen then tryLoads s else .ok none

/-- No block is pieced together by the cuts, and none is spelt by the strings of a document. -/
structure Seamless (depth : ℕ) (s : PyStr) : Prop where
  output : ¬ Spliced (thinkBlock sameChar) (outputAt s)
  text : document F (left s) = .ok none → ∀ r ∈ removed, ¬ Spliced r (leftAt s)
  json : ∀ v, document F (left s) = .ok (some v) → check depth v = .ok () →
    ∀ r ∈ removed, ¬ r.Occurs (outline (sortKeys v))

variable {F} {depth : ℕ} {s t : PyStr}

lemma normalise_eq (s : PyStr) : normalise F depth s =
    (document F s).bind fun v => (v.map (dumpsIndent depth 2)).getD (.ok s) := by
  rw [normalise, document]
  split_ifs
  · cases tryLoads (F := F) s with
    | error e => rfl
    | ok v => cases v <;> rfl
  · rfl

lemma dumpsIndent_eq_ok {v : Json F} : dumpsIndent depth 2 v = .ok t ↔
    check depth v = .ok () ∧ t = renderIndent .indented 2 0 (sortKeys v) := by
  rw [← check_sortKeys, dumpsIndent]
  cases check depth (sortKeys v) with
  | error e =>
    constructor
    · intro h
      cases h
    · rintro ⟨h, -⟩
      cases h
  | ok u =>
    constructor
    · exact fun h => ⟨rfl, (Except.ok.inj h).symm⟩
    · rintro ⟨-, rfl⟩
      rfl

/-- What is returned is the text that is left, or its document. -/
lemma sanitizeLlmResponse_eq_ok : sanitizeLlmResponse F depth s = .ok t ↔
    (document F (left s) = .ok none ∧ t = strip (left s)) ∨
      ∃ v, document F (left s) = .ok (some v) ∧ check depth v = .ok () ∧
        t = strip (renderIndent .indented 2 0 (sortKeys v)) := by
  rw [sanitizeLlmResponse_eq, normalise_eq]
  rcases document F (left s) with e | _ | v
  · simp [Except.bind, Except.map]
  · simp [Except.bind, Except.map, eq_comm]
  · show (dumpsIndent depth 2 v).map strip = .ok t ↔ _
    constructor
    · intro h
      cases hd : dumpsIndent depth 2 v with
      | error e =>
        rw [hd] at h
        cases h
      | ok u =>
        rw [hd] at h
        obtain ⟨hc, rfl⟩ := dumpsIndent_eq_ok.mp hd
        exact Or.inr ⟨v, rfl, hc, (Except.ok.inj h).symm⟩
    · rintro (⟨h, -⟩ | ⟨w, h, hc, rfl⟩)
      · cases h
      · obtain rfl := Option.some.inj (Except.ok.inj h)
        rw [dumpsIndent_eq_ok.mpr ⟨hc, rfl⟩]
        rfl

/-! ### A block in what is returned -/

lemma occurs_text : ∀ r ∈ removed, r.Occurs (strip (left s)) ↔ Spliced r (leftAt s) := by
  intro r hr
  rw [occurs_strip_removed r hr, occurs_left s r hr]

lemma occurs_json {v : Json F} : ∀ r ∈ removed,
    r.Occurs (strip (renderIndent .indented 2 0 (sortKeys v))) ↔
      r.Occurs (outline (sortKeys v)) := by
  intro r hr
  rw [occurs_strip_removed r hr, occurs_renderIndent (stretches_removed r hr)]

/-! ### Doing it again -/

lemma infix_unfenced (t : PyStr) : unfenced t <:+: t := by
  rw [unfenced]
  cases hm : codeFence.search t with
  | none => exact List.infix_refl t
  | some m => exact (infix_strip _).trans (Regex.search_group_infix hm)

/-- Where no block occurs, nothing is cut out. -/
lemma reformat_of_not_occurs (h : ∀ r ∈ removed, ¬ r.Occurs t) :
    sanitizeLlmResponse F depth t = reformat F depth t := by
  simp only [removed, List.forall_mem_cons] at h
  obtain ⟨hthink, huri, himage, -⟩ := h
  have hin : unfenced (strip t) <:+: t := (infix_unfenced _).trans (infix_strip t)
  by_cases ht : t = []
  · subst ht
    rfl
  · rw [sanitizeLlmResponse, if_neg ht, Regex.remove_of_not_occurs hthink]
    show (normalise F depth
      (strip (markdownImage.remove (dataUri.remove (unfenced (strip t)))))).map strip = _
    rw [Regex.remove_of_not_occurs fun ho => huri (ho.mono hin),
      Regex.remove_of_not_occurs fun ho => himage (ho.mono hin), reformat]

lemma output_of_not_occurs (h : ¬ (thinkBlock sameChar).Occurs (sanitizeLlmOutput s)) :
    sanitizeLlmOutput (sanitizeLlmOutput s) = sanitizeLlmOutput s := by
  have hstrip : strip (sanitizeLlmOutput s) = sanitizeLlmOutput s := by
    rw [sanitizeLlmOutput]
    split_ifs
    · rfl
    · exact strip_strip _
  conv_lhs => rw [sanitizeLlmOutput, Regex.remove_of_not_occurs h, hstrip]
  split_ifs with hnil
  · exact hnil.symm
  · rfl

/-- **Sanitizing leaves nothing to sanitize exactly if the cuts bring no block together, and the
document that is written anew does not spell one.** -/
theorem clean_iff_seamless (depth : ℕ) (s : PyStr) : Clean F depth s ↔ Seamless F depth s := by
  constructor
  · intro h
    refine ⟨fun hsp => h.output ((occurs_output s).mpr hsp), fun hdoc r hr hsp => ?_,
      fun v hdoc hc r hr ho => ?_⟩
    · have hres : sanitizeLlmResponse F depth s = .ok (strip (left s)) :=
        sanitizeLlmResponse_eq_ok.mpr (Or.inl ⟨hdoc, rfl⟩)
      exact h.response _ hres r hr ((occurs_text r hr).mpr hsp)
    · have hres := sanitizeLlmResponse_eq_ok.mpr (Or.inr ⟨v, hdoc, hc, rfl⟩)
      exact h.response _ hres r hr ((occurs_json r hr).mpr ho)
  · intro h
    have hout : ¬ (thinkBlock sameChar).Occurs (sanitizeLlmOutput s) := fun ho =>
      h.output ((occurs_output s).mp ho)
    have hres : ∀ t, sanitizeLlmResponse F depth s = .ok t → ∀ r ∈ removed, ¬ r.Occurs t := by
      intro t ht r hr ho
      rcases sanitizeLlmResponse_eq_ok.mp ht with ⟨hdoc, heq⟩ | ⟨v, hdoc, hc, heq⟩
      · rw [heq, occurs_text r hr] at ho
        exact h.text hdoc r hr ho
      · rw [heq, occurs_json r hr] at ho
        exact h.json v hdoc hc r hr ho
    exact ⟨hout, output_of_not_occurs hout, hres, fun t ht => reformat_of_not_occurs (hres t ht)⟩

end Clean

/-- **A block is pieced together around another one, and an escape hides one from the cuts.** -/
theorem blocks_left : ¬ Clean Empty 900 (text "<thi<think></think>nk></think>") ∧
    ¬ Clean Empty 900 (text "[\"\\u003cthink></think>\"]") := by
  constructor
  · intro h
    exact h.output (by decide +kernel)
  · intro h
    have hres : sanitizeLlmResponse Empty 900 (text "[\"\\u003cthink></think>\"]") =
        .ok (text "[\n  \"<think></think>\"\n]") := by decide +kernel
    exact h.response _ hres (thinkBlock ignoreCase) (by simp [removed]) (by decide +kernel)

end Omkit.Sanitize
