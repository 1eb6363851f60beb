import Omkit.Sanitize
import Omkit.Lib.Json.Sorted

/-!
# Finding the JSON in a text

`extract_json` on a JSON document with other text around it.  If nothing but whitespace follows,
the document is parsed as it stands; otherwise it is cut out by counting brackets, and the count
takes those inside of strings too.
-/

namespace Omkit.Sanitize

open Lib

/-! ## Counting brackets -/

section Count

variable (bracket close : PyChar)

/-- The opening brackets of a text, less the closing ones. -/
def net : PyStr → ℤ
  | [] => 0
  | x :: s => (if x = bracket then 1 else if x = close then -1 else 0) + net s

variable {bracket close} {s t : PyStr}

@[simp] lemma net_append (s t : PyStr) :
    net bracket close (s ++ t) = net bracket close s + net bracket close t := by
  induction s with
  | nil => simp [net]
  | cons x s ih => rw [List.cons_append, net, net, ih, add_assoc]

lemma net_eq_zero (h : ∀ x ∈ s, x ≠ bracket ∧ x ≠ close) : net bracket close s = 0 := by
  induction s with
  | nil => rfl
  | cons x s ih =>
    obtain ⟨⟨hb, hc⟩, hs⟩ := List.forall_mem_cons.mp h
    rw [net, if_neg hb, if_neg hc, ih hs, add_zero]

/-- A beginning of a text at which the depth first comes to zero. -/
def FirstZero (bracket close : PyChar) (depth : ℤ) (t : PyStr) : Prop :=
  t ≠ [] ∧ depth + net bracket close t = 0 ∧
    ∀ u, u <+: t → u ≠ [] → depth + net bracket close u = 0 → u = t

lemma firstZero_singleton {depth : ℤ} {x : PyChar} (h : depth + net bracket close [x] = 0) :
    FirstZero bracket close depth [x] := by
  refine ⟨by simp, h, fun u hu hne _ => ?_⟩
  rcases List.prefix_cons_iff.mp hu with rfl | ⟨v, rfl, hv⟩
  · exact absurd rfl hne
  · rw [List.prefix_nil.mp hv]

/-- One more character in front, that does not bring the depth to zero. -/
lemma firstZero_cons {depth : ℤ} {x : PyChar} (h : depth + net bracket close [x] ≠ 0) :
    FirstZero bracket close depth (x :: t) ↔
      FirstZero bracket close (depth + net bracket close [x]) t := by
  have hnet : ∀ u, depth + net bracket close (x :: u) =
      depth + net bracket close [x] + net bracket close u := fun u => by
    rw [← List.singleton_append, net_append, add_assoc]
  constructor
  · rintro ⟨-, hzero, hfirst⟩
    rw [hnet] at hzero
    refine ⟨?_, hzero, fun u hu hne hu0 => ?_⟩
    · rintro rfl
      exact h (by simpa [net] using hzero)
    · exact (List.cons.inj (hfirst (x :: u) (List.cons_prefix_cons.mpr ⟨rfl, hu⟩) (by simp)
        (by rw [hnet, hu0]))).2
  · rintro ⟨-, hzero, hfirst⟩
    refine ⟨by simp, by rw [hnet, hzero], fun u hu hne hu0 => ?_⟩
    rcases List.prefix_cons_iff.mp hu with rfl | ⟨v, rfl, hv⟩
    · exact absurd rfl hne
    · rw [hnet] at hu0
      have hvne : v ≠ [] := by
        rintro rfl
        exact h (by simpa [net] using hu0)
      rw [hfirst v hv hvne hu0]

/-- A character that leaves the depth positive is read, and the loop goes on. -/
lemma untilClosed_step {depth : ℤ} {x : PyChar}
    (ih : ∀ t, untilClosed bracket close (depth + net bracket close [x]) s = some t ↔
      t <+: s ∧ FirstZero bracket close (depth + net bracket close [x]) t)
    (hne : depth + net bracket close [x] ≠ 0) :
    (untilClosed bracket close (depth + net bracket close [x]) s).map (x :: ·) = some t ↔
      t <+: x :: s ∧ FirstZero bracket close depth t := by
  rw [Option.map_eq_some_iff]
  constructor
  · rintro ⟨u, hu, rfl⟩
    obtain ⟨hpre, hzero⟩ := (ih u).mp hu
    exact ⟨List.cons_prefix_cons.mpr ⟨rfl, hpre⟩, (firstZero_cons hne).mpr hzero⟩
  · rintro ⟨hpre, hzero⟩
    rcases List.prefix_cons_iff.mp hpre with rfl | ⟨u, rfl, hu⟩
    · exact absurd rfl hzero.1
    · exact ⟨u, (ih u).mpr ⟨hu, (firstZero_cons hne).mp hzero⟩, rfl⟩

/-- **The loop finds the shortest beginning of the text in which the brackets cancel.** -/
theorem untilClosed_eq_some {depth : ℤ} (hd : 0 < depth) :
    untilClosed bracket close depth s = some t ↔ t <+: s ∧ FirstZero bracket close depth t := by
  induction s generalizing depth t with
  | nil =>
    rw [untilClosed, List.prefix_nil]
    exact ⟨nofun, fun h => absurd h.1 h.2.1⟩
  | cons x s ih =>
    rw [untilClosed]
    split_ifs with hb hc hzero
    · have hnet : net bracket close [x] = 1 := by rw [net, if_pos hb]; rfl
      rw [← hnet]
      exact untilClosed_step (fun t => ih (by omega)) (by omega)
    · -- the bracket that brings the depth to zero
      have hnet : net bracket close [x] = -1 := by rw [net, if_neg hb, if_pos hc]; rfl
      have hlast : depth + net bracket close [x] = 0 := by omega
      constructor
      · rintro h
        obtain rfl := Option.some.inj h
        exact ⟨List.cons_prefix_cons.mpr ⟨rfl, List.nil_prefix⟩, firstZero_singleton hlast⟩
      · rintro ⟨hpre, hzero⟩
        rcases List.prefix_cons_iff.mp hpre with rfl | ⟨u, rfl, -⟩
        · exact absurd rfl hzero.1
        · have hx : [x] <+: x :: u := List.cons_prefix_cons.mpr ⟨rfl, List.nil_prefix⟩
          rw [hzero.2.2 [x] hx (by simp) hlast]
    · have hnet : net bracket close [x] = -1 := by rw [net, if_neg hb, if_pos hc]; rfl
      rw [sub_eq_add_neg, ← hnet]
      exact untilClosed_step (fun t => ih (by omega)) (by omega)
    · have hnet : net bracket close [x] = 0 := by rw [net, if_neg hb, if_neg hc]; rfl
      have hdepth : depth = depth + net bracket close [x] := by omega
      conv_lhs => rw [hdepth]
      exact untilClosed_step (fun t => ih (by omega)) (by omega)

/-- The loop starts at the first bracket. -/
lemma untilClosed_bracket {r : PyStr} : untilClosed bracket close 0 (bracket :: r) = some t ↔
    t <+: bracket :: r ∧ FirstZero bracket close 0 t := by
  have hnet : net bracket close [bracket] = 1 := by rw [net, if_pos rfl]; rfl
  rw [untilClosed, if_pos rfl, ← hnet]
  exact untilClosed_step (fun t => untilClosed_eq_some (by omega)) (by omega)

end Count

/-! ## Documents -/

/-- A text from an opening bracket to a closing one. -/
def Enclosed (s : PyStr) : Prop :=
  Bracketed s ∧ ∃ t x, s = t ++ [x] ∧ (x = .scalar ']' ∨ x = .scalar '}')

section Documents

variable {F : Type} [JsonRuntime F] {s t : PyStr} {v : Json F}

lemma enclosed_of_getLast? (hs : Bracketed s)
    (hlast : s.getLast? = some (.scalar ']') ∨ s.getLast? = some (.scalar '}')) : Enclosed s := by
  rcases hlast with h | h
  · obtain ⟨t, rfl⟩ := List.getLast?_eq_some_iff.mp h
    exact ⟨hs, t, _, rfl, Or.inl rfl⟩
  · obtain ⟨t, rfl⟩ := List.getLast?_eq_some_iff.mp h
    exact ⟨hs, t, _, rfl, Or.inr rfl⟩

/-- The text of an array or an object. -/
lemma enclosed_render (o : DumpOpts) (hv : ¬ v.Leaf) : Enclosed (render o v) := by
  match v with
  | .arr [] => exact enclosed_of_getLast? ⟨_, Or.inl rfl⟩ (Or.inl rfl)
  | .obj [] => exact enclosed_of_getLast? ⟨_, Or.inr rfl⟩ (Or.inr rfl)
  | .arr (w :: l) =>
    refine enclosed_of_getLast? ⟨_, Or.inl rfl⟩ (Or.inl ?_)
    simp [render, List.getLast?_append, List.getLast?_cons, getLast?_renderItems]
  | .obj (m :: l) =>
    refine enclosed_of_getLast? ⟨_, Or.inr rfl⟩ (Or.inr ?_)
    simp [render, List.getLast?_append, List.getLast?_cons, getLast?_renderMembers]
  | .null | .bool _ | .int _ | .float _ | .nonFinite _ | .str _ => exact absurd trivial hv

/-- The indented text of an array or an object. -/
lemma enclosed_renderIndent (o : DumpOpts) (n level : ℕ) (hv : ¬ v.Leaf) :
    Enclosed (renderIndent o n level v) := by
  match v with
  | .arr [] => exact enclosed_of_getLast? ⟨_, Or.inl rfl⟩ (Or.inl rfl)
  | .obj [] => exact enclosed_of_getLast? ⟨_, Or.inr rfl⟩ (Or.inr rfl)
  | .arr (w :: l) =>
    refine enclosed_of_getLast? ⟨_, Or.inl rfl⟩ (Or.inl ?_)
    simp [renderIndent, List.getLast?_append, List.getLast?_cons, getLast?_indentItems]
  | .obj (m :: l) =>
    refine enclosed_of_getLast? ⟨_, Or.inr rfl⟩ (Or.inr ?_)
    simp [renderIndent, List.getLast?_append, List.getLast?_cons, getLast?_indentMembers]
  | .null | .bool _ | .int _ | .float _ | .nonFinite _ | .str _ => exact absurd trivial hv

lemma Enclosed.solid (h : Enclosed s) : Solid s := by
  obtain ⟨⟨t, ht⟩, u, x, hu, hx⟩ := h
  constructor
  · rcases ht with rfl | rfl
    · exact ⟨_, t, rfl, by decide⟩
    · exact ⟨_, t, rfl, by decide⟩
  · rcases hx with rfl | rfl
    · exact ⟨u, _, hu, by decide⟩
    · exact ⟨u, _, hu, by decide⟩

/-- The rest of an enclosed text is more than whitespace. -/
lemma Enclosed.skipWs_ne_nil (h : Enclosed (t ++ s)) (hs : s ≠ []) : skipWs s ≠ [] := by
  obtain ⟨-, u, x, hu, hx⟩ := h
  intro hws
  have hlast : s.getLast? = some x := by
    have := congrArg List.getLast? hu
    rwa [List.getLast?_append_of_ne_nil _ hs, List.getLast?_append_of_ne_nil _ (by simp)] at this
  have hmem : isWs x = true :=
    List.dropWhile_eq_nil_iff.mp hws x (List.mem_of_getLast? hlast)
  rcases hx with rfl | rfl
  · exact absurd hmem (by decide)
  · exact absurd hmem (by decide)

/-! ## Cutting a document out -/

/-- In `s` the brackets of the kind that it starts with cancel at its end, and not before. -/
def Closes (s : PyStr) : Prop := ∀ b ∈ s.head?, FirstZero b (closing b) 0 s

lemma closes_iff : Closes s ↔ ∀ b ∈ s.head?, untilClosed b (closing b) 0 s = some s := by
  cases s with
  | nil => simp [Closes]
  | cons b r => simp [Closes, untilClosed_bracket]

instance : DecidablePred Closes := fun _ => decidable_of_iff _ closes_iff.symm

lemma tryLoads_eq_some {w : Json F} : tryLoads s = .ok (some w) ↔ loads s = .ok w := by
  rw [tryLoads]
  split
  · next v hv => simp [hv]
  · next hv => simp [hv]
  · next e he hv => simp [hv]

lemma parseOrScan_loads (h : loads s = .ok v) (hs : Bracketed s) :
    parseOrScan s = .ok (some v) := by
  obtain ⟨t, rfl | rfl⟩ := hs
  · rw [parseOrScan, tryLoads_eq_some.mpr h]; rfl
  · rw [parseOrScan, tryLoads_eq_some.mpr h]; rfl

lemma isWs_ne_bracket {x : PyChar} (hx : isWs x = true) (hs : Bracketed s) :
    ∀ b ∈ s.head?, x ≠ b ∧ x ≠ closing b := by
  obtain ⟨t, rfl | rfl⟩ := hs
  · rintro b hb
    obtain rfl := Option.some.inj hb
    constructor <;> (rintro rfl; exact absurd hx (by decide))
  · rintro b hb
    obtain rfl := Option.some.inj hb
    constructor <;> (rintro rfl; exact absurd hx (by decide))

lemma bracketed_of_prefix (hs : Bracketed s) (ht : t <+: s) (hne : t ≠ []) : Bracketed t := by
  obtain ⟨x, u, rfl⟩ := List.exists_cons_of_ne_nil hne
  obtain ⟨r, hr⟩ := hs
  refine ⟨u, hr.imp (fun h => ?_) (fun h => ?_)⟩
  · rw [h] at ht
    rw [(List.cons_prefix_cons.mp ht).1]
  · rw [h] at ht
    rw [(List.cons_prefix_cons.mp ht).1]

/-- **Only the document itself is parsed among the beginnings of the text.** -/
lemma eq_of_firstZero (hs : Enclosed s) (h : loads s = .ok v) {q : PyStr} {b : PyChar}
    (hb : b ∈ s.head?) (ht : t <+: s ++ q) (hzero : FirstZero b (closing b) 0 t) {w : Json F}
    (hw : loads t = .ok w) : t = s := by
  rcases List.prefix_or_prefix_of_prefix ht (List.prefix_append s q) with hpre | hpre
  · -- a document cannot be a part of another one
    obtain ⟨e, rfl⟩ := hpre
    by_contra hne
    have hrest := hs.skipWs_ne_nil (fun he => hne (by rw [he, List.append_nil]))
    have hbr := bracketed_of_prefix hs.1 (List.prefix_append t e) hzero.1
    rw [loads_append hbr hw, if_neg hrest] at h
    cases h
  · -- only whitespace may follow a document, and it has no brackets to count
    obtain ⟨e, rfl⟩ := hpre
    rw [loads_append hs.1 h] at hw
    split_ifs at hw with hws
    have hnet : net b (closing b) e = 0 := net_eq_zero fun x hx =>
      isWs_ne_bracket (List.dropWhile_eq_nil_iff.mp hws x hx) hs.1 b hb
    have hzero' := hzero.2.1
    rw [net_append, hnet, add_zero] at hzero'
    obtain ⟨r, hr⟩ := hs.1
    exact (hzero.2.2 s (List.prefix_append s e) (by rcases hr with rfl | rfl <;> simp) hzero').symm

lemma parseOrScan_error {b : PyChar} {r : PyStr}
    (h : loads (F := F) (b :: r) = .error .jsonDecodeError) {w : Json F} :
    parseOrScan (b :: r) = .ok (some w) ↔
      ∃ t, t <+: b :: r ∧ FirstZero b (closing b) 0 t ∧ loads t = .ok w := by
  have hparse : tryLoads (F := F) (b :: r) = .ok none := by
    rw [tryLoads, h]
  rw [parseOrScan, hparse]
  cases hclosed : untilClosed b (closing b) 0 (b :: r) with
  | none =>
    constructor
    · rintro ⟨⟩
    · rintro ⟨t, ht, hzero, -⟩
      exact absurd (untilClosed_bracket.mpr ⟨ht, hzero⟩) (by simp [hclosed])
  | some t =>
    show tryLoads t = .ok (some w) ↔ _
    rw [tryLoads_eq_some]
    have ht := untilClosed_bracket.mp hclosed
    constructor
    · exact fun hw => ⟨t, ht.1, ht.2, hw⟩
    · rintro ⟨t', ht', hzero, hw⟩
      have heq := hclosed.symm.trans (untilClosed_bracket.mpr ⟨ht', hzero⟩)
      rwa [Option.some.inj heq]

/-- **A document with other text after it is found exactly if its brackets close at its end.** -/
theorem parseOrScan_append (hs : Enclosed s) (h : loads s = .ok v) {q : PyStr}
    (hq : skipWs q ≠ []) {w : Json F} :
    parseOrScan (s ++ q) = .ok (some w) ↔ Closes s ∧ w = v := by
  have herr : loads (F := F) (s ++ q) = .error .jsonDecodeError := by
    rw [loads_append hs.1 h, if_neg hq]
  obtain ⟨b, r, rfl⟩ : ∃ b r, s = b :: r := by
    obtain ⟨r, hr⟩ := hs.1
    exact hr.elim (fun h => ⟨_, r, h⟩) fun h => ⟨_, r, h⟩
  rw [List.cons_append] at herr ⊢
  rw [parseOrScan_error herr]
  constructor
  · rintro ⟨t, ht, hzero, hw⟩
    obtain rfl := eq_of_firstZero hs h rfl ht hzero hw
    refine ⟨fun b' hb' => ?_, Except.ok.inj (hw.symm.trans h)⟩
    obtain rfl := Option.some.inj hb'
    exact hzero
  · rintro ⟨hclose, rfl⟩
    exact ⟨b :: r, List.prefix_append (b :: r) q, hclose b rfl, h⟩

/-! ## The text around a document -/

/-- A text with nothing for `sanitize_llm_response` to cut out. -/
structure Untouched (s : PyStr) : Prop where
  think : ¬ (thinkBlock ignoreCase).Occurs s
  fence : ¬ codeFence.Occurs s
  uri : ¬ dataUri.Occurs s
  image : ¬ markdownImage.Occurs s

lemma Untouched.mono (h : Untouched t) (hst : s <:+: t) : Untouched s :=
  ⟨fun ho => h.think (ho.mono hst), fun ho => h.fence (ho.mono hst), fun ho => h.uri (ho.mono hst),
    fun ho => h.image (ho.mono hst)⟩

variable {pre suf : PyStr}

/-- From such a text only the whitespace around it is taken. -/
lemma sanitizeLlmResponse_around (depth : ℕ) (hs : Solid s) (h : Untouched (pre ++ (s ++ suf))) :
    sanitizeLlmResponse F depth (pre ++ (s ++ suf)) =
      (normalise F depth (pre.dropWhile isSpace ++ (s ++ suf.rdropWhile isSpace))).map strip := by
  have hinfix : pre.dropWhile isSpace ++ (s ++ suf.rdropWhile isSpace) <:+: pre ++ (s ++ suf) := by
    rw [← strip_around hs]
    exact infix_strip _
  have hne : pre ++ (s ++ suf) ≠ [] := by
    obtain ⟨x, t, rfl, -⟩ := hs.head
    simp
  have hmono := h.mono hinfix
  rw [sanitizeLlmResponse, if_neg hne, Regex.remove_of_not_occurs h.think, strip_around hs]
  simp only [Regex.search_eq_none.mpr hmono.fence, Regex.remove_of_not_occurs hmono.uri,
    Regex.remove_of_not_occurs hmono.image, strip_strip_around hs]

/-- The search for a bracket skips what stands before the document. -/
lemma dropWhile_open (hpre : ∀ x ∈ pre, isOpen x = false) (hs : Bracketed s) :
    (pre ++ s).dropWhile (fun x => !isOpen x) = s := by
  rw [List.dropWhile_append_of_pos fun x hx => by simp [hpre x hx]]
  obtain ⟨t, rfl | rfl⟩ := hs <;> rfl

lemma extractJson_of_sanitized {depth : ℕ} {lead : PyStr} (hne : t ≠ [])
    (h : sanitizeLlmResponse F depth t = .ok (lead ++ s)) (hlead : ∀ x ∈ lead, isOpen x = false)
    (hs : Bracketed s) : extractJson (F := F) depth t = parseOrScan s := by
  rw [extractJson, if_neg hne, h]
  exact congrArg parseOrScan (dropWhile_open hlead hs)

lemma bracketed_append (hs : Bracketed s) (q : PyStr) : Bracketed (s ++ q) := by
  obtain ⟨t, rfl | rfl⟩ := hs
  · exact ⟨t ++ q, Or.inl rfl⟩
  · exact ⟨t ++ q, Or.inr rfl⟩

/-- A text that does not start with a bracket is not written anew. -/
lemma normalise_lead (depth : ℕ) {lead : PyStr} (hne : lead ≠ [])
    (hlead : ∀ x ∈ lead, isOpen x = false) (r : PyStr) :
    normalise F depth (lead ++ r) = .ok (lead ++ r) := by
  obtain ⟨x, t, rfl⟩ := List.exists_cons_of_ne_nil hne
  have hx : ((x :: t) ++ r).head?.any isOpen = false := hlead x (List.mem_cons_self ..)
  rw [normalise, hx]
  rfl

lemma head?_any_open (hs : Bracketed s) (q : PyStr) : (s ++ q).head?.any isOpen = true := by
  obtain ⟨t, rfl | rfl⟩ := hs <;> rfl

/-- Neither is a document with other text after it. -/
lemma normalise_trail (depth : ℕ) (hs : Bracketed s) (h : loads s = .ok v) {q : PyStr}
    (hq : skipWs q ≠ []) : normalise F depth (s ++ q) = .ok (s ++ q) := by
  rw [normalise, if_pos (head?_any_open hs q), tryLoads, loads_append hs h, if_neg hq]
  rfl

lemma normalise_loads (depth : ℕ) (hs : Bracketed s) (h : loads s = .ok v) :
    normalise F depth s = dumpsIndent depth 2 v := by
  have hopen := head?_any_open hs []
  rw [List.append_nil] at hopen
  rw [normalise, if_pos hopen, tryLoads_eq_some.mpr h]
  rfl

lemma isSpace_of_isWs {x : PyChar} (h : isWs x = true) : isSpace x = true := by
  simp only [isWs, Bool.or_eq_true, decide_eq_true_eq] at h
  rcases h with ((rfl | rfl) | rfl) | rfl <;> decide

/-- What is left of a text that is not blank does not end with whitespace. -/
lemma skipWs_rdropWhile (h : ¬ Blank suf) : skipWs (suf.rdropWhile isSpace) ≠ [] := by
  have hne : suf.rdropWhile isSpace ≠ [] := fun hnil => h (rdropWhile_eq_nil_iff_blank.mp hnil)
  intro hws
  have hlast := List.rdropWhile_last_not isSpace suf hne
  exact hlast (isSpace_of_isWs (List.dropWhile_eq_nil_iff.mp hws _ (List.getLast_mem hne)))

section Around

variable {depth : ℕ} (hs : Enclosed s) (hclean : Untouched (pre ++ (s ++ suf)))
  (hpre : ∀ x ∈ pre, isOpen x = false)

include hs hclean hpre

/-- If the text is not written anew, the document and what follows it are what is parsed. -/
lemma extractJson_of_same
    (h : normalise F depth (pre.dropWhile isSpace ++ (s ++ suf.rdropWhile isSpace)) =
      .ok (pre.dropWhile isSpace ++ (s ++ suf.rdropWhile isSpace))) :
    extractJson (F := F) depth (pre ++ (s ++ suf)) = parseOrScan (s ++ suf.rdropWhile isSpace) := by
  have hne : pre ++ (s ++ suf) ≠ [] := by
    obtain ⟨x, t, rfl, -⟩ := hs.solid.head
    simp
  have hlead : ∀ x ∈ pre.dropWhile isSpace, isOpen x = false := fun x hx =>
    hpre x ((List.dropWhile_sublist _).subset hx)
  have hres := sanitizeLlmResponse_around (F := F) depth hs.solid hclean
  rw [h, Except.map, strip_strip_around hs.solid] at hres
  exact extractJson_of_sanitized hne hres hlead (bracketed_append hs.1 _)

/-- There is other text before the document. -/
lemma extractJson_lead (hlead : ¬ Blank pre) : extractJson (F := F) depth (pre ++ (s ++ suf)) =
    parseOrScan (s ++ suf.rdropWhile isSpace) :=
  extractJson_of_same hs hclean hpre (normalise_lead depth
    (fun hnil => hlead (dropWhile_eq_nil_iff_blank.mp hnil))
    (fun x hx => hpre x ((List.dropWhile_sublist _).subset hx)) _)

variable (h : loads s = .ok v)

include h

/-- There is other text after the document. -/
lemma extractJson_trail (hsuf : ¬ Blank suf) : extractJson (F := F) depth (pre ++ (s ++ suf)) =
    parseOrScan (s ++ suf.rdropWhile isSpace) := by
  by_cases hlead : Blank pre
  · refine extractJson_of_same hs hclean hpre ?_
    rw [dropWhile_eq_nil_iff_blank.mpr hlead]
    exact normalise_trail depth hs.1 h (skipWs_rdropWhile hsuf)
  · exact extractJson_lead hs hclean hpre hlead

omit hpre in
/-- There is nothing but the document: it is written anew, and parsed again. -/
lemma extractJson_alone (hv : ¬ v.Leaf) (hc : check (JsonRuntime.maxDepth F) v = .ok ())
    (hlead : Blank pre) (hsuf : Blank suf) {w : Json F} :
    extractJson depth (pre ++ (s ++ suf)) = .ok (some w) ↔
      nesting v ≤ depth ∧ w = readBack false (sortKeys v) := by
  have hne : pre ++ (s ++ suf) ≠ [] := by
    obtain ⟨x, t, rfl, -⟩ := hs.solid.head
    simp
  have hres := sanitizeLlmResponse_around (F := F) depth hs.solid hclean
  rw [dropWhile_eq_nil_iff_blank.mpr hlead, rdropWhile_eq_nil_iff_blank.mpr hsuf, List.nil_append,
    List.append_nil, normalise_loads depth hs.1 h, dumpsIndent] at hres
  rw [← check_iff_nesting_le hc, ← check_sortKeys]
  cases hdepth : check depth (sortKeys v) with
  | error e =>
    rw [hdepth] at hres
    have hfail : extractJson (F := F) depth (pre ++ (s ++ suf)) = .error e := by
      rw [extractJson, if_neg hne, hres]
      rfl
    rw [hfail]
    exact ⟨nofun, fun hboth => nomatch hboth.1⟩
  | ok u =>
    rw [hdepth] at hres
    have henc := enclosed_renderIndent DumpOpts.indented 2 0 (v := sortKeys v) (by
      cases v <;> first | exact absurd trivial hv | exact id)
    have hres' : sanitizeLlmResponse F depth (pre ++ (s ++ suf)) =
        .ok ([] ++ renderIndent DumpOpts.indented 2 0 (sortKeys v)) :=
      hres.trans (congrArg Except.ok (strip_of_solid henc.solid))
    have hload := loads_renderIndent 2 0 DumpOpts.indented_ok (check_sortKeys.mpr hc)
    rw [extractJson_of_sanitized hne hres' (by simp) henc.1, parseOrScan_loads hload henc.1]
    constructor
    · intro heq
      exact ⟨rfl, (Option.some.inj (Except.ok.inj heq)).symm⟩
    · rintro ⟨-, rfl⟩
      rfl

end Around

/-- **A document is found exactly if it is read back as it was and, where nothing else stands in the
text, it does not nest too deep to be indented, and, where other text follows, its brackets close
at its end.** -/
theorem extractJson_iff (depth : ℕ) (hv : ¬ v.Leaf) (hs : dumps .default v = .ok s)
    (hpre : ∀ x ∈ pre, isOpen x = false) (hclean : Untouched (pre ++ (s ++ suf))) :
    (∃ w, extractJson depth (pre ++ (s ++ suf)) = .ok (some w) ∧ Reordered v w) ↔
      readBack true v = v ∧ (Blank pre → Blank suf → nesting v ≤ depth) ∧
        (¬ Blank suf → Closes s) := by
  have hload : loads s = .ok (readBack true v) := loads_dumps DumpOpts.default_ok hs
  obtain ⟨hc, rfl⟩ := dumps_eq_ok.mp hs
  have henc := enclosed_render DumpOpts.default hv
  by_cases hsuf : Blank suf
  · by_cases hlead : Blank pre
    · have hleaf : ¬ (readBack true v).Leaf := by
        cases v <;> first | exact absurd trivial hv | exact id
      simp only [extractJson_alone henc hclean hload hleaf (check_readBack hc) hlead hsuf]
      constructor
      · rintro ⟨w, ⟨hdepth, rfl⟩, hsame⟩
        -- neither of the two readings adds a character, so the first one lost none
        have hle := chars_readBack_le false (sortKeys (readBack true v))
        rw [chars_sortKeys] at hle
        have hread := readBack_eq_of_reordered hsame hle
        rw [hread] at hdepth
        exact ⟨hread, fun _ _ => hdepth, fun h => absurd hsuf h⟩
      · rintro ⟨hread, hdepth, -⟩
        refine ⟨_, ⟨by rw [hread]; exact hdepth hlead hsuf, rfl⟩, ?_⟩
        rw [hread, readBack_sortKeys hread]
        exact reordered_sortKeys hread
    · rw [extractJson_lead henc hclean hpre hlead, rdropWhile_eq_nil_iff_blank.mpr hsuf,
        List.append_nil, parseOrScan_loads hload henc.1]
      constructor
      · rintro ⟨w, hw, hsame⟩
        obtain rfl := Option.some.inj (Except.ok.inj hw)
        have hread := readBack_eq_of_reordered hsame le_rfl
        exact ⟨hread, fun h => absurd h hlead, fun h => absurd hsuf h⟩
      · rintro ⟨hread, -, -⟩
        exact ⟨_, rfl, by rw [hread]; exact .refl v⟩
  · rw [extractJson_trail henc hclean hpre hload hsuf]
    simp only [parseOrScan_append henc hload (skipWs_rdropWhile hsuf)]
    constructor
    · rintro ⟨w, ⟨hclose, rfl⟩, hsame⟩
      have hread := readBack_eq_of_reordered hsame le_rfl
      exact ⟨hread, fun _ h => absurd h hsuf, fun _ => hclose⟩
    · rintro ⟨hread, -, hclose⟩
      exact ⟨_, ⟨hclose hsuf, rfl⟩, by rw [hread]; exact .refl v⟩

end Documents

/-- The text of `{"a": "}"}`. -/
def braced : PyStr := text "\x7b\"a\": \"\x7d\"\x7d"

/-- Prose stands before and after a document. -/
theorem prose_around_found :
    ∃ w, extractJson 900 (text "result: " ++ (text "\x7b\"a\": [1]\x7d" ++ text " done")) = .ok (some w) ∧
      Reordered (.obj [(text "a", .arr [.int 1])] : Json Empty) w :=
  (extractJson_iff 900 (v := .obj [(text "a", .arr [.int 1])]) (fun h => h) (by decide) (by decide)
    ⟨by decide +kernel, by decide +kernel, by decide +kernel, by decide +kernel⟩).mpr
    ⟨rfl, by decide, by decide⟩

/-- **A brace in a string ends the document early, and nothing is found.** -/
theorem brace_in_string_lost :
    dumps .default (.obj [(text "a", .str (text "\x7d"))] : Json Empty) = .ok braced ∧
      Untouched (text "" ++ (braced ++ text " trailing")) ∧
      ¬ ∃ w, extractJson (F := Empty) 900 (text "" ++ (braced ++ text " trailing")) =
        .ok (some w) := by
  have hs : dumps .default (.obj [(text "a", .str (text "\x7d"))] : Json Empty) =
    .ok braced := by decide
  have hclean : Untouched (text "" ++ (braced ++ text " trailing")) :=
    ⟨by decide +kernel, by decide +kernel, by decide +kernel, by decide +kernel⟩
  refine ⟨hs, hclean, fun ⟨w, hw⟩ => ?_⟩
  have hload := loads_dumps DumpOpts.default_ok hs
  have henc : Enclosed braced := enclosed_of_getLast? ⟨_, Or.inr rfl⟩ (Or.inr rfl)
  have hblank : ¬ Blank (text " trailing") := by decide
  have hclose : ¬ Closes braced := by decide
  rw [extractJson_trail henc hclean (by decide) hload hblank,
    parseOrScan_append henc hload (skipWs_rdropWhile hblank)] at hw
  exact hclose hw.1

end Omkit.Sanitize
