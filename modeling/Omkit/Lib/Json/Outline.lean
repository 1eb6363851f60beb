import Omkit.Lib.Json.Indent
import Omkit.Lib.Padding

/-!
# The outline of a document

The strings of a document and the closing brackets of its arrays, in the order in which they are
written.  Everything else in the indented text is padding between these: white space, punctuation,
numbers and keywords.
-/

namespace Omkit.Lib

variable {F : Type} [JsonRuntime F]

/-- The characters between the strings and the closing brackets of a document. -/
def isPadding (x : PyChar) : Bool :=
  isWs x || isDigit x || x ∈ text "\x7b\x7d[,:+-.eE" || x ∈ text "truefalsenullNaNInfinity"

/-- The characters at the ends of a string, and the closing bracket. -/
def isEdge (x : PyChar) : Bool := x = .scalar '"' || x = .scalar ']'

mutual

/-- The strings of a value, the keys of its objects among them, and the closing brackets of its
arrays. -/
def outline : Json F → PyStr
  | .str s => strText false s
  | .arr l => outlineItems l
  | .obj l => outlineMembers l
  | _ => []

/-- `outline` over the items of an array, and its closing bracket. -/
def outlineItems : List (Json F) → PyStr
  | [] => [.scalar ']']
  | v :: l => outline v ++ outlineItems l

/-- `outline` over the members of an object. -/
def outlineMembers : List (PyStr × Json F) → PyStr
  | [] => []
  | m :: l => strText false m.1 ++ (outline m.2 ++ outlineMembers l)

end

example : outline
    (.obj [(text "a", .arr [.null, .str (text "b")]), (text "c", .int 1)] : Json Empty) =
      text "\"a\"\"b\"]\"c\"" := by decide

/-! ## The padding -/

/-- The indented text and the outline of a part of a document. -/
abbrev Outlined (d o : PyStr) : Prop := Padded isPadding isEdge d o

lemma isPadding_of_ws {x : PyChar} (h : isWs x = true) : isPadding x = true := by
  simp [isPadding, h]

lemma isPadding_of_digit {x : PyChar} (h : isDigit x = true) : isPadding x = true := by
  simp [isPadding, h]

lemma newline_padding (n level : ℕ) : ∀ x ∈ newline n level, isPadding x = true :=
  fun x hx => isPadding_of_ws (newline_ws n level x hx)

lemma natLit_padding {s : PyStr} (h : NatLit s) : ∀ x ∈ s, isPadding x = true := by
  rcases h with rfl | ⟨c, r, rfl, hc, -, hr⟩
  · exact List.forall_mem_singleton.mpr (by decide)
  · exact List.forall_mem_cons.mpr ⟨isPadding_of_digit hc, fun x hx => isPadding_of_digit (hr x hx)⟩

lemma intLit_padding {s : PyStr} (h : IntLit s) : ∀ x ∈ s, isPadding x = true := by
  rcases h with h | ⟨t, rfl, h⟩
  · exact natLit_padding h
  · exact List.forall_mem_cons.mpr ⟨by decide, natLit_padding h⟩

lemma fracLit_padding {s : PyStr} (h : FracLit s) : ∀ x ∈ s, isPadding x = true := by
  rcases h with rfl | ⟨x, r, rfl, hx, hr⟩
  · simp
  · refine List.forall_mem_cons.mpr ⟨by decide, List.forall_mem_cons.mpr ⟨?_, fun y hy => ?_⟩⟩
    · exact isPadding_of_digit hx
    · exact isPadding_of_digit (hr y hy)

lemma expLit_padding {s : PyStr} (h : ExpLit s) : ∀ x ∈ s, isPadding x = true := by
  rcases h with rfl | ⟨e, sgn, x, r, rfl, he, hsgn, hx, hr⟩
  · simp
  · have hdigits : ∀ y ∈ x :: r, isPadding y = true :=
      List.forall_mem_cons.mpr ⟨isPadding_of_digit hx, fun y hy => isPadding_of_digit (hr y hy)⟩
    refine List.forall_mem_cons.mpr ⟨?_, List.forall_mem_append.mpr ⟨?_, hdigits⟩⟩
    · rcases he with rfl | rfl <;> decide
    · rcases hsgn with rfl | rfl | rfl <;> decide

lemma floatLit_padding {s : PyStr} (h : FloatLit s) : ∀ x ∈ s, isPadding x = true := by
  obtain ⟨ip, fp, ep, rfl, hi, hf, he, -⟩ := h
  exact List.forall_mem_append.mpr
    ⟨intLit_padding hi, List.forall_mem_append.mpr ⟨fracLit_padding hf, expLit_padding he⟩⟩

lemma edged_strText (a : Bool) (s : PyStr) : Edged isEdge (strText a s) := by
  refine ⟨by simp [strText], ?_, ?_⟩
  · rintro x hx
    obtain rfl := Option.some.inj hx
    rfl
  · rintro x hx
    rw [strText, ← List.cons_append, List.getLast?_concat] at hx
    obtain rfl := Option.some.inj hx
    rfl

lemma outlined_strText (s : PyStr) : Outlined (strText false s) (strText false s) :=
  .of_edged (edged_strText false s)

/-- Where an array ends. -/
lemma outlined_close : Outlined [.scalar ']'] [.scalar ']'] :=
  .of_edged ⟨by simp, by simp [isEdge], by simp [isEdge]⟩

section

variable {n level : ℕ} {d o : PyStr}

lemma outlined_newline (h : Outlined d o) : Outlined (newline n level ++ d) o :=
  h.pad_append (newline_padding n level)

lemma outlined_keySep (h : Outlined d o) : Outlined (DumpOpts.indented.keySep ++ d) o :=
  h.pad_append (by decide)

lemma outlined_itemSep (h : Outlined d o) : Outlined (DumpOpts.indented.itemSep ++ d) o :=
  h.pad_append (by decide)

lemma outlined_indentItems {l : List (Json F)}
    (h : ∀ v ∈ l, ∀ level, Outlined (renderIndent .indented n level v) (outline v)) :
    Outlined (indentItems .indented n level l) (outlineItems l) := by
  induction l with
  | nil => exact outlined_newline outlined_close
  | cons v l ih =>
    obtain ⟨hv, hl⟩ := List.forall_mem_cons.mp h
    exact outlined_itemSep (outlined_newline ((hv _).append (ih hl)))

lemma outlined_indentMembers {l : List (PyStr × Json F)}
    (h : ∀ m ∈ l, ∀ level, Outlined (renderIndent .indented n level m.2) (outline m.2)) :
    Outlined (indentMembers .indented n level l) (outlineMembers l) := by
  induction l with
  | nil => exact outlined_newline (.of_pad (g := text "\x7d") (by decide))
  | cons m l ih =>
    obtain ⟨hm, hl⟩ := List.forall_mem_cons.mp h
    exact outlined_itemSep (outlined_newline
      ((outlined_strText m.1).append (outlined_keySep ((hm _).append (ih hl)))))

end

/-- **Between the parts of the outline the indented text has only padding.** -/
theorem outlined_renderIndent (n level : ℕ) (v : Json F) :
    Outlined (renderIndent .indented n level v) (outline v) := by
  induction v using Json.induction generalizing level with
  | leaf v hv =>
    cases v with
    | null => exact .of_pad (g := text "null") (by decide)
    | bool b =>
      cases b with
      | false => exact .of_pad (g := text "false") (by decide)
      | true => exact .of_pad (g := text "true") (by decide)
    | int n => exact .of_pad (intLit_padding (intLit_intText n))
    | float x => exact .of_pad (floatLit_padding (JsonRuntime.floatRepr_lit x))
    | nonFinite k =>
      have hk : ∀ x ∈ k.text, isPadding x = true := by
        cases k <;> decide
      exact .of_pad hk
    | str s => exact outlined_strText s
    | arr l => cases hv
    | obj l => cases hv
  | arr l ih =>
    cases l with
    | nil => exact .pad (by decide) outlined_close
    | cons v l =>
      obtain ⟨hv, hl⟩ := List.forall_mem_cons.mp ih
      exact .pad (by decide) (outlined_newline ((hv _).append (outlined_indentItems hl)))
  | obj l ih =>
    cases l with
    | nil => exact .of_pad (g := text "\x7b\x7d") (by decide)
    | cons m l =>
      obtain ⟨hm, hl⟩ := List.forall_mem_cons.mp ih
      exact .pad (by decide) (outlined_newline ((outlined_strText m.1).append
        (outlined_keySep ((hm _).append (outlined_indentMembers hl)))))

/-- **Whether a pattern occurs in the indented text is decided by the outline.** -/
theorem occurs_renderIndent {r : Regex PyChar} (hr : r.Stretches isPadding isEdge) (n level : ℕ)
    (v : Json F) : r.Occurs (renderIndent .indented n level v) ↔ r.Occurs (outline v) :=
  (outlined_renderIndent n level v).occurs_iff hr

end Omkit.Lib
