import Omkit.Lib.Json.Scan
import Omkit.Lib.Pointwise
import Mathlib.Data.Rat.Defs
import Mathlib.Algebra.Order.Field.Basic
import Mathlib.Data.Rat.Cast.Defs

/-!
# Documents as they are written

A document whose numbers are kept as they are written, and the value that is read of it.  Two
documents are alike if they differ in the order of members and in the way that numbers are written
only, and what is read of them is then alike as well.
-/

namespace Omkit.Lib

variable {F : Type}

/-! ## Numbers as they are written -/

/-- A number with a fractional part or an exponent, as it is written in a document that is read over
the floats `F`. -/
structure Literal (F : Type) where
  text : PyStr
  lit : FloatLit text

/-- The exponent of a number; zero if it has none. -/
def expOf (ep : PyStr) : ℤ :=
  match ep.drop 1 with
  | .scalar '+' :: r => natOf r
  | r => intOf r

/-- The decimal number that a text writes. -/
def decimal (s : PyStr) : ℚ :=
  match scanInt s with
  | none => 0
  | some (ip, t) =>
    let digits := (scanFrac t).1.drop 1
    intOf (ip ++ digits) * (10 : ℚ) ^ (expOf (scanExp (scanFrac t).2).1 - digits.length)

example : decimal (text "-1.50e+2") = -150 := by decide +kernel

/-- The number that a document is, if it is one. -/
def Json.decimal? : Json (Literal F) → Option ℚ
  | .int n => some n
  | .float x => some (decimal x.text)
  | _ => none

open Classical in
/-- A decoder that keeps the numbers as they are written, within the limits of the interpreter. -/
noncomputable instance [JsonRuntime F] : JsonRuntime (Literal F) where
  floatRepr := Literal.text
  floatOf s := if h : FloatLit s then some ⟨s, h⟩ else none
  digitLimit := JsonRuntime.digitLimit F
  maxDepth := JsonRuntime.maxDepth F
  floatRepr_lit := Literal.lit
  floatOf_repr x := dif_pos x.lit
  digitLimit_ge := JsonRuntime.digitLimit_ge
  maxDepth_ge := JsonRuntime.maxDepth_ge

variable [JsonRuntime F]

lemma digitLimit_literal : JsonRuntime.digitLimit (Literal F) = JsonRuntime.digitLimit F := rfl

/-- `float(s)` of a number of the grammar. -/
def readFloat (s : PyStr) : Json F :=
  match JsonRuntime.floatOf s with
  | some x => .float x
  | none => .nonFinite (if s.head? = some (.scalar '-') then .negInf else .inf)

mutual

/-- The value that is read of a document. -/
def Json.read : Json (Literal F) → Json F
  | .null => .null
  | .bool b => .bool b
  | .int n => .int n
  | .float x => readFloat x.text
  | .nonFinite k => .nonFinite k
  | .str s => .str s
  | .arr l => .arr (readEach l)
  | .obj l => .obj (readValues l)

/-- `Json.read` over the items of an array. -/
def readEach : List (Json (Literal F)) → List (Json F)
  | [] => []
  | v :: l => v.read :: readEach l

/-- `Json.read` over the members of an object. -/
def readValues : List (PyStr × Json (Literal F)) → List (PyStr × Json F)
  | [] => []
  | m :: l => (m.1, m.2.read) :: readValues l

end

lemma readEach_eq_map (l : List (Json (Literal F))) : readEach l = l.map Json.read := by
  induction l with
  | nil => rfl
  | cons v l ih => rw [readEach, ih, List.map_cons]

lemma readValues_eq_map (l : List (PyStr × Json (Literal F))) :
    readValues l = l.map fun m => (m.1, m.2.read) := by
  induction l with
  | nil => rfl
  | cons m l ih => rw [readValues, ih, List.map_cons]

/-! ## What is read of a text -/

lemma head?_of_intLit {ip r : PyStr} (hi : IntLit ip) : (ip ++ r).head? = ip.head? := by
  obtain ⟨c, t, rfl, -⟩ := intLit_head hi
  rfl

lemma numberOf_read {ip fp ep : PyStr} (hi : IntLit ip) (hf : FracLit fp) (he : ExpLit ep) :
    numberOf (F := F) ip fp ep = (numberOf (F := Literal F) ip fp ep).map Json.read := by
  rw [numberOf, numberOf, digitLimit_literal]
  split
  · split <;> rfl
  · next hparts =>
    have hlit : FloatLit (ip ++ (fp ++ ep)) :=
      ⟨ip, fp, ep, rfl, hi, hf, he, not_and_or.mp hparts⟩
    have hfloat : JsonRuntime.floatOf (F := Literal F) (ip ++ (fp ++ ep)) = some ⟨_, hlit⟩ :=
      dif_pos hlit
    rw [hfloat]
    show _ = Except.ok (readFloat (ip ++ (fp ++ ep)))
    rw [readFloat, head?_of_intLit hi]
    cases JsonRuntime.floatOf (F := F) (ip ++ (fp ++ ep)) <;> rfl

lemma scanNumber_read (s : PyStr) : scanNumber (F := F) s =
    (scanNumber (F := Literal F) s).map (Except.map fun p => (p.1.read, p.2)) := by
  rw [scanNumber, scanNumber]
  cases hint : scanInt s with
  | none => rfl
  | some p =>
    have hnum := numberOf_read (F := F) (scanInt_parts hint).2 (scanFrac_parts p.2).2
      (scanExp_parts (scanFrac p.2).2).2
    simp only [Option.map_some, hnum]
    cases numberOf (F := Literal F) p.1 (scanFrac p.2).1 (scanExp (scanFrac p.2).2).1 <;> rfl

lemma keywords_read :
    keywords F = (keywords (Literal F)).map fun p => (p.1, p.2.read) := by
  simp [keywords, Json.read]

lemma scanScalar_read (s : PyStr) : scanScalar (F := F) s =
    (scanScalar (F := Literal F) s).map fun p => (p.1.read, p.2) := by
  rw [scanScalar, scanScalar, keywords_read, List.find?_map]
  have hcomp : ((fun p : PyStr × Json F => p.1.isPrefixOf s) ∘
      fun p : PyStr × Json (Literal F) => (p.1, p.2.read)) = fun p => p.1.isPrefixOf s := rfl
  rw [hcomp]
  cases (keywords (Literal F)).find? fun p => p.1.isPrefixOf s with
  | some p => rfl
  | none =>
    rw [scanNumber_read]
    cases scanNumber (F := Literal F) s <;> rfl

lemma items_ofList_read (l : List (PyStr × Json (Literal F))) :
    (Dict.ofList (readValues l)).items = readValues (Dict.ofList l).items := by
  rw [readValues_eq_map, readValues_eq_map, Dict.items_ofList_map]

/-- What is read with the fuel is what is read of the document. -/
structure Commutes (F : Type) [JsonRuntime F] (fuel : ℕ) : Prop where
  value : ∀ {d s}, scanValue (F := F) d s fuel =
    (scanValue (F := Literal F) d s fuel).map fun p => (p.1.read, p.2)
  items : ∀ {d s}, scanItems (F := F) d s fuel =
    (scanItems (F := Literal F) d s fuel).map fun p => (readEach p.1, p.2)
  members : ∀ {d s}, scanMembers (F := F) d s fuel =
    (scanMembers (F := Literal F) d s fuel).map fun p => (readValues p.1, p.2)

namespace Commutes

variable {fuel d : ℕ} {s : PyStr}

lemma value_succ (h : Commutes F fuel) : scanValue (F := F) d s (fuel + 1) =
    (scanValue (F := Literal F) d s (fuel + 1)).map fun p => (p.1.read, p.2) := by
  rcases start_cases s with ⟨t, rfl⟩ | ⟨t, rfl | rfl⟩ | hplain
  · rw [scanValue_quote, scanValue_quote]
    cases scanString t <;> rfl
  · cases d with
    | zero => rfl
    | succ d =>
      rcases closed_or_not (.scalar ']') t with ⟨r, hr⟩ | hopen
      · rw [scanValue_arr_nil hr, scanValue_arr_nil hr]
        rfl
      · rw [scanValue_arr hopen, scanValue_arr hopen, h.items]
        cases scanItems (F := Literal F) d (skipWs t) fuel <;> rfl
  · cases d with
    | zero => rfl
    | succ d =>
      rcases closed_or_not (.scalar '}') t with ⟨r, hr⟩ | hopen
      · rw [scanValue_obj_nil hr, scanValue_obj_nil hr]
        rfl
      · rw [scanValue_obj hopen, scanValue_obj hopen, h.members]
        cases scanMembers (F := Literal F) d (skipWs t) fuel with
        | error e => rfl
        | ok p =>
          show Except.ok (Json.obj _, p.2) = Except.ok (Json.obj _, p.2)
          rw [items_ofList_read]
  · rw [scanValue_plain hplain, scanValue_plain hplain, scanScalar_read]

lemma items_succ (h : Commutes F fuel) : scanItems (F := F) d s (fuel + 1) =
    (scanItems (F := Literal F) d s (fuel + 1)).map fun p => (readEach p.1, p.2) := by
  have hstep := h.value (d := d) (s := s)
  cases hv : scanValue (F := Literal F) d s fuel with
  | error e =>
    rw [hv] at hstep
    rw [scanItems_error hv, scanItems_error hstep]
    rfl
  | ok p =>
    obtain ⟨v, u⟩ := p
    rw [hv] at hstep
    rcases closed_or_not (.scalar ']') u with ⟨t, ht⟩ | hclose
    · rw [scanItems_close hv ht, scanItems_close hstep ht]
      rfl
    rcases closed_or_not (.scalar ',') u with ⟨t, ht⟩ | hcomma
    · rw [scanItems_comma hv ht, scanItems_comma hstep ht, h.items]
      cases scanItems (F := Literal F) d (skipWs t) fuel <;> rfl
    · rw [scanItems_other hv hclose hcomma, scanItems_other hstep hclose hcomma]
      rfl

lemma members_succ (h : Commutes F fuel) : scanMembers (F := F) d s (fuel + 1) =
    (scanMembers (F := Literal F) d s (fuel + 1)).map fun p => (readValues p.1, p.2) := by
  cases hk : scanKey s with
  | error e =>
    rw [scanMembers_key_error hk, scanMembers_key_error hk]
    rfl
  | ok p =>
    obtain ⟨k, y⟩ := p
    have hstep := h.value (d := d) (s := y)
    cases hv : scanValue (F := Literal F) d y fuel with
    | error e =>
      rw [hv] at hstep
      rw [scanMembers_value_error hk hv, scanMembers_value_error hk hstep]
      rfl
    | ok p =>
      obtain ⟨v, u⟩ := p
      rw [hv] at hstep
      rcases closed_or_not (.scalar '}') u with ⟨t, ht⟩ | hclose
      · rw [scanMembers_close hk hv ht, scanMembers_close hk hstep ht]
        rfl
      rcases closed_or_not (.scalar ',') u with ⟨t, ht⟩ | hcomma
      · rw [scanMembers_comma hk hv ht, scanMembers_comma hk hstep ht, h.members]
        cases scanMembers (F := Literal F) d (skipWs t) fuel <;> rfl
      · rw [scanMembers_other hk hv hclose hcomma, scanMembers_other hk hstep hclose hcomma]
        rfl

end Commutes

/-- Two values that agree but for the order of members and for the numbers, which stand in the
relation `R`. -/
inductive Alike {G : Type} (R : Json G → Json G → Prop) : Json G → Json G → Prop
  | refl (v : Json G) : Alike R v v
  | number {v w : Json G} : R v w → Alike R v w
  | arr {l l' : List (Json G)} : List.Forall₂ (Alike R) l l' → Alike R (.arr l) (.arr l')
  | obj {l m l' : List (PyStr × Json G)} : l.map Prod.fst = m.map Prod.fst →
    List.Forall₂ (Alike R) (l.map Prod.snd) (m.map Prod.snd) → m.Perm l' →
    Alike R (.obj l) (.obj l')

/-- The documents write one decimal number. -/
def SameDecimal (v w : Json (Literal F)) : Prop := ∃ q, v.decimal? = some q ∧ w.decimal? = some q

/-- The values are read of one decimal number. -/
def SameNumber (v w : Json F) : Prop :=
  ∃ d d' : Json (Literal F), SameDecimal d d' ∧ d.read = v ∧ d'.read = w

/-- **What is read of documents that are alike is alike.** -/
theorem Alike.read {d d' : Json (Literal F)} (h : Alike SameDecimal d d') :
    Alike SameNumber d.read d'.read := by
  induction d using Json.induction generalizing d' with
  | leaf v hv =>
    cases h with
    | refl => exact .refl _
    | number hvw => exact .number ⟨_, _, hvw, rfl, rfl⟩
    | arr => exact hv.elim
    | obj => exact hv.elim
  | arr l ih =>
    cases h with
    | refl => exact .refl _
    | number hvw => exact .number ⟨_, _, hvw, rfl, rfl⟩
    | arr hl =>
      simp only [Json.read, readEach_eq_map]
      exact .arr (forall₂_map hl fun v hv w hvw => ih v hv hvw)
  | obj l ih =>
    cases h with
    | refl => exact .refl _
    | number hvw => exact .number ⟨_, _, hvw, rfl, rfl⟩
    | @obj _ m l' hkeys hvalues hperm =>
      simp only [Json.read, readValues_eq_map]
      refine .obj (m := m.map fun p => (p.1, p.2.read)) ?_ ?_ (hperm.map _)
      · simpa [List.map_map, Function.comp_def] using hkeys
      · have hread := forall₂_map (f := Json.read) (g := Json.read) hvalues fun v hv w hvw => by
          obtain ⟨p, hp, rfl⟩ := List.mem_map.mp hv
          exact ih p hp hvw
        simpa [List.map_map, Function.comp_def] using hread

end Omkit.Lib
