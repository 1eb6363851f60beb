import Omkit.Jobqueue.Envelope

/-!
# The grammar of envelopes

Which objects `unwrap` accepts, next to the grammar that the workers of both runtimes agree on.
They part where the validation library reads an integer from a value that is none.
-/

namespace Omkit.Jobqueue

open Lib

/-- What the validation library documents of a field of type `int`: booleans, floats that are
integers and numeric strings are read as integers, and nothing else but integers is. -/
class LaxInt (F : Type) [Pydantic F] where
  /-- The integer that a float is equal to. -/
  floatInt : F → Option ℤ
  /-- The integer that a numeric string stands for. -/
  strInt : PyStr → Option ℤ
  laxInt_bool : ∀ b, Pydantic.laxInt (.bool b : Json F) = some (if b then 1 else 0)
  laxInt_float : ∀ x : F, Pydantic.laxInt (.float x) = floatInt x
  laxInt_str : ∀ s, Pydantic.laxInt (.str s : Json F) = strInt s
  laxInt_null : Pydantic.laxInt (.null : Json F) = none
  laxInt_nonFinite : ∀ k, Pydantic.laxInt (.nonFinite k : Json F) = none
  laxInt_arr : ∀ l : List (Json F), Pydantic.laxInt (.arr l) = none
  laxInt_obj : ∀ l : List (PyStr × Json F), Pydantic.laxInt (.obj l) = none

instance : LaxInt Empty where
  floatInt := Empty.elim
  strInt s := if intText (intOf s) = s then some (intOf s) else none
  laxInt_bool _ := rfl
  laxInt_float x := x.elim
  laxInt_str _ := rfl
  laxInt_null := rfl
  laxInt_nonFinite _ := rfl
  laxInt_arr _ := rfl
  laxInt_obj _ := rfl

variable {F : Type} {obj : List (PyStr × Json F)}

/-! ## The grammar -/

/-- The rules for the members of an envelope other than its version. -/
structure WellShaped (obj : List (PyStr × Json F)) : Prop where
  keys : ∀ m ∈ obj, m.1 ∈ fieldNames
  tenantId : ∃ t, obj.lookup (text "tenant_id") = some (.str t) ∧ (uuidOf t).isSome = true
  requestId : obj.lookup (text "request_id") = none ∨
    ∃ r, obj.lookup (text "request_id") = some (.str r)
  payload : ∃ p, obj.lookup (text "payload") = some (.obj p) ∧ p ≠ []

/-- The grammar of envelopes: the version is the integer 1. -/
structure Grammar (obj : List (PyStr × Json F)) : Prop extends WellShaped obj where
  version : obj.lookup (text "version") = some (.int 1)

section Version

variable [Pydantic F] [LaxInt F]

/-- A value that is not an integer and is read as the integer 1: `True`, a float that is equal to
1, or a numeric string for 1. -/
def ReadsAsOne : Json F → Prop
  | .bool b => b = true
  | .float x => LaxInt.floatInt x = some 1
  | .str s => LaxInt.strInt F s = some 1
  | _ => False

/-- The version is read as 1 exactly if it is the integer 1 or one of the values that stand for
it. -/
lemma laxInt_eq_one {v : Json F} : Pydantic.laxInt v = some 1 ↔ v = .int 1 ∨ ReadsAsOne v := by
  cases v with
  | null => simp [LaxInt.laxInt_null, ReadsAsOne]
  | bool b => cases b <;> simp [LaxInt.laxInt_bool, ReadsAsOne]
  | int n => simp [Pydantic.laxInt_int, ReadsAsOne]
  | float x => simp [LaxInt.laxInt_float, ReadsAsOne]
  | nonFinite k => simp [LaxInt.laxInt_nonFinite, ReadsAsOne]
  | str s => simp [LaxInt.laxInt_str, ReadsAsOne]
  | arr l => simp [LaxInt.laxInt_arr, ReadsAsOne]
  | obj l => simp [LaxInt.laxInt_obj, ReadsAsOne]

end Version

/-! ## What `unwrap` accepts -/

section Accept

variable [Pydantic F]

lemma validateVersion_eq_ok {v w : ℤ} : validateVersion v = .ok w ↔ v = w ∧ v = 1 := by
  unfold validateVersion envelopeVersion
  split_ifs with h₁ h₂
  · simp only [false_iff]
    omega
  · simp only [false_iff]
    omega
  · simp only [Except.ok.injEq]
    omega

omit [Pydantic F] in
/-- A field that must be there is accepted if its value is. -/
lemma field_required {α : Type} {name : PyStr} {e : FieldError} {lax : Json F → Option α}
    {validate : α → Except FieldError α} {b : α} :
    field obj name (.error e) lax validate = .ok b ↔
      ∃ v a, obj.lookup name = some v ∧ lax v = some a ∧ validate a = .ok b := by
  cases h : obj.lookup name with
  | none => simp [field, h]
  | some v => simp [field_eq_ok h]

lemma field_requestId : (∃ r, field obj (text "request_id") (.ok []) Pydantic.laxStr .ok = .ok r) ↔
    obj.lookup (text "request_id") = none ∨
      ∃ r, obj.lookup (text "request_id") = some (.str r) := by
  cases h : obj.lookup (text "request_id") with
  | none => simp [field, h]
  | some v => simp [field_eq_ok h, Pydantic.laxStr_eq_some]

lemma field_tenantId :
    (∃ t, field obj (text "tenant_id") (.error .missing) Pydantic.laxStr validateTenant = .ok t) ↔
      ∃ t, obj.lookup (text "tenant_id") = some (.str t) ∧ (uuidOf t).isSome = true := by
  simp only [field_required, Pydantic.laxStr_eq_some, validateTenant_eq_ok]
  constructor
  · rintro ⟨_, _, t, hv, rfl, -, ht⟩
    exact ⟨t, hv, ht⟩
  · rintro ⟨t, hv, ht⟩
    exact ⟨t, _, t, hv, rfl, rfl, ht⟩

lemma field_payload :
    (∃ p, field obj (text "payload") (.error .missing) laxDict validatePayload = .ok p) ↔
      ∃ p, obj.lookup (text "payload") = some (.obj p) ∧ p ≠ [] := by
  simp only [field_required, laxDict_eq_some, validatePayload_eq_ok]
  constructor
  · rintro ⟨_, _, p, hv, rfl, -, hne⟩
    exact ⟨p, hv, hne⟩
  · rintro ⟨p, hv, hne⟩
    exact ⟨p, _, p, hv, rfl, rfl, hne⟩

lemma field_version :
    (∃ n, field obj (text "version") (.error .missing) Pydantic.laxInt validateVersion = .ok n) ↔
      ∃ v, obj.lookup (text "version") = some v ∧ Pydantic.laxInt v = some 1 := by
  simp only [field_required, validateVersion_eq_ok]
  constructor
  · rintro ⟨_, v, _, hv, hlax, -, rfl⟩
    exact ⟨v, hv, hlax⟩
  · rintro ⟨v, hv, hlax⟩
    exact ⟨1, v, 1, hv, hlax, rfl, rfl⟩

variable [JsonRuntime F]

/-- `unwrap` accepts an object that is well shaped and whose version is read as 1. -/
lemma unwrap_dict_ok : (∃ env, unwrap (.dict obj) = .ok env) ↔
    WellShaped obj ∧
      ∃ v, obj.lookup (text "version") = some v ∧ Pydantic.laxInt v = some 1 := by
  have hsplit : (∃ env, unwrap (.dict obj) = .ok env) ↔
      (∃ n, field obj (text "version") (.error .missing) Pydantic.laxInt validateVersion = .ok n) ∧
      (∃ t, field obj (text "tenant_id") (.error .missing) Pydantic.laxStr validateTenant =
        .ok t) ∧
      (∃ r, field obj (text "request_id") (.ok []) Pydantic.laxStr .ok = .ok r) ∧
      (∃ p, field obj (text "payload") (.error .missing) laxDict validatePayload = .ok p) ∧
      ∀ m ∈ obj, m.1 ∈ fieldNames := by
    have hmap : ∀ env, unwrap (.dict obj) = .ok env ↔ modelValidate obj = .ok env := fun env => by
      rw [unwrap, unwrapValue]
      cases modelValidate obj <;> simp [Except.mapError]
    simp only [hmap, modelValidate_eq_ok]
    constructor
    · rintro ⟨env, hv, ht, hr, hp, hk⟩
      exact ⟨⟨_, hv⟩, ⟨_, ht⟩, ⟨_, hr⟩, ⟨_, hp⟩, hk⟩
    · rintro ⟨⟨n, hv⟩, ⟨t, ht⟩, ⟨r, hr⟩, ⟨p, hp⟩, hk⟩
      exact ⟨⟨n, t, r, p⟩, hv, ht, hr, hp, hk⟩
  -- what the fields say, regrouped into the shape and the version
  rw [hsplit, field_version, field_tenantId, field_requestId, field_payload]
  constructor
  · rintro ⟨hv, ht, hr, hp, hk⟩
    exact ⟨⟨hk, ht, hr, hp⟩, hv⟩
  · rintro ⟨⟨hk, ht, hr, hp⟩, hv⟩
    exact ⟨hv, ht, hr, hp, hk⟩

variable [LaxInt F]

/-- **`unwrap` keeps to the grammar on an object unless the rest of the object does and its version
only reads as 1.** -/
theorem accepts_iff_grammar_iff (obj : List (PyStr × Json F)) :
    ((∃ env, unwrap (.dict obj) = .ok env) ↔ Grammar obj) ↔
      (WellShaped obj → ∀ v, obj.lookup (text "version") = some v → ¬ ReadsAsOne v) := by
  rw [unwrap_dict_ok]
  simp only [laxInt_eq_one]
  constructor
  · intro h hshape v hv hone
    have hgrammar := h.mp ⟨hshape, v, hv, Or.inr hone⟩
    obtain rfl := Option.some.inj (hv.symm.trans hgrammar.version)
    exact hone
  · intro h
    constructor
    · rintro ⟨hshape, v, hv, rfl | hone⟩
      · exact ⟨hshape, hv⟩
      · exact absurd hone (h hshape v hv)
    · rintro ⟨hshape, hv⟩
      exact ⟨hshape, _, hv, Or.inl rfl⟩

end Accept

section Example

/-- An envelope with a boolean in the place of its version. -/
def trueVersion : List (PyStr × Json Empty) :=
  [(text "version", .bool true),
    (text "tenant_id", .str (text "6f9619ff-8b86-d011-b42d-00c04fc964ff")),
    (text "payload", .obj [(text "doc_id", .str (text "d-17"))])]

theorem true_version_accepted :
    (∃ env, unwrap (.dict trueVersion) = .ok env) ∧ ¬ Grammar trueVersion := by
  refine ⟨⟨⟨1, text "6f9619ff-8b86-d011-b42d-00c04fc964ff", [],
    [(text "doc_id", .str (text "d-17"))]⟩, by rfl⟩, fun h => ?_⟩
  have hv : some (Json.bool true) = some (Json.int 1 : Json Empty) := h.version
  simp at hv

end Example

end Omkit.Jobqueue
