import Omkit.Lib.Json.Bytes
import Omkit.Lib.Uuid

/-!
# Job envelopes

`wrap` and `unwrap`: the JSON object that carries a job from the service that enqueues it to the
worker, and its validation on both sides.
-/

namespace Omkit.Jobqueue

open Lib

/-- `ENVELOPE_VERSION`. -/
def envelopeVersion : ℤ := 1

/-- `Envelope`. -/
structure Envelope (F : Type) where
  version : ℤ
  tenantId : PyStr
  requestId : PyStr
  /-- The members of the payload object. -/
  payload : List (PyStr × Json F)

/-- What a validator of `Envelope` raises. -/
inductive Invalid
  /-- `tenant_id not a valid uuid: …`. -/
  | tenant (v : PyStr)
  /-- `envelope version must be >= 1, got …`. -/
  | versionTooLow (v : ℤ)
  /-- `unsupported envelope version … (max 1)`. -/
  | versionUnsupported (v : ℤ)
  /-- `payload must not be empty — …`. -/
  | emptyPayload
deriving DecidableEq

/-- What is wrong with a field. -/
inductive FieldError
  | missing
  /-- The value cannot be taken for the type of the field. -/
  | wrongType
  /-- A field that the model does not have. -/
  | extra
  | invalid (why : Invalid)
deriving DecidableEq

/-- The exceptions of `wrap` and `unwrap`. -/
inductive EnvelopeError
  /-- `InvalidEnvelopeError` for a text that is not JSON. -/
  | notJson
  /-- `InvalidEnvelopeError` for a JSON value that is not an object. -/
  | notObject
  /-- `InvalidEnvelopeError` for an object that the model rejects, with its fields at fault. -/
  | rejected (fields : List (PyStr × FieldError))
  /-- Any other exception. -/
  | std (e : StdExc)
deriving DecidableEq

/-- The coercions of the validation library, on JSON values. -/
class Pydantic (F : Type) where
  /-- A field of type `int`. -/
  laxInt : Json F → Option ℤ
  /-- A field of type `str`. -/
  laxStr : Json F → Option PyStr
  laxInt_int : ∀ n, laxInt (.int n) = some n
  /-- Only strings are taken for strings, as they are. -/
  laxStr_eq_some : ∀ {v s}, laxStr v = some s ↔ v = .str s

/-- The library on values without floats, with the decimal numerals as its numeric strings. -/
instance : Pydantic Empty where
  laxInt
    | .int n => some n
    | .bool b => some (if b then 1 else 0)
    | .str s => if intText (intOf s) = s then some (intOf s) else none
    | _ => none
  laxStr
    | .str s => some s
    | _ => none
  laxInt_int _ := rfl
  laxStr_eq_some := by
    intro v s
    cases v <;> simp

variable {F : Type}

section Model

variable [Pydantic F]

/-- `_validate_version`. -/
def validateVersion (v : ℤ) : Except FieldError ℤ :=
  if v < 1 then .error (.invalid (.versionTooLow v))
  else if envelopeVersion < v then .error (.invalid (.versionUnsupported v))
  else .ok v

/-- `_validate_tenant`. -/
def validateTenant (v : PyStr) : Except FieldError PyStr :=
  if (uuidOf v).isSome then .ok v else .error (.invalid (.tenant v))

/-- `_validate_payload`. -/
def validatePayload (v : List (PyStr × Json F)) : Except FieldError (List (PyStr × Json F)) :=
  if v = [] then .error (.invalid .emptyPayload) else .ok v

/-- A field of type `dict[str, Any]`. -/
def laxDict : Json F → Option (List (PyStr × Json F))
  | .obj l => l.mapM fun m => (Pydantic.laxStr (.str m.1 : Json F)).map fun k => (k, m.2)
  | _ => none

/-- A field of a model: its value in the object, coerced to the type of the field and given to its
validator. -/
def field {α : Type} (obj : List (PyStr × Json F)) (name : PyStr) (absent : Except FieldError α)
    (lax : Json F → Option α) (validate : α → Except FieldError α) : Except FieldError α :=
  match obj.lookup name with
  | none => absent
  | some v => match lax v with
    | none => .error .wrongType
    | some a => validate a

/-- The error of a field, if it has one. -/
def fieldError {α : Type} (name : PyStr) : Except FieldError α → List (PyStr × FieldError)
  | .ok _ => []
  | .error e => [(name, e)]

/-- The names of the fields of `Envelope`. -/
def fieldNames : List PyStr := [text "version", text "tenant_id", text "request_id", text "payload"]

/-- `Envelope.model_validate`. -/
def modelValidate (obj : List (PyStr × Json F)) : Except (List (PyStr × FieldError)) (Envelope F) :=
  let version := field obj (text "version") (.error .missing) Pydantic.laxInt validateVersion
  let tenantId := field obj (text "tenant_id") (.error .missing) Pydantic.laxStr validateTenant
  let requestId := field obj (text "request_id") (.ok []) Pydantic.laxStr .ok
  let payload := field obj (text "payload") (.error .missing) laxDict validatePayload
  let extra := (obj.filter fun m => m.1 ∉ fieldNames).map fun m => (m.1, FieldError.extra)
  match version, tenantId, requestId, payload, extra with
  | .ok version, .ok tenantId, .ok requestId, .ok payload, [] =>
    .ok ⟨version, tenantId, requestId, payload⟩
  | _, _, _, _, _ =>
    .error (fieldError (text "version") version ++ fieldError (text "tenant_id") tenantId ++
      fieldError (text "request_id") requestId ++ fieldError (text "payload") payload ++ extra)

end Model

variable [Pydantic F] [JsonRuntime F]

/-- The object that `wrap` writes. -/
def envelopeObject (tenantId : PyStr) (payload : List (PyStr × Json F)) (requestId : PyStr) :
    List (PyStr × Json F) :=
  [(text "version", .int envelopeVersion), (text "tenant_id", .str tenantId)] ++
    (if requestId = [] then [] else [(text "request_id", .str requestId)]) ++
    [(text "payload", .obj payload)]

/-- `wrap`. -/
def wrap (tenantId : PyStr) (payload : List (PyStr × Json F)) (requestId : PyStr := []) :
    Except EnvelopeError Bytes :=
  match modelValidate [(text "version", .int envelopeVersion), (text "tenant_id", .str tenantId),
      (text "request_id", .str requestId), (text "payload", .obj payload)] with
  | .error fields => .error (.rejected fields)
  | .ok _ => match dumps .compact (.obj (envelopeObject tenantId payload requestId)) with
    | .error e => .error (.std e)
    | .ok s => match encode s with
      | none => .error (.std .unicodeEncodeError)
      | some b => .ok b

/-- What `unwrap` is given. -/
inductive Data (F : Type)
  | bytes (b : Bytes)
  | str (s : PyStr)
  | dict (obj : List (PyStr × Json F))

/-- The validation of a parsed envelope. -/
def unwrapValue : Json F → Except EnvelopeError (Envelope F)
  | .obj obj => (modelValidate obj).mapError .rejected
  | _ => .error .notObject

/-- The validation of an envelope that is still to be parsed. -/
def unwrapParsed : Except StdExc (Json F) → Except EnvelopeError (Envelope F)
  | .error .jsonDecodeError => .error .notJson
  | .error e => .error (.std e)
  | .ok v => unwrapValue v

/-- `unwrap`. -/
def unwrap : Data F → Except EnvelopeError (Envelope F)
  | .bytes b => unwrapParsed (loadsBytes b)
  | .str s => unwrapParsed (loads s)
  | .dict obj => unwrapValue (.obj obj)

/-! ## What the model accepts -/

section Validate

omit [JsonRuntime F]

variable {tenantId requestId : PyStr} {payload : List (PyStr × Json F)}

lemma laxStr_str (s : PyStr) : Pydantic.laxStr (.str s : Json F) = some s :=
  Pydantic.laxStr_eq_some.mpr rfl

lemma laxKeys (l : List (PyStr × Json F)) :
    (l.mapM fun m => (Pydantic.laxStr (.str m.1 : Json F)).map fun k => (k, m.2)) = some l := by
  induction l with
  | nil => rfl
  | cons m l ih =>
    rw [List.mapM_cons, laxStr_str, ih]
    rfl

lemma laxDict_eq_some {v : Json F} {l : List (PyStr × Json F)} :
    laxDict v = some l ↔ v = .obj l := by
  cases v with
  | obj l' => simp [laxDict, laxKeys]
  | _ => simp [laxDict]

lemma validateTenant_eq_ok {v w : PyStr} :
    validateTenant v = .ok w ↔ v = w ∧ (uuidOf v).isSome = true := by
  unfold validateTenant
  split_ifs with h <;> simp [h]

omit [Pydantic F] in
lemma validatePayload_eq_ok {v w : List (PyStr × Json F)} :
    validatePayload v = .ok w ↔ v = w ∧ v ≠ [] := by
  unfold validatePayload
  split_ifs with h <;> simp [h]

omit [Pydantic F] in
lemma field_eq_ok {α : Type} {obj : List (PyStr × Json F)} {name : PyStr}
    {absent : Except FieldError α} {lax : Json F → Option α} {validate : α → Except FieldError α}
    {v : Json F} (h : obj.lookup name = some v) {b : α} :
    field obj name absent lax validate = .ok b ↔ ∃ a, lax v = some a ∧ validate a = .ok b := by
  simp only [field, h]
  cases hl : lax v <;> simp

/-- The model accepts an object exactly when each field is accepted and there is no other. -/
lemma modelValidate_eq_ok {obj : List (PyStr × Json F)} {env : Envelope F} :
    modelValidate obj = .ok env ↔
      field obj (text "version") (.error .missing) Pydantic.laxInt validateVersion =
        .ok env.version ∧
      field obj (text "tenant_id") (.error .missing) Pydantic.laxStr validateTenant =
        .ok env.tenantId ∧
      field obj (text "request_id") (.ok []) Pydantic.laxStr .ok = .ok env.requestId ∧
      field obj (text "payload") (.error .missing) laxDict validatePayload = .ok env.payload ∧
      ∀ m ∈ obj, m.1 ∈ fieldNames := by
  have hextra : (obj.filter fun m => m.1 ∉ fieldNames).map (fun m => (m.1, FieldError.extra)) = []
      ↔ ∀ m ∈ obj, m.1 ∈ fieldNames := by
    simp [List.filter_eq_nil_iff]
  rw [← hextra]
  unfold modelValidate
  simp only
  split
  · next h₁ h₂ h₃ h₄ h₅ =>
    rw [h₁, h₂, h₃, h₄, h₅]
    obtain ⟨v, t, r, p⟩ := env
    simp [Except.ok.injEq]
  · next hno =>
    simp only [reduceCtorEq, false_iff]
    rintro ⟨h₁, h₂, h₃, h₄, h₅⟩
    exact hno _ _ _ _ h₁ h₂ h₃ h₄ h₅

/-- The objects that `wrap` builds are accepted for a tenant that is a UUID and a payload that is
not empty. -/
lemma modelValidate_envelope {obj : List (PyStr × Json F)} (ht : (uuidOf tenantId).isSome = true)
    (hne : payload ≠ [])
    (hv : obj.lookup (text "version") = some (.int envelopeVersion))
    (hten : obj.lookup (text "tenant_id") = some (.str tenantId))
    (hreq : obj.lookup (text "request_id") = some (.str requestId) ∨
      obj.lookup (text "request_id") = none ∧ requestId = [])
    (hpay : obj.lookup (text "payload") = some (.obj payload))
    (hall : ∀ m ∈ obj, m.1 ∈ fieldNames) :
    modelValidate obj = .ok ⟨envelopeVersion, tenantId, requestId, payload⟩ := by
  rw [modelValidate_eq_ok]
  refine ⟨?_, ?_, ?_, ?_, hall⟩
  · exact (field_eq_ok hv).mpr ⟨_, Pydantic.laxInt_int _, rfl⟩
  · exact (field_eq_ok hten).mpr ⟨_, laxStr_str _, validateTenant_eq_ok.mpr ⟨rfl, ht⟩⟩
  · rcases hreq with hreq | ⟨hreq, rfl⟩
    · exact (field_eq_ok hreq).mpr ⟨_, laxStr_str _, rfl⟩
    · simp [field, hreq]
  · exact (field_eq_ok hpay).mpr
      ⟨_, laxDict_eq_some.mpr rfl, validatePayload_eq_ok.mpr ⟨rfl, hne⟩⟩

/-- What `wrap` has checked. -/
lemma of_modelValidate_wrap {env : Envelope F}
    (h : modelValidate [(text "version", .int envelopeVersion), (text "tenant_id", .str tenantId),
      (text "request_id", .str requestId), (text "payload", .obj payload)] = .ok env) :
    (uuidOf tenantId).isSome = true ∧ payload ≠ [] := by
  obtain ⟨-, ht, -, hp, -⟩ := modelValidate_eq_ok.mp h
  obtain ⟨t, htl, htv⟩ := (field_eq_ok (v := .str tenantId) rfl).mp ht
  obtain ⟨p, hpl, hpv⟩ := (field_eq_ok (v := .obj payload) rfl).mp hp
  obtain rfl := Json.str.inj (Pydantic.laxStr_eq_some.mp htl)
  obtain rfl := Json.obj.inj (laxDict_eq_some.mp hpl)
  exact ⟨(validateTenant_eq_ok.mp htv).2, (validatePayload_eq_ok.mp hpv).2⟩

end Validate

/-! ## The round trip -/

section RoundTrip

variable {tenantId requestId : PyStr} {payload : List (PyStr × Json F)}

omit [Pydantic F] in
/-- An envelope is one level deeper than its payload, and its version is short enough. -/
lemma check_envelopeObject {d : ℕ} (h : check d (.obj payload) = .ok ()) :
    check (d + 1) (.obj (envelopeObject tenantId payload requestId)) = .ok () := by
  have hone : digitsOk F 1 = true := by
    unfold digitsOk
    cases hl : JsonRuntime.digitLimit F with
    | none => rfl
    | some n =>
      have hn := JsonRuntime.digitLimit_ge (F := F) n hl
      have hlen : (Nat.toDigits 10 1).length = 1 := rfl
      simp only [Option.all_some, hlen, decide_eq_true_eq]
      omega
  obtain ⟨d, rfl, hp⟩ := check_obj h
  unfold envelopeObject
  split_ifs <;> simp [envelopeVersion, check, checkMembers, hone, hp, bind, Except.bind]

/-- `wrap` succeeds on what the model accepts and the encoder can write, and on nothing else. -/
lemma wrap_eq_ok {body : Bytes} :
    wrap tenantId payload requestId = .ok body ↔
      (uuidOf tenantId).isSome = true ∧ payload ≠ [] ∧
        ∃ s, dumps .compact (.obj (envelopeObject tenantId payload requestId)) = .ok s ∧
          encode s = some body := by
  unfold wrap
  split
  · next fields h =>
    simp only [reduceCtorEq, false_iff]
    rintro ⟨ht, hne, -⟩
    -- the validation would have accepted these fields
    have hok : modelValidate [(text "version", .int envelopeVersion),
        (text "tenant_id", .str tenantId), (text "request_id", .str requestId),
        (text "payload", .obj payload)] = .ok ⟨envelopeVersion, tenantId, requestId, payload⟩ :=
      modelValidate_envelope ht hne rfl rfl (Or.inl rfl) rfl (by simp [fieldNames])
    rw [h] at hok
    exact absurd hok (by simp)
  · next env h =>
    obtain ⟨ht, hne⟩ := of_modelValidate_wrap h
    simp only [ht, hne, true_and, ne_eq, not_false_eq_true]
    constructor
    · intro hb
      split at hb
      · simp at hb
      · next s hs =>
        split at hb
        · simp at hb
        · next b hb' =>
          obtain rfl := Except.ok.inj hb
          exact ⟨s, hs, hb'⟩
    · rintro ⟨s, hs, hb⟩
      simp [hs, hb]

/-- The payload as the worker receives it. -/
def received (payload : List (PyStr × Json F)) : List (PyStr × Json F) :=
  (Dict.ofList (readMembers true payload)).items

omit [Pydantic F] [JsonRuntime F] in
lemma received_ne_nil (h : payload ≠ []) : received payload ≠ [] := by
  obtain ⟨m, l, rfl⟩ := List.exists_cons_of_ne_nil h
  have hmem : readStr true m.1 ∈ (Dict.ofList (readMembers true (m :: l))).keys :=
    Dict.mem_keys_ofList.mpr (by simp [readMembers])
  intro hnil
  rw [Dict.keys, show (Dict.ofList (readMembers true (m :: l))).items = [] from hnil] at hmem
  cases hmem

omit [Pydantic F] [JsonRuntime F] in
/-- The object that `wrap` writes, as it is read back. -/
lemma readBack_envelopeObject (ht : WellFormed tenantId) :
    readBack true (.obj (envelopeObject tenantId payload requestId) : Json F) =
      .obj (envelopeObject tenantId (received payload) (readStr true requestId)) := by
  have hread : readMembers true (envelopeObject tenantId payload requestId) =
      envelopeObject tenantId (received payload) (readStr true requestId) := by
    unfold envelopeObject received
    simp only [readStr_eq_nil]
    split_ifs <;> simp [readMembers, readBack, readStr_wellFormed, wellFormed_text, ht]
  have hkeys : ((envelopeObject tenantId (received payload)
      (readStr true requestId)).map Prod.fst).Nodup := by
    unfold envelopeObject
    split_ifs
    · exact (by decide : [text "version", text "tenant_id", text "payload"].Nodup)
    · exact (by decide :
        [text "version", text "tenant_id", text "request_id", text "payload"].Nodup)
  rw [readBack, hread, Dict.items_ofList hkeys]

/-- A dictionary that is an envelope is unwrapped. -/
lemma unwrap_envelopeObject (ht : (uuidOf tenantId).isSome = true) (hne : payload ≠ []) :
    unwrap (.dict (envelopeObject tenantId payload requestId)) =
      .ok ⟨envelopeVersion, tenantId, requestId, payload⟩ := by
  rw [unwrap, unwrapValue]
  unfold envelopeObject
  split_ifs with hreq
  · rw [modelValidate_envelope ht hne rfl rfl (Or.inr ⟨rfl, hreq⟩) rfl (by simp [fieldNames])]
    rfl
  · rw [modelValidate_envelope ht hne rfl rfl (Or.inl rfl) rfl (by simp [fieldNames])]
    rfl

/-- The bytes of an envelope are read back as its object. -/
lemma loadsBytes_of_wrap {body : Bytes} (h : wrap tenantId payload requestId = .ok body) :
    loadsBytes body =
      .ok (.obj (envelopeObject tenantId (received payload) (readStr true requestId)) : Json F) := by
  obtain ⟨ht, -, s, hs, hb⟩ := wrap_eq_ok.mp h
  obtain ⟨n, hn⟩ := Option.isSome_iff_exists.mp ht
  obtain ⟨b, hb', hload⟩ := loadsBytes_dumps DumpOpts.compact_ok DumpOpts.compact_ascii hs
  obtain rfl : b = body := Option.some.inj (hb'.symm.trans hb)
  rw [hload, readBack_envelopeObject (uuidOf_wellFormed hn)]

/-- The object of an envelope that is read back is accepted. -/
lemma unwrap_received {body : Bytes} (h : wrap tenantId payload requestId = .ok body) :
    unwrap (.dict (envelopeObject tenantId (received payload) (readStr true requestId))) =
      .ok ⟨envelopeVersion, tenantId, readStr true requestId, received payload⟩ := by
  obtain ⟨ht, hne, -⟩ := wrap_eq_ok.mp h
  exact unwrap_envelopeObject ht (received_ne_nil hne)

/-- **A worker that unwraps the bytes of a wrapped job gets its tenant, its request id and its
payload**, as JSON text names them. -/
theorem unwrap_wrap {body : Bytes} (h : wrap tenantId payload requestId = .ok body) :
    unwrap (.bytes body) =
      .ok ⟨envelopeVersion, tenantId, readStr true requestId, received payload⟩ := by
  rw [unwrap, loadsBytes_of_wrap h]
  exact unwrap_received h

end RoundTrip

end Omkit.Jobqueue
