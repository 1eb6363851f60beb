import Omkit.Lib.Json.Limits
import Omkit.Jobqueue.Streaq

/-!
# Malformed jobs

`unwrap` turns a mistake in the syntax, a value that is no object and an object that the model rejects
into `InvalidEnvelopeError`.  What else `loads` raises passes through: bytes that cannot be decoded,
and documents that exceed its limits.
-/

namespace Omkit.Jobqueue

open Lib
open Tenant (InContext)

variable {F : Type} [Pydantic F] [JsonRuntime F]

/-- Is the exception an `InvalidEnvelopeError`? -/
def EnvelopeError.isInvalid : EnvelopeError → Bool
  | .std _ => false
  | _ => true

/-- `unwrap` returns an envelope, or it raises `InvalidEnvelopeError`, which is then all that
`tenant_middleware` does. -/
def Classified (data : Data F) : Prop :=
  (∃ env, unwrap data = .ok env) ∨ ∃ e, unwrap data = .error e ∧ e.isInvalid = true ∧
    ∀ {K ε α : Type} (nextHandler : List (PyStr × Json F) → List (Data F) → K → InContext ε α)
      (args : List (Data F)) (kwargs : K),
      tenantMiddleware nextHandler (data :: args) kwargs = throw (.envelope e)

/-- The document has no integer of too many digits and no brackets that are nested too deep, or it has
a mistake before. -/
def WithinLimits (F : Type) [JsonRuntime F] (s : PyStr) : Prop := ∀ e, ¬ Exceeds F s e

/-- The bytes can be decoded, and the text is within the limits of the decoder; a text that starts
with a byte order mark is refused before it is read. -/
def Readable : Data F → Prop
  | .bytes b => ∃ s, decodeAs (detectEncoding b) b = some s ∧ WithinLimits F s
  | .str s => s.head? = some (.scalar '\ufeff') ∨ WithinLimits F s
  | .dict _ => True

/-! ## The exceptions of the decoder -/

omit [Pydantic F] in
lemma withinLimits_iff {s : PyStr} : WithinLimits F s ↔
    ∀ e, decodeDocument (F := F) s = .error e → e = .jsonDecodeError := by
  constructor
  · intro h e he
    by_contra hne
    exact h e ((decodeDocument_error_iff hne).mp he)
  · intro h e hex
    have hne : e ≠ .jsonDecodeError := by
      rintro rfl
      obtain ⟨n, u, -, hoff⟩ := hex
      exact hoff
    exact hne (h e ((decodeDocument_error_iff hne).mpr hex))

omit [Pydantic F] in
lemma loadsBytes_error_iff {b : Bytes} :
    (∀ e, loadsBytes (F := F) b = .error e → e = .jsonDecodeError) ↔ Readable (.bytes b : Data F) := by
  rw [loadsBytes]
  cases hb : decodeAs (detectEncoding b) b with
  | none => simp [Readable, hb]
  | some s =>
    rw [← withinLimits_iff]
    simp [Readable, hb]

omit [Pydantic F] in
lemma loads_error_iff {s : PyStr} :
    (∀ e, loads (F := F) s = .error e → e = .jsonDecodeError) ↔ Readable (.str s : Data F) := by
  rw [loads, Readable]
  by_cases hbom : s.head? = some (.scalar '\ufeff')
  · simp [hbom, eq_comm]
  · rw [if_neg hbom, or_iff_right hbom, withinLimits_iff]

/-! ## The exceptions of `unwrap` -/

omit [JsonRuntime F] in
lemma unwrapValue_classified (v : Json F) : (∃ env, unwrapValue v = .ok env) ∨
    ∃ e, unwrapValue v = .error e ∧ e.isInvalid = true := by
  cases v with
  | obj obj =>
    rw [unwrapValue]
    cases modelValidate obj with
    | error fields => exact Or.inr ⟨_, rfl, rfl⟩
    | ok env => exact Or.inl ⟨env, rfl⟩
  | _ => exact Or.inr ⟨.notObject, rfl, rfl⟩

omit [JsonRuntime F] in
/-- Only a mistake in the syntax is caught. -/
lemma unwrapParsed_classified_iff {x : Except StdExc (Json F)} :
    ((∃ env, unwrapParsed x = .ok env) ∨ ∃ e, unwrapParsed x = .error e ∧ e.isInvalid = true) ↔
      ∀ e, x = .error e → e = .jsonDecodeError := by
  cases x with
  | ok v => simpa [unwrapParsed] using unwrapValue_classified v
  | error e =>
    cases e with
    | jsonDecodeError => simp [unwrapParsed, EnvelopeError.isInvalid]
    | _ => simp [unwrapParsed, EnvelopeError.isInvalid]

/-- The middleware adds nothing to what `unwrap` raises. -/
lemma classified_iff_unwrap {data : Data F} : Classified data ↔
    (∃ env, unwrap data = .ok env) ∨ ∃ e, unwrap data = .error e ∧ e.isInvalid = true := by
  constructor
  · rintro (hok | ⟨e, he, hinv, -⟩)
    · exact Or.inl hok
    · exact Or.inr ⟨e, he, hinv⟩
  · rintro (hok | ⟨e, he, hinv⟩)
    · exact Or.inl hok
    · refine Or.inr ⟨e, he, hinv, fun nextHandler args kwargs => ?_⟩
      rw [tenantMiddleware, he]

/-- **A job is unwrapped or refused with `InvalidEnvelopeError` exactly if it is readable.** -/
theorem classified_iff_readable (data : Data F) : Classified data ↔ Readable data := by
  rw [classified_iff_unwrap]
  cases data with
  | bytes b => rw [unwrap, unwrapParsed_classified_iff, loadsBytes_error_iff]
  | str s => rw [unwrap, unwrapParsed_classified_iff, loads_error_iff]
  | dict obj => exact iff_of_true (unwrapValue_classified (.obj obj)) trivial

/-- A byte that is not UTF-8 raises `UnicodeDecodeError`. -/
theorem undecodable_escapes : ¬ ∀ data : Data Empty, Classified data := by
  intro hall
  have hraise : unwrap (.bytes [0xff] : Data Empty) = .error (.std .unicodeDecodeError) := by
    have hdecode : decodeAs (detectEncoding [0xff]) [0xff] = none := by decide +kernel
    rw [unwrap, loadsBytes, hdecode]
    rfl
  rcases classified_iff_unwrap.mp (hall (.bytes [0xff])) with ⟨env, hok⟩ | ⟨e, he, hinv⟩
  · rw [hraise] at hok
    cases hok
  · rw [hraise] at he
    obtain rfl := Except.error.inj he
    cases hinv

end Omkit.Jobqueue
