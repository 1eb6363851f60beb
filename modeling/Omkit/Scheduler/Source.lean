import Omkit.Lib.Json.Limits
import Omkit.Lib.Pointwise
import Omkit.Postgres
import Omkit.Scheduler.Reconcile

/-!
# The rows of the provider table

`PgxProviderSource.fetch_providers` reads the enabled rows of a kind, of all tenants in one query.
A config that is no JSON or no object counts as an empty one.
-/

namespace Omkit.Scheduler

open Lib

variable {F : Type}

/-- A fetched row; the config may be NULL. -/
structure ProviderRow (F : Type) where
  tenantId : PyStr
  name : PyStr
  config : Option (Column F)

variable [JsonRuntime F]

/-- `isinstance(cfg, dict)`, or an empty one. -/
def asDict : Json F → Json F
  | .obj l => .obj l
  | _ => .obj []

/-- The `json.loads` of a config and what is caught of it. -/
def loadConfig (s : PyStr) : Except StdExc (Json F) :=
  match loads s with
  | .ok v => .ok (asDict v)
  | .error e => if e = .jsonDecodeError ∨ e = .typeError then .ok (.obj []) else .error e

/-- The config of a row.  Bytes are decoded outside of the `try`. -/
def ProviderRow.parse (row : ProviderRow F) : Except StdExc (Json F) :=
  match row.config with
  | none => .ok (.obj [])
  | some (.value (.str s)) => loadConfig s
  | some (.value v) => .ok (asDict v)
  | some (.text s) => loadConfig s
  | some (.bytes b) => match decode b with
    | none => .error .unicodeDecodeError
    | some s => loadConfig s

/-- The provider of a row. -/
def ProviderRow.provider (row : ProviderRow F) : Except StdExc (Provider F) :=
  row.parse.map fun cfg => ⟨row.tenantId, row.name, cfg⟩

/-- `fetch_providers`, on the rows of the query. -/
def fetchProviders (rows : List (ProviderRow F)) : Except StdExc (List (Provider F)) :=
  rows.mapM ProviderRow.provider

/-- Every provider that is fetched is that of a row. -/
lemma exists_row_of_mem {rows : List (ProviderRow F)} {ps : List (Provider F)}
    (h : fetchProviders rows = .ok ps) {p : Provider F} (hp : p ∈ ps) :
    ∃ row ∈ rows, row.provider = .ok p :=
  exists_left (forall₂_of_mapM h) hp

/-! ## Rows that make the fetch raise -/

/-- The text of a config that is given to `json.loads`. -/
def ProviderRow.text? (row : ProviderRow F) : Option PyStr :=
  match row.config with
  | some (.text s) | some (.value (.str s)) => some s
  | some (.bytes b) => decode b
  | _ => none

/-- A row whose config is no text in UTF-8, or a text with an integer of too many digits, or with
brackets that are nested too deep, before any mistake in its syntax. -/
def ProviderRow.Barred (row : ProviderRow F) : Prop :=
  (∃ b, row.config = some (.bytes b) ∧ decode b = none) ∨
    ∃ s e, row.text? = some s ∧ e ≠ .jsonDecodeError ∧ s.head? ≠ some (.scalar '\ufeff') ∧
      Exceeds F s e

/-- The decoder exceeds a limit only by its digits and its nesting. -/
lemma not_exceeds_typeError {s : PyStr} : ¬ Exceeds F s .typeError := by
  rintro ⟨n, u, -, hoff⟩
  exact hoff

lemma loadConfig_raises_iff {s : PyStr} : (∃ e, loadConfig (F := F) s = .error e) ↔
    ∃ e, e ≠ .jsonDecodeError ∧ s.head? ≠ some (.scalar '\ufeff') ∧ Exceeds F s e := by
  constructor
  · rintro ⟨e, h⟩
    rw [loadConfig] at h
    split at h
    · cases h
    · next e' hload =>
      split at h
      · cases h
      · next hne =>
        obtain ⟨hj, -⟩ := not_or.mp hne
        exact ⟨e', hj, (loads_error_iff_exceeds hj).mp hload⟩
  · rintro ⟨e, hj, hexceeds⟩
    have ht : e ≠ .typeError := by
      rintro rfl
      exact not_exceeds_typeError hexceeds.2
    refine ⟨e, ?_⟩
    rw [loadConfig, (loads_error_iff_exceeds hj).mpr hexceeds]
    exact if_neg (not_or.mpr ⟨hj, ht⟩)

lemma parse_raises_iff {row : ProviderRow F} : (∃ e, row.parse = .error e) ↔ row.Barred := by
  obtain ⟨tenantId, name, config⟩ := row
  have htext : ∀ s : PyStr, (∃ e, loadConfig (F := F) s = .error e) ↔
      ∃ s' e, some s = some s' ∧ e ≠ .jsonDecodeError ∧ s'.head? ≠ some (.scalar '\ufeff') ∧
        Exceeds F s' e := by
    intro s
    rw [loadConfig_raises_iff]
    constructor
    · rintro ⟨e, h⟩
      exact ⟨s, e, rfl, h⟩
    · rintro ⟨s', e, hs, h⟩
      obtain rfl := Option.some.inj hs
      exact ⟨e, h⟩
  cases config with
  | none => simp [ProviderRow.parse, ProviderRow.Barred, ProviderRow.text?]
  | some c =>
    cases c with
    | text s => simpa [ProviderRow.parse, ProviderRow.Barred, ProviderRow.text?] using htext s
    | bytes b =>
      cases hd : decode b with
      | none => simp [ProviderRow.parse, ProviderRow.Barred, ProviderRow.text?, hd]
      | some s =>
        simpa [ProviderRow.parse, ProviderRow.Barred, ProviderRow.text?, hd] using htext s
    | value v =>
      cases v with
      | str s => simpa [ProviderRow.parse, ProviderRow.Barred, ProviderRow.text?] using htext s
      | _ => simp [ProviderRow.parse, ProviderRow.Barred, ProviderRow.text?]

/-- **A fetch raises exactly if one of its rows, of any tenant, is barred.** -/
theorem fetchProviders_raises_iff {rows : List (ProviderRow F)} :
    (∃ e, fetchProviders rows = .error e) ↔ ∃ row ∈ rows, row.Barred := by
  rw [fetchProviders, mapM_raises_iff]
  refine exists_congr fun row => and_congr_right fun _ => ?_
  rw [← parse_raises_iff]
  cases hp : row.parse <;> simp [ProviderRow.provider, hp, Except.map]

end Omkit.Scheduler
