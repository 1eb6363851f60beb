import Omkit.Lib.DateTime
import Omkit.Lib.Uuid

/-!
# The database server and its driver

What the statements of the package rely on and the repository does not hold: the casts of the
server, and the form in which the driver hands a JSON column back.
-/

namespace Omkit

open Lib

/-- A JSON column of a fetched row: the driver returns its text, its bytes, or, when a codec is
registered on the connection, the value itself. -/
inductive Column (F : Type)
  | text (s : PyStr)
  | bytes (b : Bytes)
  | value (v : Json F)

/-- The casts that the statements use. -/
class Postgres (F : Type) where
  /-- The text of `$1::uuid`; `none` if the parameter is no UUID. -/
  uuidText : PyStr → Option PyStr
  /-- `$1::jsonb` as it is fetched later; `none` if the server rejects the text. -/
  jsonb : PyStr → Option (Column F)
  /-- A `timestamptz` parameter as it is fetched later; `none` if the driver refuses it. -/
  timestamptz : DateTime → Option Aware
  /-- The text of a UUID is one of its spellings. -/
  uuidText_uuidText : ∀ {s t}, uuidText s = some t → uuidText t = some t
  /-- The server keeps the instant. -/
  timestamptz_instant : ∀ {t t'}, timestamptz t = some t' → t.instant = some t'.micros

/-- A server that keeps the text of a JSON value as it is. -/
instance : Postgres Empty where
  uuidText s := (driverUuid s).map Lib.uuidText
  jsonb s := some (.text s)
  timestamptz t := if h : t.instant.isSome then some ⟨t, h⟩ else none
  uuidText_uuidText := by
    intro s t h
    obtain ⟨n, hn, rfl⟩ := Option.map_eq_some_iff.mp h
    rw [driverUuid_uuidText (driverUuid_lt hn)]
    rfl
  timestamptz_instant := by
    intro t t' h
    split at h
    · rw [← Option.some.inj h, Aware.micros, Option.some_get]
    · cases h

end Omkit
