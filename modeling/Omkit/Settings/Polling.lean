import Omkit.Lib.Dict
import Omkit.Lib.Json.Loads
import Omkit.Lib.Machine
import Omkit.Postgres

/-!
# Polled settings

`SettingsManager` on its pool backend, over the table `app_settings` and the transactions of any
number of writers.  A writer stamps its rows with the start time of its transaction, and they become
visible at `COMMIT`.  The manager loads the table once, and then polls: a `SELECT` of the rows
beyond a watermark, one step for each row, and the new watermark.
-/

namespace Omkit.Settings

open Lib

/-- A row of `app_settings`. -/
structure SettingRow (F : Type) where
  /-- `value_json`. -/
  value : Column F
  isSecret : Bool
  /-- In microseconds. -/
  updatedAt : ℤ

/-- The committed rows, by key. -/
abbrev Table (F : Type) := Dict PyStr (SettingRow F)

/-- A writer's open transaction: its start time, and what it has written. -/
structure Txn (F : Type) where
  start : ℤ
  /-- The value of each key, and whether it is a secret. -/
  writes : Dict PyStr (Column F × Bool)

/-- What a load has done so far: the cache, the known secrets, and the local `latest`. -/
structure Loading (F : Type) where
  cache : Dict PyStr (Json F)
  secretKeys : List PyStr
  latest : Option ℤ

/-- How `start` ended. -/
inductive Outcome
  /-- `_load_from_pool` raised, and the exception was swallowed. -/
  | failed
  /-- It found no rows. -/
  | empty
  | loaded
deriving DecidableEq

/-- Where the manager stands. -/
inductive Phase (F : Type)
  /-- Before `start`. -/
  | new
  /-- Between two polls. -/
  | idle
  /-- A poll has succeeded, over the table that its `SELECT` saw. -/
  | polled (seen : Table F)
  /-- A poll over the table `seen`, with the rows still to be handled and the local `latest`. -/
  | polling (seen : Table F) (todo : List (PyStr × SettingRow F)) (latest : Option ℤ)

/-- The table with its writers, and the manager. -/
structure State (F : Type) where
  table : Table F
  now : ℤ
  txns : Dict ℕ (Txn F)
  /-- `_cache`. -/
  cache : Dict PyStr (Json F)
  /-- `_secret_keys`. -/
  secretKeys : List PyStr
  /-- `_poll_last_seen`. -/
  lastSeen : Option ℤ
  phase : Phase F
  /-- How `start` ended, if it was called. -/
  outcome : Option Outcome
  /-- The cache at the end of `start`. -/
  loaded : Dict PyStr (Json F)
  /-- The watermark at the end of `start`. -/
  startSeen : Option ℤ

/-- What may happen next. -/
inductive Action (F : Type)
  | tick (t : ℤ)
  | begin (id : ℕ)
  | write (id : ℕ) (key : PyStr) (value : Column F) (isSecret : Bool)
  | commit (id : ℕ)
  | abort (id : ℕ)
  /-- `start`, whose query returns the keys in some order or raises; can its connection be released
  after it? -/
  | start (order : Option (List PyStr)) (released : Bool)
  /-- The `SELECT` of a poll returns keys, or raises. -/
  | select (order : Option (List PyStr))
  /-- The next row of a poll is handled, with its callbacks. -/
  | row
  /-- A poll ends after its last row. -/
  | finish
  /-- A poll is cancelled. -/
  | cancel

variable {F : Type} [JsonRuntime F]

/-! ## Rows and values -/

/-- `json.loads(value)` of a string, which stays as it is if it is not JSON. -/
def parseText (s : PyStr) : Except StdExc (Json F) :=
  match loads s with
  | .error .jsonDecodeError => .ok (.str s)
  | r => r

/-- The value that is cached for a column. -/
def decodeValue : Column F → Except StdExc (Json F)
  | .bytes b => match decode b with
    | none => .error .unicodeDecodeError
    | some s => parseText s
  | .text s => parseText s
  | .value (.str s) => parseText s
  | .value v => .ok v

/-- `latest` after a row. -/
def newer : Option ℤ → ℤ → Option ℤ
  | none, t => some t
  | some l, t => if l < t then some t else some l

/-- The rows with the given keys. -/
def rowsOf (table : Table F) (order : List PyStr) : List (PyStr × SettingRow F) :=
  order.filterMap fun k => (table.get? k).map fun r => (k, r)

/-- `updated_at > $1`; a comparison with `NULL` selects no row. -/
def selected (lastSeen : Option ℤ) (r : SettingRow F) : Bool :=
  lastSeen.any fun l => l < r.updatedAt

/-- The keys that the `SELECT` of a poll returns, without their order. -/
def selectedKeys (lastSeen : Option ℤ) (table : Table F) : List PyStr :=
  (table.items.filter fun p => selected lastSeen p.2).map Prod.fst

/-- The loop of `_load_from_pool`; an error carries what was done before the exception. -/
def loadRows (l : Loading F) : List (PyStr × SettingRow F) → Except (Loading F) (Loading F)
  | [] => .ok l
  | (k, r) :: rows =>
    let latest := newer l.latest r.updatedAt
    if r.isSecret then loadRows { l with secretKeys := l.secretKeys.insert k, latest } rows
    else match decodeValue r.value with
      | .error _ => .error { l with latest }
      | .ok v => loadRows { l with cache := l.cache.set k v, latest } rows

/-! ## The machine -/

/-- The table after the commit of a transaction. -/
def Txn.apply (t : Txn F) (table : Table F) : Table F :=
  t.writes.items.foldl (fun table p => table.set p.1 ⟨p.2.1, p.2.2, t.start⟩) table

/-- `start` on the pool backend.  The connection is released once the watermark is set. -/
def State.start (s : State F) (released : Bool) : Option (List PyStr) → Option (State F)
  | none => some { s with
      phase := .idle, outcome := some .failed, loaded := s.cache, startSeen := s.lastSeen }
  | some order =>
    if order.Perm s.table.keys then
      match loadRows ⟨s.cache, s.secretKeys, s.lastSeen⟩ (rowsOf s.table order) with
      | .error l => some { s with
          cache := l.cache, secretKeys := l.secretKeys, phase := .idle, outcome := some .failed,
          loaded := l.cache, startSeen := s.lastSeen }
      | .ok l => some { s with
          cache := l.cache, secretKeys := l.secretKeys, lastSeen := l.latest.or s.lastSeen,
          phase := .idle,
          outcome := some (if !released then .failed else if order = [] then .empty else .loaded),
          loaded := l.cache, startSeen := l.latest.or s.lastSeen }
    else none

/-- The `SELECT` of `_poll_once`. -/
def State.select (s : State F) : Option (List PyStr) → Option (State F)
  | none => some { s with phase := .idle }
  | some order =>
    if order.Perm (selectedKeys s.lastSeen s.table) ∧
        ((rowsOf s.table order).map fun p => p.2.updatedAt).Pairwise (· ≤ ·) then
      some { s with phase := .polling s.table (rowsOf s.table order) s.lastSeen }
    else none

/-- The loop body of `_poll_once`. -/
def State.row (s : State F) (seen : Table F) (k : PyStr) (r : SettingRow F)
    (todo : List (PyStr × SettingRow F)) (latest : Option ℤ) : State F :=
  let latest := newer latest r.updatedAt
  if r.isSecret then { s with phase := .polling seen todo latest }
  else match decodeValue r.value with
    | .error _ => { s with phase := .idle }
    | .ok v => { s with cache := s.cache.set k v, phase := .polling seen todo latest }

/-- One step. -/
def step (s : State F) : Action F → Option (State F)
  | .tick t => if s.now ≤ t then some { s with now := t } else none
  | .begin id => if id ∈ s.txns.keys then none
    else some { s with txns := s.txns.set id ⟨s.now, .empty⟩ }
  | .write id k value isSecret => match s.txns.get? id with
    | none => none
    | some t =>
      -- A row that another open transaction has written is locked.
      if s.txns.items.any fun p => p.1 ≠ id ∧ k ∈ p.2.writes.keys then none
      else some { s with txns := s.txns.set id { t with writes := t.writes.set k (value, isSecret) } }
  | .commit id => (s.txns.get? id).map fun t =>
    { s with table := t.apply s.table, txns := s.txns.pop id }
  | .abort id => some { s with txns := s.txns.pop id }
  | .start order released => match s.phase with
    | .new => s.start released order
    | _ => none
  | .select order => match s.phase with
    | .idle | .polled _ => s.select order
    | _ => none
  | .row => match s.phase with
    | .polling seen ((k, r) :: todo) latest => some (s.row seen k r todo latest)
    | _ => none
  | .finish => match s.phase with
    | .polling seen [] latest =>
      some { s with lastSeen := latest.or s.lastSeen, phase := .polled seen }
    | _ => none
  | .cancel => match s.phase with
    | .polling _ _ _ => some { s with phase := .idle }
    | _ => none

/-- A manager that has not been started, over any table and at any time. -/
def machine : Machine (State F) (Action F) where
  init s := s.txns = .empty ∧ s.cache = .empty ∧ s.secretKeys = [] ∧ s.lastSeen = none ∧
    s.phase = .new ∧ s.outcome = none ∧ s.loaded = .empty ∧ s.startSeen = none
  step := step

end Omkit.Settings
