import Omkit.Lib.Json.Dynamic
import Omkit.Lib.Json.RoundTrip
import Omkit.Settings.Polling

/-!
# The cache and its file

All the operations of `SettingsManager` that touch its cache: the two loads, a poll, a message of the
channel, and the cache file, which a load through the session factory and every message write, and
which is read when that load fails.  What a query returns, and whether the file can be opened, is the
environment's choice.  A message may carry any value as its key, so a key of the cache need not be a
string.
-/

namespace Omkit.Settings

open Lib

/-! ## Keys -/

/-- A key of the cache.  Scalars that compare equal are one key, as `1`, `1.0` and `True` are. -/
inductive CacheKey (F : Type)
  | str (s : PyStr)
  | null
  | int (n : ℤ)
  | float (x : F)
  | nonFinite (k : NonFinite)
deriving DecidableEq

/-- How the floats of the interpreter compare with its integers. -/
class FloatKeys (F : Type) where
  /-- The integer that a float equals. -/
  integral : F → Option ℤ

instance : FloatKeys Empty where
  integral := Empty.elim

/-- The value of an item, with the text of the key that it was first stored under. -/
structure Entry (F : Type) where
  name : PyStr
  value : Json F

/-- `_cache`. -/
abbrev Cache (F : Type) := Dict (CacheKey F) (Entry F)

/-- The key that a value is; arrays and objects have no hash. -/
def CacheKey.of? {F : Type} [FloatKeys F] : Json F → Option (CacheKey F)
  | .str s => some (.str s)
  | .null => some .null
  | .bool b => some (.int (if b then 1 else 0))
  | .int n => some (.int n)
  | .float x => some (match FloatKeys.integral x with
    | some n => .int n
    | none => .float x)
  | .nonFinite k => some (.nonFinite k)
  | .arr _ | .obj _ => none

variable {F : Type} [JsonRuntime F]

/-- The text of a scalar as a key of a JSON object. -/
def keyText : Json F → PyStr
  | .str s => s
  | v => render .default v

section Cache

variable [DecidableEq F]

/-- `self._cache[key] = value`; a present key stays as it was spelled. -/
def Cache.put (c : Cache F) (k : CacheKey F) (name : PyStr) (value : Json F) : Cache F :=
  c.set k ⟨((c.get? k).map Entry.name).getD name, value⟩

/-- `self._cache.update(d)`, for items with string keys. -/
def Cache.putAll (c : Cache F) (l : List (PyStr × Json F)) : Cache F :=
  l.foldl (fun c p => c.put (.str p.1) p.1 p.2) c

/-- An element of the argument of `dict.update` as a pair of a key and its value. -/
def asPair : Json F → Option (Json F × Json F)
  | .arr [k, v] => some (k, v)
  | .str [x, y] => some (.str [x], .str [y])
  | .obj [m, m'] => some (.str m.1, .str m'.1)
  | _ => none

variable [FloatKeys F]

/-- `dict.update` over the elements of an array, up to the first that is no pair or has no hash. -/
def Cache.updateItems (c : Cache F) : List (Json F) → Cache F
  | [] => c
  | v :: l => match asPair v with
    | none => c
    | some (k, w) => match CacheKey.of? k with
      | none => c
      | some key => (c.put key (keyText k) w).updateItems l

/-- `self._cache.update(v)`, up to where it raises. -/
def Cache.update (c : Cache F) : Json F → Cache F
  | .obj l => c.putAll l
  | .arr l => c.updateItems l
  | _ => c

end Cache

/-! ## The manager -/

/-- What is left to do with the cache file. -/
inductive FileStep
  | idle
  /-- `_load_from_db` has put its rows into the cache and closes the session. -/
  | loaded
  /-- A message has changed the cache. -/
  | message
  /-- `_load_from_db` has raised. -/
  | failed
deriving DecidableEq

/-- A row of `app_settings` as the session returns it. -/
structure DbRow (F : Type) where
  value : Json F
  isSecret : Bool

/-- The manager, its cache file, and what its queries have told about its keys. -/
structure Manager (F : Type) where
  cache : Cache F
  secretKeys : List PyStr
  lastSeen : Option ℤ
  /-- The text of the cache file, if there is one. -/
  file : Option PyStr
  fileStep : FileStep
  /-- The rows that a running poll has still to handle, and its local `latest`. -/
  poll : Option (List (PyStr × SettingRow F) × Option ℤ)
  /-- The flag of the latest fetched row of each key. -/
  flags : Dict PyStr Bool
  /-- The keys that were secret by `flags` when the file was last written. -/
  sealed : List PyStr

/-- What may happen next. -/
inductive Op (F : Type)
  /-- `_load_from_pool`, whose query returns rows or raises. -/
  | loadFromPool (rows : Option (List (PyStr × SettingRow F)))
  /-- `_load_from_db` up to the end of its loop. -/
  | loadFromDb (rows : Option (List (PyStr × DbRow F)))
  /-- The session of `_load_from_db` cannot be closed. -/
  | closeFails
  /-- `_write_cache`, which replaces the file or fails. -/
  | writeCache (replaced : Bool)
  /-- `_read_cache`, which opens the file or fails. -/
  | readCache (opened : Bool)
  /-- The query of `_poll_once` returns rows or raises. -/
  | pollOnce (rows : Option (List (PyStr × SettingRow F)))
  /-- `_poll_once` handles its next row, with the callbacks. -/
  | pollRow
  /-- `_poll_once` ends after its last row. -/
  | pollEnd
  /-- `_poll_once` is cancelled, or its connection cannot be released. -/
  | pollStop
  /-- `_handle_message`, up to the cache file. -/
  | handleMessage (data : PyStr)

/-- The keys and flags of fetched rows are the latest. -/
def mark (flags : Dict PyStr Bool) (rows : List (PyStr × Bool)) : Dict PyStr Bool :=
  rows.foldl (fun flags p => flags.set p.1 p.2) flags

/-- The keys and flags of polled rows. -/
def rowFlags (rows : List (PyStr × SettingRow F)) : List (PyStr × Bool) :=
  rows.map fun p => (p.1, p.2.isSecret)

/-- The latest fetched row of the key was a secret. -/
def Manager.Secret (m : Manager F) (k : PyStr) : Prop := m.flags.get? k = some true

instance (m : Manager F) (k : PyStr) : Decidable (m.Secret k) := by
  unfold Manager.Secret
  infer_instance

/-- The keys whose latest fetched row was a secret. -/
def Manager.secrets (m : Manager F) : List PyStr :=
  (m.flags.items.filter Prod.snd).map Prod.fst

variable [DecidableEq F]

/-- `get`. -/
def Manager.get (m : Manager F) (key : PyStr) (default : Json F) : Json F :=
  ((m.cache.get? (.str key)).map Entry.value).getD default

/-- What `_load_from_pool` has done, whether or not its loop has raised. -/
def Manager.loading (m : Manager F) (rows : List (PyStr × SettingRow F)) : Loading F :=
  match loadRows ⟨.empty, m.secretKeys, m.lastSeen⟩ rows with
  | .ok l | .error l => l

/-- `_load_from_pool`.  The loop only assigns to the cache, so it is run over an empty one. -/
def Manager.loadFromPool (m : Manager F) : Option (List (PyStr × SettingRow F)) → Manager F
  | none => m
  | some rows =>
    let l := m.loading rows
    { m with
      cache := m.cache.putAll l.cache.items
      secretKeys := l.secretKeys
      lastSeen := match loadRows ⟨.empty, m.secretKeys, m.lastSeen⟩ rows with
        | .ok l => l.latest.or m.lastSeen
        | .error _ => m.lastSeen
      flags := mark m.flags (rowFlags rows) }

/-- The loop of `_load_from_db`. -/
def Manager.loadFromDb (m : Manager F) : Option (List (PyStr × DbRow F)) → Manager F
  | none => { m with fileStep := .failed }
  | some rows => { m with
      cache := m.cache.putAll ((rows.filter fun p => !p.2.isSecret).map fun p => (p.1, p.2.value))
      secretKeys := ((rows.filter fun p => p.2.isSecret).map Prod.fst).foldl
        (fun l k => l.insert k) m.secretKeys
      flags := mark m.flags (rows.map fun p => (p.1, p.2.isSecret))
      fileStep := .loaded }

/-- `data` of `_write_cache`. -/
def Manager.data (m : Manager F) : List (CacheKey F × Entry F) :=
  m.cache.items.filter fun p => ∀ k ∈ m.secretKeys, p.1 ≠ .str k

/-- The text that `_write_cache` writes. -/
def Manager.dump (m : Manager F) : Except StdExc PyStr :=
  dumps .default (.obj (m.data.map fun p => (p.2.name, p.2.value)))

/-- `_write_cache`; whatever fails leaves the file as it was. -/
def Manager.writeCache (m : Manager F) (replaced : Bool) : Manager F :=
  match replaced, m.dump with
  | true, .ok s => { m with file := some s, sealed := m.secrets, fileStep := .idle }
  | _, _ => { m with fileStep := .idle }

/-- The loop body of `_poll_once`. -/
def Manager.pollRow (m : Manager F) (k : PyStr) (r : SettingRow F)
    (todo : List (PyStr × SettingRow F)) (latest : Option ℤ) : Manager F :=
  let latest := newer latest r.updatedAt
  if r.isSecret then { m with poll := some (todo, latest) }
  else match decodeValue r.value with
    | .error _ => { m with poll := none }
    | .ok v => { m with cache := m.cache.put (.str k) k v, poll := some (todo, latest) }

section Keys

variable [FloatKeys F]

/-- `_read_cache`. -/
def Manager.readCache (m : Manager F) (opened : Bool) : Manager F :=
  match opened, m.file with
  | true, some s => match loads s with
    | .ok v => { m with cache := m.cache.update v, fileStep := .idle }
    | .error _ => { m with fileStep := .idle }
  | _, _ => { m with fileStep := .idle }

variable [PyNumbers F]

/-- `_handle_message`, for an object with a true `key`. -/
def Manager.handlePayload (m : Manager F) (payload : List (PyStr × Json F)) (key : Json F) :
    Manager F :=
  match payload.lookup (text "value") with
  | some v => match CacheKey.of? key with
    | some k => { m with cache := m.cache.put k (keyText key) v, fileStep := .message }
    -- A `TypeError`, before the file is written.
    | none => m
  | none =>
    if ((payload.lookup (text "changed")).getD .null).truthy then match CacheKey.of? key with
      | some k => { m with cache := m.cache.pop k, fileStep := .message }
      -- An empty dictionary gives the default without a look at the key.
      | none => if m.cache.items.isEmpty then { m with fileStep := .message } else m
    else { m with fileStep := .message }

/-- `_handle_message`; a payload that is no object is an `AttributeError`. -/
def Manager.handleMessage (m : Manager F) (data : PyStr) : Manager F :=
  match loads data with
  | .ok (.obj payload) =>
    let key := (payload.lookup (text "key")).getD .null
    if key.truthy then m.handlePayload payload key else m
  | _ => m

/-- One step.  Between a change of the cache and its file nothing else happens; while a poll waits
for a callback, anything may. -/
def Manager.step (m : Manager F) (op : Op F) : Option (Manager F) :=
  match m.fileStep, op with
  | .loaded, .closeFails => some { m with fileStep := .failed }
  | .loaded, .writeCache replaced | .message, .writeCache replaced => some (m.writeCache replaced)
  | .failed, .readCache opened => some (m.readCache opened)
  | .idle, .loadFromPool rows =>
    -- The key is the primary key of the table.
    if ((rows.getD []).map Prod.fst).Nodup then some (m.loadFromPool rows) else none
  | .idle, .loadFromDb rows =>
    if ((rows.getD []).map Prod.fst).Nodup then some (m.loadFromDb rows) else none
  | .idle, .pollOnce none => some m
  | .idle, .pollOnce (some rows) =>
    if m.poll.isNone ∧ (rows.map Prod.fst).Nodup ∧ (∀ p ∈ rows, selected m.lastSeen p.2) ∧
        (rows.map fun p => p.2.updatedAt).Pairwise (· ≤ ·) then
      some { m with poll := some (rows, m.lastSeen), flags := mark m.flags (rowFlags rows) }
    else none
  | .idle, .pollRow => match m.poll with
    | some ((k, r) :: todo, latest) => some (m.pollRow k r todo latest)
    | _ => none
  | .idle, .pollEnd => match m.poll with
    | some ([], latest) => some { m with lastSeen := latest.or m.lastSeen, poll := none }
    | _ => none
  | .idle, .pollStop => some { m with poll := none }
  | .idle, .handleMessage data => some (m.handleMessage data)
  | _, _ => none

/-- A new manager, beside whatever cache file there is. -/
def managers : Machine (Manager F) (Op F) where
  init m := m.cache = .empty ∧ m.secretKeys = [] ∧ m.lastSeen = none ∧ m.fileStep = .idle ∧
    m.poll = none ∧ m.flags = .empty ∧ m.sealed = []
  step := Manager.step

end Keys

end Omkit.Settings
