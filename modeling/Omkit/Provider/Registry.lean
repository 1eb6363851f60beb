import Omkit.Lib.Dict
import Omkit.Lib.Machine
import Omkit.Lib.Uuid

/-!
# The provider registry

`ProviderRegistry` and the event loop around it: the provider tasks that it has created, the done
callbacks that the loop still has to run, the driver task (`_poll_loop` or `_subscribe_valkey`) and
one call of `stop`.  A function that awaits is cut at its awaits.
-/

namespace Omkit.Provider

open Lib

/-! ## The registry -/

/-- A row as `_fetch_providers` returns it.  Its `tenant_id::text` is the text of a UUID. -/
structure Row (Γ : Type) where
  tenant : ℕ
  tenant_lt : tenant < 2 ^ 128
  name : PyStr
  config : Γ

/-- The number 1 is that of a UUID. -/
lemma one_lt_uuids : 1 < 2 ^ 128 := by norm_num

/-- How a task ends. -/
inductive Ending
  | returned
  | raised
  | cancelled
deriving DecidableEq

/-- A provider task: the row that its instance was constructed with, and how it has ended. -/
structure Task (Γ : Type) where
  row : Row Γ
  /-- `cancel()` was called. -/
  cancelling : Bool
  ending : Option Ending

/-- The registry, and what the event loop knows of its tasks. -/
structure Registry (Γ : Type) where
  /-- `_tasks`: the number of the task under each key. -/
  tasks : Dict PyStr ℕ
  /-- Every task that was created, by its number. -/
  created : List (Task Γ)
  /-- The ended tasks whose done callback has not run yet, in the order in which it will. -/
  callbacks : List ℕ

/-- What `_start_task` may raise. -/
inductive Raised
  | assertionError
  /-- An exception of the constructor. -/
  | constructor
deriving DecidableEq

variable {Γ : Type}

/-- The text of the tenant. -/
def Row.tenantId (r : Row Γ) : PyStr := uuidText r.tenant

/-- `f"{tenant_id}:{name}"`. -/
def Row.key (r : Row Γ) : PyStr := r.tenantId ++ text ":" ++ r.name

/-- The key of a task. -/
def Task.key (t : Task Γ) : PyStr := t.row.key

/-- The rows have distinct `(tenant, name)`. -/
def Distinct (rows : List (Row Γ)) : Prop := (rows.map fun r => (r.tenant, r.name)).Nodup

instance (rows : List (Row Γ)) : Decidable (Distinct rows) :=
  inferInstanceAs (Decidable (List.Nodup _))

namespace Registry

/-- A registry with no task. -/
def empty : Registry Γ := ⟨.empty, [], []⟩

/-- `task.done()`. -/
def done (r : Registry Γ) (id : ℕ) : Bool := (r.created[id]?).all fun t => t.ending.isSome

/-- `task.cancel()`. -/
def cancel (r : Registry Γ) (id : ℕ) : Registry Γ :=
  { r with created := r.created.modify id fun t => { t with cancelling := true } }

/-- `_start_task`, with the provider classes and the rows whose construction raises. -/
def startTask (known : PyStr → Bool) (fails : Row Γ → Bool) (r : Registry Γ) (row : Row Γ) :
    Except Raised (Registry Γ) :=
  if !known row.name then .ok r
  else if row.key ∈ r.tasks.keys then .error .assertionError
  else if fails row then .error .constructor
  else .ok { r with
    tasks := r.tasks.set row.key r.created.length, created := r.created ++ [⟨row, false, none⟩] }

/-- `for row in rows: self._start_task(...)`, up to an exception. -/
def startTasks (known : PyStr → Bool) (fails : Row Γ → Bool) :
    Registry Γ → List (Row Γ) → Registry Γ × Option Raised
  | r, [] => (r, none)
  | r, row :: rows => match r.startTask known fails row with
    | .error e => (r, some e)
    | .ok r' => startTasks known fails r' rows

/-- `_on_task_done`. -/
def onTaskDone (r : Registry Γ) (key : PyStr) (task : Task Γ) : Registry Γ :=
  match task.ending with
  | some .raised => { r with tasks := r.tasks.pop key }
  | _ => r

/-- The loop of `_cancel_tasks`, and the tasks that it then awaits. -/
def cancelTasks : Registry Γ → List PyStr → Registry Γ × List ℕ
  | r, [] => (r, [])
  | r, k :: keys =>
    let popped := { r with tasks := r.tasks.pop k }
    match r.tasks.get? k with
    | none => popped.cancelTasks keys
    | some id =>
      if r.done id then popped.cancelTasks keys
      else
        let rest := (popped.cancel id).cancelTasks keys
        (rest.1, id :: rest.2)

/-- `[k for k in self._tasks if k.startswith(f"{tenant_id}:")]`. -/
def tenantKeys (r : Registry Γ) (tenantId : PyStr) : List PyStr :=
  r.tasks.keys.filter fun k => (tenantId ++ text ":").isPrefixOf k

/-- `{f"{r['tenant_id']}:{r['name']}": r for r in rows}`. -/
def desiredOf (rows : List (Row Γ)) : Dict PyStr (Row Γ) := .ofList (rows.map fun r => (r.key, r))

/-- `a - b` of two sets of keys, without its order. -/
def difference (a b : List PyStr) : List PyStr := a.filter fun k => k ∉ b

/-- A task ends, and its done callback is scheduled. -/
def taskEnds (r : Registry Γ) (id : ℕ) (e : Ending) : Option (Registry Γ) :=
  if r.done id then none
  else some { r with
    created := r.created.modify id (fun t => { t with ending := some e })
    callbacks := r.callbacks ++ [id] }

/-- The next done callback runs. -/
def callback (r : Registry Γ) : Option (Registry Γ) :=
  match r.callbacks with
  | [] => none
  | id :: callbacks => (r.created[id]?).map fun t =>
    { r with callbacks }.onTaskDone t.key t

/-- The tasks of a `gather` have ended, and so have their done callbacks, which were registered
before those of the `gather`. -/
def gathered (r : Registry Γ) (ids : List ℕ) : Bool :=
  ids.all fun id => r.done id && id ∉ r.callbacks

/-- The done callbacks that were scheduled at a suspension have run. -/
def ran (r : Registry Γ) (before : List ℕ) : Bool := before.all fun id => id ∉ r.callbacks

end Registry

/-! ## The machine -/

/-- `PROVIDERS_BACKEND`. -/
inductive Backend
  | postgres
  | redis
deriving DecidableEq

/-- The await at which the driver task stands. -/
inductive Driver (Γ : Type)
  /-- `wait_for` in `_poll_loop`. -/
  | waiting
  /-- `psubscribe` in `_subscribe_valkey`. -/
  | connecting
  | listening
  | sleeping
  /-- The `finally` of `_subscribe_valkey`; does its loop go on? -/
  | closing (again : Bool)
  /-- The fetch of `_reconcile_all`, and the callbacks that were scheduled when it began. -/
  | fetchAll (before : List ℕ)
  /-- The `gather` of `_reconcile_all`. -/
  | gatherStale (ids : List ℕ) (desired : Dict PyStr (Row Γ)) (current : List PyStr)
  /-- The `gather` of `_reload_tenant`. -/
  | gatherTenant (ids : List ℕ) (tenantId : PyStr)
  /-- The fetch of `_reload_tenant`. -/
  | fetchTenant (tenantId : PyStr) (before : List ℕ)
  | ended

/-- The await at which `stop` stands. -/
inductive Stop
  | notCalled
  /-- The `gather` of the driver. -/
  | joining
  /-- The `gather` of `_cancel_tasks`. -/
  | gathering (ids : List ℕ)
  | returned

/-- A registry after `start`. -/
structure State (Γ : Type) where
  backend : Backend
  reg : Registry Γ
  driver : Driver Γ
  stop : Stop

/-- What may happen next. -/
inductive Action (Γ : Type)
  | taskEnds (id : ℕ) (e : Ending)
  | callback
  /-- `wait_for` ends in `_poll_loop`. -/
  | wake
  | subscribed
  /-- A message arrives for a tenant. -/
  | message (tenantId : PyStr)
  /-- The subscription ends, or it raises. -/
  | disconnected (raises : Bool)
  | slept
  /-- The `finally` is done, or it raises. -/
  | closed (raises : Bool)
  /-- A fetch returns rows or raises; the orders of the two set differences, and the rows whose
  construction raises. -/
  | fetched (rows : Option (List (Row Γ))) (stale fresh : List PyStr) (fails : Row Γ → Bool)
  /-- A `gather` of the driver ends. -/
  | gathered (fresh : List PyStr) (fails : Row Γ → Bool)
  /-- The driver gets the `CancelledError` of `stop`. -/
  | cancelled
  | stop
  /-- `stop` goes on after the driver has ended. -/
  | joined
  | stopGathered

/-- Is `_stop` set? -/
def State.stopping (s : State Γ) : Bool :=
  match s.stop with
  | .notCalled => false
  | _ => true

/-- The driver suspends in a fetch of all rows. -/
def State.fetchAll (s : State Γ) : State Γ := { s with driver := .fetchAll s.reg.callbacks }

/-- The driver after `_reconcile_all` or `_reload_tenant`, which may have raised. -/
def State.jobEnds (s : State Γ) (raises : Bool) : State Γ :=
  { s with driver := match s.backend with
      | .postgres => if s.stopping then .ended else .waiting
      | .redis => if raises then .sleeping else .listening }

/-- The last loop of `_reconcile_all` and of `_reload_tenant`. -/
def State.startTasks (known : PyStr → Bool) (fails : Row Γ → Bool) (s : State Γ)
    (rows : List (Row Γ)) : State Γ :=
  let (reg, raised) := s.reg.startTasks known fails rows
  { s with reg }.jobEnds raised.isSome

/-- The end of `_reconcile_all`, for an order of `desired_keys - current`. -/
def State.startMissing (known : PyStr → Bool) (s : State Γ) (desired : Dict PyStr (Row Γ))
    (current fresh : List PyStr) (fails : Row Γ → Bool) : Option (State Γ) :=
  if fresh.Perm (Registry.difference desired.keys current) then
    some (s.startTasks known fails (fresh.filterMap desired.get?))
  else none

/-- `_reconcile_all` after its fetch. -/
def State.cancelStale (known : PyStr → Bool) (s : State Γ) (rows : List (Row Γ))
    (stale fresh : List PyStr) (fails : Row Γ → Bool) : Option (State Γ) :=
  let desired := Registry.desiredOf rows
  let current := s.reg.tasks.keys
  if stale.Perm (Registry.difference current desired.keys) then
    let (reg, ids) := s.reg.cancelTasks stale
    if ids = [] then { s with reg }.startMissing known desired current fresh fails
    else some { s with reg, driver := .gatherStale ids desired current }
  else none

/-- `_reload_tenant` up to its first await. -/
def State.reloadTenant (s : State Γ) (tenantId : PyStr) : State Γ :=
  if tenantId.length < 36 then s
  else
    let (reg, ids) := s.reg.cancelTasks (s.reg.tenantKeys tenantId)
    { s with
      reg
      driver := if ids = [] then .fetchTenant tenantId reg.callbacks
        else .gatherTenant ids tenantId }

/-- The driver gets a `CancelledError`; a `gather` passes it on only when its tasks have ended. -/
def State.cancelled (s : State Γ) : Option (State Γ) :=
  let ends : Option (State Γ) := some { s with driver := match s.backend with
      | .postgres => .ended
      | .redis => .closing false }
  match s.driver with
  | .ended => none
  | .closing _ => some { s with driver := .ended }
  | .gatherStale ids _ _ | .gatherTenant ids _ => if s.reg.gathered ids then ends else none
  | _ => ends

/-- One step. -/
def step (known : PyStr → Bool) (s : State Γ) : Action Γ → Option (State Γ)
  | .taskEnds id e => (s.reg.taskEnds id e).map fun reg => { s with reg }
  | .callback => s.reg.callback.map fun reg => { s with reg }
  | .wake => match s.driver with
    | .waiting => some (if s.stopping then { s with driver := .ended } else s.fetchAll)
    | _ => none
  | .subscribed => match s.driver with
    | .connecting => some s.fetchAll
    | _ => none
  | .message tenantId => match s.driver with
    | .listening => some (s.reloadTenant tenantId)
    | _ => none
  | .disconnected raises => match s.driver with
    | .connecting => if raises then some { s with driver := .sleeping } else none
    | .listening => some { s with driver := if raises then .sleeping else .closing true }
    | _ => none
  | .slept => match s.driver with
    | .sleeping => some { s with driver := .closing true }
    | _ => none
  | .closed raises => match s.driver with
    | .closing again =>
      some { s with driver := if again && !raises then .connecting else .ended }
    | _ => none
  | .fetched rows stale fresh fails => match s.driver with
    | .fetchAll before => if s.reg.ran before then match rows with
        | none => some (s.jobEnds true)
        | some rows =>
          if Distinct rows then s.cancelStale known rows stale fresh fails else none
      else none
    | .fetchTenant tenantId before => if s.reg.ran before then match rows with
        | none => some (s.jobEnds true)
        | some rows =>
          if Distinct rows ∧ ∀ r ∈ rows, driverUuid tenantId = some r.tenant then
            some (s.startTasks known fails rows)
          else none
      else none
    | _ => none
  | .gathered fresh fails => match s.driver with
    | .gatherStale ids desired current =>
      if s.reg.gathered ids then s.startMissing known desired current fresh fails else none
    | .gatherTenant ids tenantId =>
      if s.reg.gathered ids then some { s with driver := .fetchTenant tenantId s.reg.callbacks }
      else none
    | _ => none
  | .cancelled => if s.stopping then s.cancelled else none
  | .stop => match s.stop with
    | .notCalled => some { s with stop := .joining }
    | _ => none
  | .joined => match s.stop, s.driver with
    | .joining, .ended =>
      let (reg, ids) := s.reg.cancelTasks s.reg.tasks.keys
      some { s with reg, stop := if ids = [] then .returned else .gathering ids }
    | _, _ => none
  | .stopGathered => match s.stop with
    | .gathering ids => if s.reg.gathered ids then some { s with stop := .returned } else none
    | _ => none

/-- `start` after its fetch; `none` if it raises. -/
def start (known : PyStr → Bool) (backend : Backend) (fails : Row Γ → Bool)
    (rows : List (Row Γ)) : Option (State Γ) :=
  match Registry.empty.startTasks known fails rows with
  | (_, some _) => none
  | (reg, none) => some {
      backend, reg, stop := .notCalled
      driver := match backend with
        | .postgres => .waiting
        | .redis => .connecting }

/-- A registry whose `start` has returned. -/
def machine (known : PyStr → Bool) : Machine (State Γ) (Action Γ) where
  init s := ∃ backend fails rows, Distinct rows ∧ start known backend fails rows = some s
  step := step known

end Omkit.Provider
