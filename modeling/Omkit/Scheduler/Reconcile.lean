import Omkit.Jobqueue.Envelope
import Omkit.Lib.Coro
import Omkit.Lib.Machine
import Omkit.Lib.Sha256

/-!
# The cron scheduler

`Scheduler._reconcile` brings the entries of a cron engine in line with the rows of a table.  The
part that runs under the lock is a coroutine over `_entries`: it calls the deriver of cron
specifications, the backend and the enqueuer, and any of these calls may raise.  Around it is a
machine in which any number of `_reconcile` calls fetch their rows, wait for the lock and hold it
in turn.
-/

namespace Omkit.Scheduler

open Lib Jobqueue

/-- `Provider`. -/
structure Provider (F : Type) where
  tenantId : PyStr
  name : PyStr
  config : Json F

/-- `_RegisteredEntry`. -/
structure Entry where
  entryId : PyStr
  hash : PyStr
  cronspec : PyStr
deriving DecidableEq

/-- What the backend runs for an entry. -/
structure Job where
  cronspec : PyStr
  taskType : PyStr
  body : Bytes
  queue : PyStr
deriving DecidableEq

/-- The arguments of `Scheduler` that `_reconcile` reads. -/
structure Config where
  queue : PyStr
  taskType : PyStr
  /-- Is there an `enqueuer`? -/
  enqueuer : Bool

/-! ## Keys, payloads and hashes -/

/-- `_key`. -/
def key (tenant name : PyStr) : PyStr := tenant ++ .scalar ':' :: name

/-- The key of a row. -/
def Provider.key {F : Type} (p : Provider F) : PyStr := Scheduler.key p.tenantId p.name

variable {F : Type} [JsonRuntime F]

/-- `_build_payload`.  A `RecursionError` is not caught in it. -/
def buildPayload (p : Provider F) : Except StdExc (List (PyStr × Json F)) :=
  let payload (cfg : PyStr) : List (PyStr × Json F) :=
    [(text "provider_name", .str p.name), (text "config", .str cfg)]
  match dumps .default (sortKeys p.config) with
  | .ok s => .ok (payload s)
  | .error e =>
    if e = .typeError ∨ e.isValueError = true then .ok (payload (text "{}")) else .error e

/-- The bytes that `_config_hash` hashes. -/
def hashInput (cronspec : PyStr) (cfg : Json F) : Except StdExc Bytes := do
  let s ← dumps .compact (sortKeys cfg)
  match encode s, encode cronspec with
  | some body, some spec => .ok (spec ++ 0 :: body)
  | _, _ => .error .unicodeEncodeError

/-- `_config_hash`. -/
def configHash (cronspec : PyStr) (cfg : Json F) : Except StdExc PyStr :=
  (hashInput cronspec cfg).map Sha256.hexdigest

/-! ## `_reconcile` under the lock -/

/-- The calls that `_reconcile` makes. -/
inductive Call (F : Type)
  | deriveCron (p : Provider F)
  | unregister (entryId : PyStr)
  | register (cronspec taskType : PyStr) (body : Bytes) (queue : PyStr)
  | enqueue (taskType tenantId : PyStr) (payload : List (PyStr × Json F)) (queue : PyStr)

/-- Their answers; `none` and `false` stand for an exception. -/
def Answer : Call F → Type
  | .deriveCron _ => Option (PyStr × Bool)
  | .unregister _ => Bool
  | .register .. => Option PyStr
  | .enqueue .. => Bool

/-- A part of `_reconcile`, over `_entries`. -/
abbrev Sched (F α : Type) := Coro (Dict PyStr Entry) (Call F) Answer α

/-- What leaves `_reconcile` as an exception. -/
inductive Raised
  | deriveCron
  | std (e : StdExc)
deriving DecidableEq

/-- `self._derive_cron(p)`. -/
def deriveCron (p : Provider F) : Sched F (Option (PyStr × Bool)) := Coro.ask (Call.deriveCron p)

/-- `self._backend.unregister(…)`. -/
def unregister (entryId : PyStr) : Sched F Bool := Coro.ask (Call.unregister entryId)

/-- `self._backend.register(…)`. -/
def register (cronspec taskType : PyStr) (body : Bytes) (queue : PyStr) : Sched F (Option PyStr) :=
  Coro.ask (Call.register cronspec taskType body queue)

/-- `self._enqueuer.enqueue(…)`. -/
def enqueue (taskType tenantId : PyStr) (payload : List (PyStr × Json F)) (queue : PyStr) :
    Sched F Bool :=
  Coro.ask (Call.enqueue taskType tenantId payload queue)

/-- The loop that removes the entries of rows that are gone. -/
def unregisterStale : List PyStr → Sched F Unit
  | [] => pure ()
  | k :: ks => do
    let entries ← Coro.read
    match entries.get? k with
    | none => unregisterStale ks
    | some ent =>
      let ok ← unregister ent.entryId
      if ok then Coro.modify (·.pop k)
      unregisterStale ks

variable [Pydantic F]

/-- `_register_one`; `none` stands for an exception. -/
def registerOne (cfg : Config) (p : Provider F) (cronspec : PyStr) : Sched F (Option PyStr) :=
  match buildPayload p with
  | .error _ => pure none
  | .ok payload => match wrap p.tenantId payload with
    | .error _ => pure none
    | .ok body => register cronspec cfg.taskType body cfg.queue

/-- The end of the second loop's body: register a row that has no entry. -/
def registerNew (cfg : Config) (k : PyStr) (p : Provider F) (cronspec hash : PyStr) :
    Sched F Unit := do
  let entryId ← registerOne cfg p cronspec
  match entryId with
  | none => pure ()
  | some entryId => do
    Coro.modify (·.set k ⟨entryId, hash, cronspec⟩)
    match cfg.enqueuer, buildPayload p with
    | true, .ok payload => do
      let _ ← enqueue cfg.taskType p.tenantId payload cfg.queue
      pure ()
    | _, _ => pure ()

/-- The loop that registers new and changed rows. -/
def registerDesired (cfg : Config) : List (PyStr × Provider F) → Sched F (Except Raised Unit)
  | [] => pure (.ok ())
  | (k, p) :: rest => do
    let derived ← deriveCron p
    match derived with
    | none => pure (.error .deriveCron)
    | some (_, false) => registerDesired cfg rest
    | some (cronspec, true) =>
      match configHash cronspec p.config with
      | .error e => pure (.error (.std e))
      | .ok hash => do
        let entries ← Coro.read
        match entries.get? k with
        | none => do
          registerNew cfg k p cronspec hash
          registerDesired cfg rest
        | some existing =>
          if existing.hash = hash then registerDesired cfg rest
          else do
            let ok ← unregister existing.entryId
            if ok then
              Coro.modify (·.pop k)
              registerNew cfg k p cronspec hash
            registerDesired cfg rest

/-- The rows by key. -/
def desiredOf (rows : List (Provider F)) : Dict PyStr (Provider F) :=
  Dict.ofList (rows.map fun r => (r.key, r))

/-- `_reconcile` from the moment it has the lock to the moment it gives it back. -/
def reconcile (cfg : Config) (desired : Dict PyStr (Provider F)) : Sched F (Except Raised Unit) := do
  let entries ← Coro.read
  unregisterStale (entries.keys.filter fun k => k ∉ desired.keys)
  registerDesired cfg desired.items

/-! ## The machine -/

/-- The outside: the live entries of the backend, and the answers that the deriver has given. -/
structure World (F : Type) where
  live : Dict PyStr Job
  derived : List (Provider F × PyStr)

/-- What a call does, with the answer that is given to it.  A call to the backend that raises has
no effect, and a new entry has an id that is not in use. -/
def World.answer (w : World F) : (c : Call F) → Answer c → Option (World F)
  | .deriveCron p, some (cronspec, true) => some { w with derived := (p, cronspec) :: w.derived }
  | .deriveCron _, _ => some w
  | .unregister id, true => some { w with live := w.live.pop id }
  | .unregister _, false => some w
  | .register cronspec taskType body queue, some id =>
    if id ∈ w.live.keys then none
    else some { w with live := w.live.set id ⟨cronspec, taskType, body, queue⟩ }
  | .register .., none => some w
  | .enqueue .., _ => some w

/-- A call of `_reconcile` that holds the lock: the call it waits for, and how it goes on. -/
abbrev Holder (F : Type) := Coro.Halt (Dict PyStr Entry) (Call F) Answer (Except Raised Unit)

/-- The scheduler, its backend, and its `_reconcile` calls. -/
structure State (F : Type) where
  /-- `_entries`. -/
  entries : Dict PyStr Entry
  world : World F
  /-- The calls that have their rows and wait for the lock. -/
  waiting : List (Dict PyStr (Provider F))
  holder : Option (Holder F)

/-- What may happen next. -/
inductive Action (F : Type)
  /-- A call of `_reconcile` has fetched its rows, or its fetch has raised. -/
  | fetch (rows : Option (List (Provider F)))
  /-- A waiting call gets the lock and runs to its first call. -/
  | acquire (i : ℕ)
  /-- The call that the holder waits for is answered, and the holder runs to its next call. -/
  | answer (f : (c : Call F) → Answer c)
  /-- The holder has returned: the lock is released. -/
  | release

/-- One step of the scheduler. -/
def step (cfg : Config) (s : State F) : Action F → Option (State F)
  | .fetch none => some s
  | .fetch (some rows) => some { s with waiting := s.waiting ++ [desiredOf rows] }
  | .acquire i => match s.holder, s.waiting[i]? with
    | none, some desired =>
      let (entries, h) := (reconcile cfg desired).advance s.entries
      some { s with entries, waiting := s.waiting.eraseIdx i, holder := some h }
    | _, _ => none
  | .answer f => match s.holder with
    | some (.waiting c k) => (s.world.answer c (f c)).map fun world =>
      let (entries, h) := (k (f c)).advance s.entries
      { s with entries, world, holder := some h }
    | _ => none
  | .release => match s.holder with
    | some (.done _) => some { s with holder := none }
    | _ => none

/-- The scheduler, from the moment it is made. -/
def machine (cfg : Config) : Machine (State F) (Action F) where
  init s := s = ⟨.empty, ⟨.empty, []⟩, [], none⟩
  step := step cfg

end Omkit.Scheduler
