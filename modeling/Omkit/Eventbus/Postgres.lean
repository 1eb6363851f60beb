import Omkit.Lib.Machine
import Omkit.Lib.Dict
import Omkit.Postgres
import Mathlib.Data.List.Sort

/-!
# The Postgres event bus

`PostgresEventBus` as a machine: the transactions of any number of publishers, and the polls of
any number of subscribers, over the tables `events` and `event_offsets`.  A publisher takes its
id when its `INSERT` runs and its row becomes visible at `COMMIT`.  A poll is a `SELECT`, one
handler call for each row, and an `UPDATE` of the offset; any of these may fail, and a failed poll
is forgotten by the loop of `subscribe`.
-/

namespace Omkit.Eventbus

open Lib

/-- `NIL_TENANT_ID`. -/
def nilTenantId : PyStr := text "00000000-0000-0000-0000-000000000000"

/-- `Event`. -/
structure Event (F : Type) where
  id : ℕ
  topic : PyStr
  payload : Json F
  /-- `None` for global events. -/
  tenantId : Option PyStr
  /-- In microseconds. -/
  createdAt : ℤ

/-- A row of `events`. -/
structure Row (F : Type) where
  id : ℕ
  /-- `tenant_id::text`. -/
  tenantId : Option PyStr
  topic : PyStr
  payload : Column F
  createdAt : ℤ

variable {F : Type}

section Publishing

variable [JsonRuntime F]

/-- `_parse_payload`. -/
def parsePayload : Column F → Except StdExc (Json F)
  | .bytes b =>
    match decode b with
    | none => .error .unicodeDecodeError
    | some s => loads s
  | .text s => loads s
  | .value v => .ok v

/-- The event that a poll builds from a row. -/
def Row.event (r : Row F) : Except StdExc (Event F) := do
  let payload ← parsePayload r.payload
  pure ⟨r.id, r.topic, payload, r.tenantId, r.createdAt⟩

/-! ## Publishing -/

variable [Postgres F]

/-- The values of the `INSERT INTO events` of a publish; `none` if `json.dumps` or the statement
raises. -/
def insertEvent (tenantId topic : PyStr) (payload : Json F) :
    Option (PyStr × PyStr × Column F) := do
  let s ← (dumps .default payload).toOption
  let t ← Postgres.uuidText F tenantId
  let c ← Postgres.jsonb s
  pure (t, topic, c)

/-- `publish`. -/
def publish (topic : PyStr) (payload : Json F) : Option (PyStr × PyStr × Column F) :=
  insertEvent nilTenantId topic payload

/-- `publish_tenant`. -/
def publishTenant (tenantId topic : PyStr) (payload : Json F) :
    Option (PyStr × PyStr × Column F) :=
  if tenantId = [] then publish topic payload else insertEvent tenantId topic payload

/-- A call of a publisher. -/
inductive Call (F : Type)
  | publish (topic : PyStr) (payload : Json F)
  | publishTenant (tenantId topic : PyStr) (payload : Json F)

/-- The values that a call inserts. -/
def Call.insert : Call F → Option (PyStr × PyStr × Column F)
  | .publish topic payload => Eventbus.publish topic payload
  | .publishTenant tenantId topic payload => Eventbus.publishTenant tenantId topic payload

end Publishing

/-- The row that an `INSERT` adds. -/
def Row.ofInsert (id : ℕ) (v : PyStr × PyStr × Column F) (now : ℤ) : Row F :=
  ⟨id, some v.1, v.2.1, v.2.2, now⟩

/-! ## Subscribing -/

/-- A subscription: the consumer and batch size of its bus, and its topic. -/
structure Subscriber where
  consumer : PyStr
  topic : PyStr
  batch : ℕ

/-- The row of `event_offsets` that a subscription uses. -/
def Subscriber.key (b : Subscriber) : PyStr × PyStr := (b.consumer, b.topic)

/-- The `SELECT` of a poll, over the visible rows and the offset.  Without an offset the
comparison is with `NULL`, and no row is selected. -/
def selectRows (b : Subscriber) (last : Option ℕ) (events : List (Row F)) : List (Row F) :=
  match last with
  | none => []
  | some last =>
    ((events.filter fun r => r.topic = b.topic ∧ last < r.id).insertionSort
      fun r r' => r.id ≤ r'.id).take b.batch

/-- A poll between its `SELECT` and its end. -/
structure Poll (F : Type) where
  /-- The offset and the rows that were visible to the `SELECT`. -/
  since : Option ℕ
  seen : List (Row F)
  /-- The rows still to be handled. -/
  todo : List (Row F)
  /-- The local `last_id`. -/
  lastId : ℕ

/-- Where a call of `subscribe` stands. -/
inductive Phase (F : Type)
  /-- Not called yet, returned or cancelled. -/
  | stopped
  /-- Between two polls. -/
  | idle
  | polling (p : Poll F)

/-- A handler call that ended, and whether it completed. -/
structure Handling (ι F : Type) where
  subscriber : ι
  event : Event F
  completed : Bool

/-- The tables, the open transactions of publishers, and the subscribers. -/
structure State (ι F : Type) where
  /-- The sequence of `events.id`. -/
  nextId : ℕ
  /-- The rows inserted by transactions that are still open. -/
  pending : List (Row F)
  /-- The committed rows of `events`. -/
  events : List (Row F)
  /-- `event_offsets`. -/
  offsets : Dict (PyStr × PyStr) ℕ
  phase : ι → Phase F
  /-- The handler calls that ended, oldest first. -/
  log : List (Handling ι F)

/-- What may happen next. -/
inductive Action (ι F : Type)
  /-- The `INSERT` of a publisher runs, in a transaction that started at `now`. -/
  | insert (c : Call F) (now : ℤ)
  | commit (id : ℕ)
  | rollback (id : ℕ)
  /-- `subscribe` is called and its `INSERT INTO event_offsets` commits. -/
  | subscribe (i : ι)
  /-- A poll begins with its `SELECT`. -/
  | select (i : ι)
  /-- The next row is parsed and given to the handler, which completes or raises. -/
  | deliver (i : ι) (ok : Bool)
  /-- The poll ends, with an `UPDATE` that commits or fails if a row was handled. -/
  | finish (i : ι) (ok : Bool)
  /-- An exception ends the poll elsewhere. -/
  | abandon (i : ι)
  /-- `subscribe` returns or is cancelled. -/
  | stop (i : ι)

variable {ι : Type} [DecidableEq ι]

/-- `s` with another phase for `i`. -/
def State.goto (s : State ι F) (i : ι) (p : Phase F) : State ι F :=
  { s with phase := Function.update s.phase i p }

/-- `s` after a handler call of `i`. -/
def State.record (s : State ι F) (i : ι) (e : Event F) (completed : Bool) : State ι F :=
  { s with log := s.log ++ [⟨i, e, completed⟩] }

@[simp] lemma goto_nextId (s : State ι F) (i p) : (s.goto i p).nextId = s.nextId := rfl
@[simp] lemma goto_pending (s : State ι F) (i p) : (s.goto i p).pending = s.pending := rfl
@[simp] lemma goto_events (s : State ι F) (i p) : (s.goto i p).events = s.events := rfl
@[simp] lemma goto_offsets (s : State ι F) (i p) : (s.goto i p).offsets = s.offsets := rfl
@[simp] lemma goto_log (s : State ι F) (i p) : (s.goto i p).log = s.log := rfl
@[simp] lemma goto_phase_self (s : State ι F) (i p) : (s.goto i p).phase i = p := by
  simp [State.goto]
lemma goto_phase_ne (s : State ι F) {i j : ι} (p) (h : j ≠ i) :
    (s.goto i p).phase j = s.phase j := by
  simp [State.goto, h]

/-- `INSERT INTO event_offsets … ON CONFLICT DO NOTHING`. -/
def insertOffset (b : Subscriber) (d : Dict (PyStr × PyStr) ℕ) : Dict (PyStr × PyStr) ℕ :=
  if d.get? b.key = none then d.set b.key 0 else d

/-- `UPDATE event_offsets SET last_id = $1 …`. -/
def updateOffset (b : Subscriber) (lastId : ℕ) (d : Dict (PyStr × PyStr) ℕ) :
    Dict (PyStr × PyStr) ℕ :=
  if d.get? b.key = none then d else d.set b.key lastId

variable [JsonRuntime F]

/-- One handler call of `_poll_once`. -/
def deliver (s : State ι F) (i : ι) (ok : Bool) (p : Poll F) : Option (State ι F) :=
  match p.todo with
  | [] => none
  | r :: todo =>
    match r.event with
    | .error _ => some (s.goto i .idle)
    | .ok e =>
      if ok then some ((s.record i e true).goto i (.polling { p with todo, lastId := r.id }))
      else some ((s.record i e false).goto i .idle)

/-- The end of `_poll_once`, after its loop. -/
def finish (b : Subscriber) (s : State ι F) (i : ι) (ok : Bool) (p : Poll F) :
    Option (State ι F) :=
  match p.todo with
  | _ :: _ => none
  | [] =>
    if p.lastId ≠ 0 ∧ ok = true then
      some ({ s with offsets := updateOffset b p.lastId s.offsets }.goto i .idle)
    else some (s.goto i .idle)

variable [Postgres F]

/-- One step of the bus. -/
def step (bus : ι → Subscriber) (s : State ι F) : Action ι F → Option (State ι F)
  | .insert c now => c.insert.map fun v =>
    { s with nextId := s.nextId + 1, pending := s.pending ++ [Row.ofInsert s.nextId v now] }
  | .commit id => (s.pending.find? fun r => r.id = id).map fun r =>
    { s with pending := s.pending.filter fun r => r.id ≠ id, events := s.events ++ [r] }
  | .rollback id => some { s with pending := s.pending.filter fun r => r.id ≠ id }
  | .subscribe i => match s.phase i with
    | .stopped => some ({ s with offsets := insertOffset (bus i) s.offsets }.goto i .idle)
    | _ => none
  | .select i => match s.phase i with
    | .idle =>
      let last := s.offsets.get? (bus i).key
      some (s.goto i (.polling ⟨last, s.events, selectRows (bus i) last s.events, 0⟩))
    | _ => none
  | .deliver i ok => match s.phase i with
    | .polling p => deliver s i ok p
    | _ => none
  | .finish i ok => match s.phase i with
    | .polling p => finish (bus i) s i ok p
    | _ => none
  | .abandon i => match s.phase i with
    | .polling _ => some (s.goto i .idle)
    | _ => none
  | .stop i => some (s.goto i .stopped)

/-- The bus before anything is published or subscribed. -/
def State.initial : State ι F := ⟨1, [], [], .empty, fun _ => .stopped, []⟩

/-- The event bus, with its subscribers. -/
def machine (bus : ι → Subscriber) : Machine (State ι F) (Action ι F) where
  init s := s = State.initial
  step := step bus

end Omkit.Eventbus
