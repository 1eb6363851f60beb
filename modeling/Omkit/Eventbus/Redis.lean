import Omkit.Eventbus.Postgres
import Omkit.Lib.Stream

/-!
# The Redis event bus

`RedisEventBus` as a machine: any number of calls of `subscribe`, over the streams and consumer
groups of one server, to which anybody may add entries.  A subscriber that crashes or is cancelled
takes no more steps; the call of `subscribe` that replaces it is another one with the same names.
-/

namespace Omkit.Eventbus.Redis

open Lib

/-- A name or a value of an entry as the client hands it over: bytes, or text if the client decodes
its replies. -/
inductive Field
  | bytes (b : Bytes)
  | text (s : PyStr)
deriving DecidableEq

/-- The field map of an entry. -/
abbrev Fields := Dict Field Field

/-- `bool(raw)`. -/
def Field.truthy : Field → Bool
  | .bytes b => b ≠ []
  | .text s => s ≠ []

/-- `fields.get(b"name") or fields.get("name")`. -/
def rawField (m : Fields) (name : String) : Option Field :=
  match m.get? (.bytes (utf8 name.toList)) with
  | some v => if v.truthy then some v else m.get? (.text (text name))
  | none => m.get? (.text (text name))

/-- `raw.decode()` if `raw` is bytes. -/
def decodeRaw : Option Field → Except StdExc (Option PyStr)
  | none => .ok none
  | some (.text s) => .ok (some s)
  | some (.bytes b) =>
    match decode b with
    | none => .error .unicodeDecodeError
    | some s => .ok (some s)

variable {F : Type}

section Decoding

variable [JsonRuntime F]

/-- `json.loads(payload_raw)`. -/
def loadsRaw : Option PyStr → Except StdExc (Json F)
  | none => .error .typeError
  | some s => loads s

/-- The payload and the tenant that `subscribe` reads from an entry. -/
def decodeFields (m : Fields) : Except StdExc (Json F × Option PyStr) := do
  let payloadRaw ← decodeRaw (rawField m "payload")
  let tenantRaw ← decodeRaw (rawField m "tenant_id")
  let payload ← loadsRaw payloadRaw
  pure (payload, tenantRaw.filter (· ≠ []))

/-- The event that `subscribe` builds from an entry. -/
def eventOf (topic : PyStr) (now : ℤ) (m : Fields) : Except StdExc (Event F) :=
  (decodeFields m).map fun v => ⟨0, topic, v.1, v.2, now⟩

variable (F) in
/-- The entries that `subscribe` can read. -/
def WellFormed (m : Fields) : Prop := ∃ v, decodeFields (F := F) m = .ok v

/-! ## Publishing -/

/-- The fields of the `XADD` of a publish; `none` if `json.dumps` raises. -/
def xaddFields : Call F → Option (List (PyStr × PyStr))
  | .publish _ payload =>
    (dumps .default payload).toOption.map fun s => [(text "payload", s)]
  | .publishTenant tenantId _ payload =>
    (dumps .default payload).toOption.map fun s => [(text "tenant_id", tenantId), (text "payload", s)]

end Decoding

/-- The client encodes a string, and hands it over as bytes or, if it decodes, as text. -/
def arriveText (decoding : Bool) (s : PyStr) : Option Field :=
  (encode s).map fun b => if decoding then .text s else .bytes b

/-- The field map that a subscriber gets for the fields of an `XADD`; `none` if the client of the
publisher cannot encode them. -/
def arrive (decoding : Bool) (l : List (PyStr × PyStr)) : Option Fields :=
  let items := l.mapM fun (p : PyStr × PyStr) => do
    let k ← arriveText decoding p.1
    let v ← arriveText decoding p.2
    pure (k, v)
  items.map Dict.ofList

/-! ## Subscribing -/

/-- A call of `subscribe`: the names of its bus, and its topic. -/
structure Subscriber where
  group : PyStr
  consumer : PyStr
  streamPrefix : PyStr
  topic : PyStr

/-- `_stream`. -/
def Subscriber.stream (b : Subscriber) : PyStr := b.streamPrefix ++ b.topic

/-- The group that a subscriber reads in. -/
def Subscriber.key (b : Subscriber) : PyStr × PyStr := (b.stream, b.group)

/-- The `count` of `XREADGROUP`. -/
def count : ℕ := 100

/-- Where a call of `subscribe` stands. -/
inductive Phase
  /-- Not called yet. -/
  | idle
  /-- Before the next of the entries still to be processed; at the head of the loop if there are
  none. -/
  | running (todo : List (Entry Fields))
  /-- In `xreadgroup`. -/
  | reading
  | returned
  | raised (e : StdExc)

/-- The entries still to be processed. -/
def Phase.todo : Phase → List (Entry Fields)
  | running todo => todo
  | _ => []

/-- What can be observed of a subscriber: a read that returned entries, and a handler call, which
completes or raises. -/
inductive Obs (ι F : Type)
  | read (i : ι) (l : List (Entry Fields))
  | handled (i : ι) (x : Entry Fields) (e : Event F) (completed : Bool)

/-- The server, and the calls of `subscribe`. -/
structure State (ι F : Type) where
  server : Server PyStr Fields
  phase : ι → Phase
  /-- `_stop` of the bus of each call. -/
  closed : ι → Bool
  /-- The observations, oldest first. -/
  log : List (Obs ι F)

/-- What may happen next. -/
inductive Action (ι : Type)
  /-- An entry is added, by a publish or by another producer. -/
  | xadd (stream : PyStr) (fields : Fields)
  /-- `subscribe` is called; its `xgroup_create` reaches the server or fails. -/
  | subscribe (i : ι) (created : Bool)
  /-- The condition of the loop is tested. -/
  | check (i : ι)
  /-- `xreadgroup` returns. -/
  | read (i : ι)
  /-- `xreadgroup` raises, perhaps after the server has handed out entries. -/
  | readFails (i : ι) (lost : Bool)
  /-- The next entry is decoded and given to the handler, which completes or raises.  After it has
  completed, the server takes the `xack` or not; the loop goes on in either case. -/
  | handle (i : ι) (now : ℤ) (completed acked : Bool)
  /-- `close` is called on the bus. -/
  | close (i : ι)

section Steps

variable {ι : Type}

/-- The entries that `i` has still to process. -/
def State.todo (s : State ι F) (i : ι) : List (Entry Fields) := (s.phase i).todo

/-- `s` with another observation. -/
def State.note (s : State ι F) (o : Obs ι F) : State ι F := { s with log := s.log ++ [o] }

/-- `s` with another server. -/
def State.serve (s : State ι F) (server : Server PyStr Fields) : State ι F := { s with server }

@[simp] lemma note_server (s : State ι F) (o) : (s.note o).server = s.server := rfl
@[simp] lemma note_phase (s : State ι F) (o) : (s.note o).phase = s.phase := rfl
@[simp] lemma note_closed (s : State ι F) (o) : (s.note o).closed = s.closed := rfl
@[simp] lemma note_log (s : State ι F) (o) : (s.note o).log = s.log ++ [o] := rfl
@[simp] lemma note_todo (s : State ι F) (o i) : (s.note o).todo i = s.todo i := rfl
@[simp] lemma serve_server (s : State ι F) (v) : (s.serve v).server = v := rfl
@[simp] lemma serve_phase (s : State ι F) (v) : (s.serve v).phase = s.phase := rfl
@[simp] lemma serve_closed (s : State ι F) (v) : (s.serve v).closed = s.closed := rfl
@[simp] lemma serve_log (s : State ι F) (v) : (s.serve v).log = s.log := rfl
@[simp] lemma serve_todo (s : State ι F) (v i) : (s.serve v).todo i = s.todo i := rfl

variable [DecidableEq ι]

/-- `s` with another phase for `i`. -/
def State.goto (s : State ι F) (i : ι) (p : Phase) : State ι F :=
  { s with phase := Function.update s.phase i p }

@[simp] lemma goto_server (s : State ι F) (i p) : (s.goto i p).server = s.server := rfl
@[simp] lemma goto_closed (s : State ι F) (i p) : (s.goto i p).closed = s.closed := rfl
@[simp] lemma goto_log (s : State ι F) (i p) : (s.goto i p).log = s.log := rfl

@[simp] lemma goto_phase_self (s : State ι F) (i p) : (s.goto i p).phase i = p := by
  simp [State.goto]

lemma goto_phase_ne (s : State ι F) {i j : ι} (p) (h : j ≠ i) :
    (s.goto i p).phase j = s.phase j := by
  simp [State.goto, h]

@[simp] lemma goto_todo_self (s : State ι F) (i p) : (s.goto i p).todo i = p.todo := by
  simp [State.todo]

lemma goto_todo_ne (s : State ι F) {i j : ι} (p) (h : j ≠ i) :
    (s.goto i p).todo j = s.todo j := by
  simp [State.todo, goto_phase_ne s p h]

variable [JsonRuntime F]

/-- One step of the bus. -/
def step (bus : ι → Subscriber) (s : State ι F) : Action ι → Option (State ι F)
  | .xadd stream fields => some (s.serve (s.server.xadd stream fields))
  | .subscribe i created => match s.phase i with
    | .idle =>
      let server := if created then s.server.xgroupCreate (bus i).key else s.server
      some ((s.serve server).goto i (.running []))
    | _ => none
  | .check i => match s.phase i with
    | .running [] => some (s.goto i (if s.closed i then .returned else .reading))
    | _ => none
  | .read i => match s.phase i with
    | .reading => (s.server.xreadgroup (bus i).key (bus i).consumer count).map fun r =>
      ((s.serve r.2).note (.read i r.1)).goto i (.running r.1)
    | _ => none
  | .readFails i lost => match s.phase i with
    | .reading =>
      if lost then (s.server.xreadgroup (bus i).key (bus i).consumer count).map fun r =>
        (s.serve r.2).goto i (.running [])
      else some (s.goto i (.running []))
    | _ => none
  | .handle i now completed acked => match s.phase i with
    | .running (x :: todo) =>
      match eventOf (bus i).topic now x.fields with
      | .error e => some (s.goto i (.raised e))
      | .ok e =>
        let server := if completed && acked then s.server.xack (bus i).key x.id else s.server
        some (((s.serve server).note (.handled i x e completed)).goto i (.running todo))
    | _ => none
  | .close i => some { s with closed := Function.update s.closed i true }

/-- The bus before anything is published or subscribed. -/
def State.initial : State ι F := ⟨.empty, fun _ => .idle, fun _ => false, []⟩

/-- The event bus, with its subscribers. -/
def machine (bus : ι → Subscriber) : Machine (State ι F) (Action ι) where
  init s := s = State.initial
  step := step bus

/-! ## What a step can do -/

/-- The steps of the bus, one constructor for each thing that can happen. -/
inductive Move (bus : ι → Subscriber) (s : State ι F) : Action ι → State ι F → Prop
  | xadd {stream fields} : Move bus s (.xadd stream fields)
      (s.serve (s.server.xadd stream fields))
  | subscribe {i created server} (h : s.phase i = .idle)
      (hs : server = if created then s.server.xgroupCreate (bus i).key else s.server) :
      Move bus s (.subscribe i created) ((s.serve server).goto i (.running []))
  | leave {i} (h : s.phase i = .running []) (hc : s.closed i = true) :
      Move bus s (.check i) (s.goto i .returned)
  | enter {i} (h : s.phase i = .running []) (hc : s.closed i = false) :
      Move bus s (.check i) (s.goto i .reading)
  | read {i l server} (h : s.phase i = .reading)
      (hr : s.server.xreadgroup (bus i).key (bus i).consumer count = some (l, server)) :
      Move bus s (.read i) (((s.serve server).note (.read i l)).goto i (.running l))
  | lost {i l server} (h : s.phase i = .reading)
      (hr : s.server.xreadgroup (bus i).key (bus i).consumer count = some (l, server)) :
      Move bus s (.readFails i true) ((s.serve server).goto i (.running []))
  | failed {i} (h : s.phase i = .reading) :
      Move bus s (.readFails i false) (s.goto i (.running []))
  | poison {i now completed acked x todo e} (h : s.phase i = .running (x :: todo))
      (he : eventOf (F := F) (bus i).topic now x.fields = .error e) :
      Move bus s (.handle i now completed acked) (s.goto i (.raised e))
  | handled {i now completed acked x todo e server} (h : s.phase i = .running (x :: todo))
      (he : eventOf (bus i).topic now x.fields = .ok e)
      (hs : server =
        if completed && acked then s.server.xack (bus i).key x.id else s.server) :
      Move bus s (.handle i now completed acked)
        (((s.serve server).note (.handled i x e completed)).goto i (.running todo))
  | close {i} : Move bus s (.close i) { s with closed := Function.update s.closed i true }

variable {bus : ι → Subscriber} {s s' : State ι F}

lemma move_of_step {a : Action ι} (h : step bus s a = some s') : Move bus s a s' := by
  cases a with
  | xadd stream fields =>
    obtain rfl := Option.some.inj h
    exact .xadd
  | subscribe i created =>
    cases hp : s.phase i with
    | idle =>
      obtain rfl : _ = s' := by simpa [step, hp] using h
      exact .subscribe hp rfl
    | _ => simp [step, hp] at h
  | check i =>
    cases hp : s.phase i with
    | running todo =>
      cases todo with
      | cons x todo => simp [step, hp] at h
      | nil =>
        cases hc : s.closed i with
        | true =>
          obtain rfl : _ = s' := by simpa [step, hp, hc] using h
          exact .leave hp hc
        | false =>
          obtain rfl : _ = s' := by simpa [step, hp, hc] using h
          exact .enter hp hc
    | _ => simp [step, hp] at h
  | read i =>
    cases hp : s.phase i with
    | reading =>
      simp only [step, hp] at h
      obtain ⟨⟨l, server⟩, hr, rfl⟩ := Option.map_eq_some_iff.mp h
      exact .read hp hr
    | _ => simp [step, hp] at h
  | readFails i lost =>
    cases hp : s.phase i with
    | reading =>
      cases lost with
      | true =>
        simp only [step, hp, if_true] at h
        obtain ⟨⟨l, server⟩, hr, rfl⟩ := Option.map_eq_some_iff.mp h
        exact .lost hp hr
      | false =>
        obtain rfl : _ = s' := by simpa [step, hp] using h
        exact .failed hp
    | _ => simp [step, hp] at h
  | handle i now completed acked =>
    cases hp : s.phase i with
    | running todo =>
      cases todo with
      | nil => simp [step, hp] at h
      | cons x todo =>
        cases he : eventOf (F := F) (bus i).topic now x.fields with
        | error e =>
          obtain rfl : _ = s' := by simpa [step, hp, he] using h
          exact .poison hp he
        | ok e =>
          simp only [step, hp, he] at h
          obtain rfl := Option.some.inj h
          exact .handled hp he rfl
    | _ => simp [step, hp] at h
  | close i =>
    obtain rfl := Option.some.inj h
    exact .close

end Steps

end Omkit.Eventbus.Redis
