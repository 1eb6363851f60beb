import Omkit.Eventbus.Redis
import Omkit.Lib.Lending

/-!
# Streams with consumer groups

`StreamProducer` and `StreamConsumer` as a machine: any number of consumers, over the streams and
consumer groups of one server, to which anybody may add entries.  Every call reaches the server in
one step; its reply may be lost, and the client may fail to decode it.
-/

namespace Omkit.Valkeystream

open Lib Eventbus.Redis

/-- The names and values of an entry, as the server has them. -/
abbrev Raw := List (Bytes × Bytes)

/-! ## Fields -/

/-- `StreamMessage`. -/
structure StreamMessage where
  id : PyStr
  fields : Dict PyStr Bytes

/-- `k.decode()` of bytes, `str(k)` of text. -/
def decodeName : Field → Except StdExc PyStr
  | .bytes b => match decode b with
    | none => .error .unicodeDecodeError
    | some s => .ok s
  | .text s => .ok s

/-- `bytes(v)` of bytes, `v.encode()` of text. -/
def encodeValue : Field → Except StdExc Bytes
  | .bytes b => .ok b
  | .text s => match encode s with
    | none => .error .unicodeEncodeError
    | some b => .ok b

/-- `_normalize_fields`, on the rest of the items. -/
def normalizeItems : List (Field × Field) → Dict PyStr Bytes → Except StdExc (Dict PyStr Bytes)
  | [], out => .ok out
  | (k, v) :: items, out => do
    let key ← decodeName k
    let value ← encodeValue v
    normalizeItems items (out.set key value)

/-- `_normalize_fields`. -/
def normalizeFields (raw : Fields) : Except StdExc (Dict PyStr Bytes) :=
  normalizeItems raw.items .empty

/-- `_coerce_id`. -/
def coerceId : Field → Except StdExc PyStr := decodeName

/-- `_message_from_pair`. -/
def messageFromPair (item : Field × Fields) : Except StdExc StreamMessage := do
  let id ← coerceId item.1
  let fields ← normalizeFields item.2
  pure ⟨id, fields⟩

/-- The client hands bytes over as they are, or decoded if it decodes its replies. -/
def hand (decoding : Bool) (b : Bytes) : Except StdExc Field :=
  if decoding then (decodeName (.bytes b)).map .text else .ok (.bytes b)

/-- The items of the field map of an entry. -/
def handItems (decoding : Bool) : Raw → Except StdExc (List (Field × Field))
  | [] => .ok []
  | (k, v) :: raw => do
    let k ← hand decoding k
    let v ← hand decoding v
    let items ← handItems decoding raw
    pure ((k, v) :: items)

/-- An entry as the client hands it over; `wire` is how the server writes an id. -/
def pairOf (wire : ℕ → String) (decoding : Bool) (x : Entry Raw) :
    Except StdExc (Field × Fields) := do
  let id ← hand decoding (utf8 (wire x.id).toList)
  let items ← handItems decoding x.fields
  pure (id, Dict.ofList items)

/-- The message of an entry. -/
def messageOf (wire : ℕ → String) (decoding : Bool) (x : Entry Raw) :
    Except StdExc StreamMessage := do
  let item ← pairOf wire decoding x
  messageFromPair item

/-- `_flatten` of the reply for one stream, and the comprehension of `claim_stale`. -/
def flatten (wire : ℕ → String) (decoding : Bool) (l : List (Entry Raw)) :
    Except StdExc (List StreamMessage) :=
  l.mapM (messageOf wire decoding)

/-- The fields of the `XADD` of `StreamProducer.add`; `none` if there are none, which the client
refuses, or if it cannot encode them. -/
def addFields (fields : Dict PyStr Field) : Option Raw :=
  if fields.items = [] then none
  else fields.items.mapM fun p => do
    let k ← encode p.1
    let v ← (encodeValue p.2).toOption
    pure (k, v)

/-! ## The machine -/

/-- `StreamConsumer`, with how its client is configured. -/
structure StreamConsumer where
  stream : PyStr
  group : PyStr
  consumer : PyStr
  count : ℕ
  /-- The client and the server refuse to hand out nothing. -/
  count_pos : 0 < count
  /-- `decode_responses` of the client. -/
  decoding : Bool

/-- The group that a consumer reads in. -/
def StreamConsumer.key (c : StreamConsumer) : PyStr × PyStr := (c.stream, c.group)

/-- How a call that hands out entries ends. -/
inductive Outcome
  | returned (messages : List StreamMessage)
  | raised (e : StdExc)
  /-- The reply did not arrive, or nobody waited for it. -/
  | lost

/-- What can be observed: a read and a claim with what the server handed out, and an `XACK`. -/
inductive Obs (ι : Type)
  | read (i : ι) (now : ℕ) (l : List (Entry Raw)) (o : Outcome)
  | claimed (i : ι) (now idleMs : ℕ) (l : List (Entry Raw)) (o : Outcome)
  | acked (i : ι) (id : ℕ)

/-- The server with its clock, and the observations, oldest first. -/
structure State (ι : Type) where
  streams : PyStr → Stream Raw
  groups : PyStr × PyStr → Option (Ledger PyStr)
  now : ℕ
  log : List (Obs ι)

/-- What may happen next. -/
inductive Action (ι : Type)
  /-- An entry is added, by `StreamProducer.add` or by another producer. -/
  | xadd (stream : PyStr) (raw : Raw)
  /-- Time passes. -/
  | tick (d : ℕ)
  /-- `ensure_group`; the call reaches the server or fails. -/
  | ensureGroup (i : ι) (reached : Bool)
  /-- `read`; its reply arrives or is lost. -/
  | read (i : ι) (arrived : Bool)
  /-- `ack`; the call reaches the server or fails. -/
  | ack (i : ι) (id : ℕ) (reached : Bool)
  /-- `claim_stale`; its reply arrives or is lost. -/
  | claimStale (i : ι) (idleMs : ℕ) (arrived : Bool)

/-- What the code relies on, besides the server's streams and groups: how the server writes an id,
and whether an entry that has been idle for so long counts as stale under a minimum idle time. -/
structure Env where
  wire : ℕ → String
  aged : ℕ → ℕ → Bool

variable {ι : Type}

/-- How a call ends whose reply has arrived. -/
def outcome (env : Env) (c : StreamConsumer) (l : List (Entry Raw)) : Bool → Outcome
  | false => .lost
  | true => match flatten env.wire c.decoding l with
    | .ok messages => .returned messages
    | .error e => .raised e

/-- `s` with another entry. -/
def State.add (s : State ι) (stream : PyStr) (raw : Raw) : State ι :=
  { s with streams := Function.update s.streams stream ((s.streams stream).add raw) }

/-- `s` with another state of a group. -/
def State.regroup (s : State ι) (key : PyStr × PyStr) (g : Ledger PyStr) : State ι :=
  { s with groups := Function.update s.groups key (some g) }

/-- `s` with another observation. -/
def State.note (s : State ι) (o : Obs ι) : State ι := { s with log := s.log ++ [o] }

/-- One step.  A call in a group that does not exist raises and changes nothing. -/
def step (env : Env) (cs : ι → StreamConsumer) (s : State ι) : Action ι → Option (State ι)
  | .xadd stream raw => some (s.add stream raw)
  | .tick d => some { s with now := s.now + d }
  | .ensureGroup i reached =>
    if reached then some (s.regroup (cs i).key ((s.groups (cs i).key).getD .empty)) else some s
  | .read i arrived => match s.groups (cs i).key with
    | none => some s
    | some g =>
      let l := (s.streams (cs i).stream).after g.last (cs i).count
      some ((s.regroup (cs i).key (g.lend (cs i).consumer s.now l)).note
        (.read i s.now l (outcome env (cs i) l arrived)))
  | .ack i id reached => match s.groups (cs i).key with
    | none => some s
    | some g =>
      if reached then some ((s.regroup (cs i).key (g.settle id)).note (.acked i id)) else some s
  | .claimStale i idleMs arrived => match s.groups (cs i).key with
    | none => some s
    | some g =>
      let stale (x : Loan PyStr) := env.aged (s.now - x.since) idleMs
      let r := g.reclaim stale (cs i).consumer s.now (10 * (cs i).count) (cs i).count
      let l := (s.streams (cs i).stream).fetch r.1
      some ((s.regroup (cs i).key r.2).note
        (.claimed i s.now idleMs l (outcome env (cs i) l arrived)))

/-- A server without entries and groups. -/
def State.initial : State ι := ⟨fun _ => .empty, fun _ => none, 0, []⟩

/-- The producers and consumers of a server. -/
def machine (env : Env) (cs : ι → StreamConsumer) : Machine (State ι) (Action ι) where
  init s := s = State.initial
  step := step env cs

/-- What an observation means for a group. -/
def Obs.deed (cs : ι → StreamConsumer) (key : PyStr × PyStr) : Obs ι → Option (Deed PyStr Raw)
  | .read i now l _ => if (cs i).key = key then some (.lent true (cs i).consumer now l) else none
  | .claimed i now _ l _ =>
    if (cs i).key = key then some (.lent false (cs i).consumer now l) else none
  | .acked i id => if (cs i).key = key then some (.settled id) else none

/-- What has happened in a group. -/
def State.history (cs : ι → StreamConsumer) (s : State ι) (key : PyStr × PyStr) :
    List (Deed PyStr Raw) :=
  s.log.filterMap (Obs.deed cs key)

/-- A group; one that does not exist has handed out nothing. -/
def State.group (s : State ι) (key : PyStr × PyStr) : Ledger PyStr := (s.groups key).getD .empty

end Omkit.Valkeystream
