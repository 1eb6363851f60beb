import Omkit.Lib.Channel
import Omkit.Lib.Machine
import Omkit.Lib.Text

/-!
# Subscribers that reconnect

`Subscriber.messages` as a machine: the generator, the pubsubs that it makes one after the other,
and the channel, on which anybody may publish.  Every call may return, raise or be cancelled; a
connection may be lost at any time, with what waits in it, and the client may subscribe it again by
itself.
-/

namespace Omkit.Valkeysub

open Lib

/-! ## The generator -/

/-- `msg["data"]`: bytes, text of a client that decodes, or the count of a control message. -/
inductive Data
  | bytes (b : Bytes)
  | str (s : PyStr)
  | int (n : ℤ)

/-- What the loop makes of an answer of `get_message`: a payload that it yields, or none; to encode
a text may raise. -/
def payload : Option (Option Data) → Except Unit (Option Bytes)
  | none => .ok none
  | some none => .ok none
  | some (some (.str s)) => match encode s with
    | some b => .ok (some b)
    | none => .error ()
  | some (some (.bytes b)) => .ok (some b)
  | some (some (.int _)) => .ok none

/-- Where `messages` stands: before its start, in one of its calls, or at its `yield`. -/
inductive Point
  | unstarted
  | subscribing
  | receiving
  | yielded
  /-- In `except asyncio.CancelledError`. -/
  | unsubscribing
  /-- In `aclose` of the pubsub, of either handler. -/
  | closing (cancelled : Bool)
  | sleeping
  | ended
deriving DecidableEq

/-- How the generator goes on: the call returns, or the consumer asks for the next item; the call
returns a message; an exception, a cancellation, or a `GeneratorExit` at the `yield`. -/
inductive Answer
  | next
  | message (m : Option (Option Data))
  | raised
  | cancelled
  | closed

/-- `messages`, from one point to the next, with the payload that it yields. -/
def resume : Point → Answer → Option (Point × Option Bytes)
  | .unstarted, .next => some (.subscribing, none)
  | .unstarted, .raised | .unstarted, .cancelled | .unstarted, .closed => some (.ended, none)
  | .subscribing, .next => some (.receiving, none)
  | .receiving, .message m => match payload m with
    | .ok none => some (.receiving, none)
    | .ok (some b) => some (.yielded, some b)
    | .error _ => some (.closing false, none)
  | .yielded, .next => some (.receiving, none)
  | .yielded, .closed => some (.ended, none)
  | .subscribing, .raised | .receiving, .raised | .yielded, .raised => some (.closing false, none)
  | .subscribing, .cancelled | .receiving, .cancelled | .yielded, .cancelled =>
    some (.unsubscribing, none)
  | .unsubscribing, .next | .unsubscribing, .raised => some (.closing true, none)
  | .closing true, .next | .closing true, .raised => some (.ended, none)
  | .closing false, .next | .closing false, .raised => some (.sleeping, none)
  | .sleeping, .next => some (.subscribing, none)
  | .unsubscribing, .cancelled | .closing _, .cancelled | .sleeping, .cancelled =>
    some (.ended, none)
  | _, _ => none

/-! ## The generator and the channel -/

/-- The state of one iterator.  Its pubsubs are numbered from one, and the last one is in use; one
is held until its `aclose` has returned. -/
structure State where
  channel : Channel Bytes
  made : ℕ
  held : ℕ → Bool
  point : Point
  yields : List Bytes

/-- What happens: at the server, to a connection, or to the generator. -/
inductive Event
  | publish (b : Bytes)
  /-- The server subscribes a connection. -/
  | subscribe (c : ℕ)
  /-- A connection is lost, and part of what waits in it. -/
  | lose (c : ℕ) (inbox : List Bytes)
  | resume (a : Answer)
  /-- `get_message` returns the first message that waits. -/
  | receive

/-- The connection of the pubsub in use. -/
def State.conn (s : State) : Conn Bytes := s.channel.conns s.made

/-- The state with another connection of the pubsub in use. -/
def State.setConn (s : State) (x : Conn Bytes) : State :=
  { s with channel := s.channel.setConn s.made x }

/-- What a call that returns has done: a pubsub was made, unsubscribed or closed. -/
def State.returned (s : State) : State :=
  match s.point with
  | .unstarted | .sleeping =>
    { s with made := s.made + 1, held := Function.update s.held (s.made + 1) true }
  | .unsubscribing => s.setConn ⟨false, s.conn.inbox⟩
  | .closing _ => { s.setConn .idle with held := Function.update s.held s.made false }
  | _ => s

/-- Has the call returned? -/
def Answer.returns : Answer → Bool
  | .next => true
  | _ => false

/-- The generator goes on. -/
def State.resume (s : State) (a : Answer) : Option State :=
  (Valkeysub.resume s.point a).map fun r =>
    let t := if a.returns then s.returned else s
    { t with point := r.1, yields := t.yields ++ r.2.toList }

/-- A message as the client hands it out; one that it cannot decode raises. -/
def handed (decodeResponses : Bool) (b : Bytes) : Answer :=
  if decodeResponses then
    match decode b with
    | some s => .message (some (some (.str s)))
    | none => .raised
  else .message (some (some (.bytes b)))

/-- Does the answer come from the channel? -/
def Answer.carries : Answer → Bool
  | .message (some (some (.bytes _))) | .message (some (some (.str _))) => true
  | _ => false

/-- One step. -/
def State.step (decodeResponses : Bool) (s : State) : Event → Option State
  | .publish b => some { s with channel := s.channel.publish b }
  | .subscribe c =>
    if s.held c then
      some { s with channel := s.channel.setConn c ⟨true, (s.channel.conns c).inbox⟩ }
    else none
  | .lose c inbox =>
    if inbox.Sublist (s.channel.conns c).inbox then
      some { s with channel := s.channel.setConn c ⟨false, inbox⟩ }
    else none
  | .resume a => if a.carries then none else s.resume a
  | .receive => match s.point, s.conn.inbox with
    | .receiving, b :: inbox =>
      (s.setConn ⟨s.conn.subscribed, inbox⟩).resume (handed decodeResponses b)
    | _, _ => none

/-- An iterator of a channel on which nothing was published. -/
def machine (decodeResponses : Bool) : Machine State Event where
  init s := s.channel = ⟨[], fun _ => .idle⟩ ∧ s.made = 0 ∧ (∀ c, s.held c = false) ∧
    s.point = .unstarted ∧ s.yields = []
  step := State.step decodeResponses

/-! ## What a step can do -/

/-- The points at which the pubsub in use is read. -/
def Point.reads : Point → Bool
  | .subscribing | .receiving | .yielded => true
  | _ => false

/-- The points at which a pubsub is in use. -/
def Point.uses : Point → Bool
  | .unsubscribing | .closing _ => true
  | p => p.reads

/-- The generator lets go of a pubsub that is not closed: it is closed itself at its `yield`, a
second cancellation comes while it unsubscribes, or the `aclose` of the pubsub fails or is
cancelled. -/
def abandons : Point → Answer → Bool
  | .yielded, .closed => true
  | .unsubscribing, .cancelled => true
  | .closing _, .raised | .closing _, .cancelled => true
  | _, _ => false

lemma Point.uses_of_reads {p : Point} (h : p.reads = true) : p.uses = true := by
  cases p <;> first | rfl | cases h

/-- The steps, with what they change. -/
inductive Move (s : State) : Event → State → Prop
  | publish (b : Bytes) : Move s (.publish b) { s with channel := s.channel.publish b }
  | subscribe {c : ℕ} (h : s.held c = true) : Move s (.subscribe c)
      { s with channel := s.channel.setConn c ⟨true, (s.channel.conns c).inbox⟩ }
  | lose {c : ℕ} {inbox : List Bytes} (h : inbox.Sublist (s.channel.conns c).inbox) :
      Move s (.lose c inbox) { s with channel := s.channel.setConn c ⟨false, inbox⟩ }
  | make (h : s.point.uses = false) : Move s (.resume .next)
      { s with made := s.made + 1, held := Function.update s.held (s.made + 1) true,
               point := .subscribing }
  | turn {a : Answer} {p : Point} (hreads : p.reads = true → s.point.reads = true)
      (huses : p.uses = true ↔ s.point.uses = true ∧ abandons s.point a = false) :
      Move s (.resume a) { s with point := p }
  | unsubscribe (h : s.point = .unsubscribing) : Move s (.resume .next)
      { s.setConn ⟨false, s.conn.inbox⟩ with point := .closing true }
  | close {p : Point} (h : s.point.uses = true) (hp : p.uses = false) : Move s (.resume .next)
      { s.setConn .idle with held := Function.update s.held s.made false, point := p }
  | yield {b : Bytes} {inbox : List Bytes} (hp : s.point = .receiving)
      (h : s.conn.inbox = b :: inbox) : Move s .receive
      { s.setConn ⟨s.conn.subscribed, inbox⟩ with point := .yielded, yields := s.yields ++ [b] }
  | fail {b : Bytes} {inbox : List Bytes} (hp : s.point = .receiving)
      (h : s.conn.inbox = b :: inbox) : Move s .receive
      { s.setConn ⟨s.conn.subscribed, inbox⟩ with point := .closing false }

variable {s t : State}

/-- A message of the channel is yielded as it was published, or the client cannot decode it. -/
lemma handed_cases (d : Bool) (b : Bytes) : handed d b = .raised ∨
    ∃ m, handed d b = .message m ∧ payload m = .ok (some b) := by
  cases d with
  | false => exact .inr ⟨some (some (.bytes b)), rfl, rfl⟩
  | true =>
    cases hb : decode b with
    | none => exact .inl (by simp [handed, hb])
    | some x =>
      have henc : encode x = some b := encode_of_decode hb
      exact .inr ⟨some (some (.str x)), by simp [handed, hb], by simp [payload, henc]⟩

lemma payload_of_not_carries {m : Option (Option Data)}
    (h : (Answer.message m).carries = false) : payload m = .ok none := by
  rcases m with _ | _ | _ | _ | _ <;> first | rfl | cases h

/-- A call that does not return, or that returns with no message, leaves the pubsubs as they are. -/
lemma resume_turn {p : Point} {a : Answer} {r : Point × Option Bytes}
    (h : Valkeysub.resume p a = some r) (hc : a.carries = false)
    (ha : a.returns = false ∨ p.reads = true) : r.2 = none ∧
      (r.1.reads = true → p.reads = true) ∧
      (r.1.uses = true ↔ p.uses = true ∧ abandons p a = false) := by
  cases a with
  | message m =>
    obtain rfl : p = .receiving := by
      rcases p with _ | _ | _ | _ | _ | (_ | _) | _ | _ <;> first | rfl | cases h
    simp only [Valkeysub.resume, payload_of_not_carries hc, Option.some.injEq] at h
    subst h
    exact ⟨rfl, fun _ => rfl, by simp [Point.uses, Point.reads, abandons]⟩
  | next =>
    obtain hp : p.reads = true := ha.resolve_left (by decide)
    rcases p with _ | _ | _ | _ | _ | (_ | _) | _ | _ <;> cases hp <;> cases h <;>
      exact ⟨rfl, by decide, by decide⟩
  | _ =>
    rcases p with _ | _ | _ | _ | _ | (_ | _) | _ | _ <;> cases h <;>
      exact ⟨rfl, by decide, by decide⟩

lemma move_of_resume {a : Answer} (hc : a.carries = false) (h : s.resume a = some t) :
    Move s (.resume a) t := by
  obtain ⟨r, hr, rfl⟩ := Option.map_eq_some_iff.mp h
  by_cases ha : a.returns = false ∨ s.point.reads = true
  · obtain ⟨hout, hreads, huses⟩ := resume_turn hr hc ha
    have hturned : (if a.returns then s.returned else s) = s := by
      rcases ha with ha | ha
      · simp [ha]
      · rw [ite_eq_right_iff, State.returned]
        intro _
        split <;> simp_all [Point.reads]
    rw [hturned, hout]
    simpa using Move.turn hreads huses
  · push Not at ha
    obtain ⟨hnext, hreads⟩ := ha
    obtain rfl : a = .next := by
      cases a <;> first | rfl | exact absurd rfl hnext
    obtain ⟨channel, made, held, point, yields⟩ := s
    simp only [Answer.returns, if_true, State.returned]
    cases point with
    | unstarted | sleeping =>
      cases hr
      simpa using Move.make (s := ⟨channel, made, held, _, yields⟩) rfl
    | unsubscribing =>
      cases hr
      simpa using Move.unsubscribe (s := ⟨channel, made, held, _, yields⟩) rfl
    | closing cancelled =>
      cases cancelled <;> cases hr <;>
        simpa using Move.close (s := ⟨channel, made, held, _, yields⟩) rfl rfl
    | ended => cases hr
    | _ => exact absurd rfl hreads

lemma move_of_step {d : Bool} {e : Event} (h : s.step d e = some t) : Move s e t := by
  cases e with
  | publish b =>
    obtain rfl := Option.some.inj h
    exact .publish b
  | subscribe c =>
    rw [State.step] at h
    split_ifs at h with hheld
    obtain rfl := Option.some.inj h
    exact .subscribe hheld
  | lose c inbox =>
    rw [State.step] at h
    split_ifs at h with hsub
    obtain rfl := Option.some.inj h
    exact .lose hsub
  | resume a =>
    rw [State.step] at h
    split_ifs at h with ha
    exact move_of_resume (by simpa using ha) h
  | receive =>
    rw [State.step] at h
    split at h
    · next b inbox hp hinbox =>
      rcases handed_cases d b with ha | ⟨m, ha, hm⟩
      · simp only [ha, State.resume, State.setConn, hp, Valkeysub.resume] at h
        obtain rfl := Option.some.inj h
        simpa [Answer.returns, State.setConn] using Move.fail hp hinbox
      · simp only [ha, State.resume, State.setConn, hp, Valkeysub.resume, hm] at h
        obtain rfl := Option.some.inj h
        simpa [Answer.returns, State.setConn] using Move.yield hp hinbox
    · cases h

end Omkit.Valkeysub
