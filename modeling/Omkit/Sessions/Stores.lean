import Omkit.Lib.Dict
import Omkit.Lib.Json.Bytes
import Omkit.Lib.Json.Dynamic
import Omkit.Lib.Machine
import Omkit.Postgres
import Mathlib.Data.List.Sort

/-!
# The session stores

`PostgresSessionStore` and `RedisSessionStore`: two stores behind one protocol.  Each operation is
one statement or one command, so a run of a store is a sequence of operations; the clock may move
between them, and between the moment `put` reads it and the moment the store executes the write.
-/

namespace Omkit.Sessions

open Lib

/-- `Session`. -/
structure Session (F : Type) where
  token : PyStr
  tenantId : PyStr
  payload : Json F
  expiresAt : DateTime
  createdAt : DateTime

/-- What an operation of a store raises. -/
inductive SessionError
  /-- `NotFound(token)`. -/
  | notFound (token : PyStr)
  /-- The server or its driver refuses a parameter. -/
  | database
  | std (e : StdExc)
deriving DecidableEq

variable {F : Type} [JsonRuntime F] [PyNumbers F]

/-! ## Postgres -/

/-- A row of `sessions`. -/
structure Row (F : Type) where
  token : PyStr
  /-- `tenant_id::text`. -/
  tenantId : PyStr
  payload : Column F
  createdAt : Aware
  expiresAt : Aware

/-- The table `sessions`, by its primary key. -/
abbrev Rows (F : Type) := Dict PyStr (Row F)

/-- Can the text be a parameter of a statement?  The server keeps no NUL. -/
def textParam (s : PyStr) : Bool := decide (WellFormed s) && !s.contains (.scalar '\x00')

/-- `_parse_payload`. -/
def parsePayload : Column F → Except StdExc (Json F)
  | .bytes b =>
    match decode b with
    | none => .error .unicodeDecodeError
    | some s => loads s
  | .text s => loads s
  | .value v => .ok (v.orElse (.obj []))

/-- The session that is built from a row. -/
def Row.session (r : Row F) : Except SessionError (Session F) := do
  let payload ← (parsePayload r.payload).mapError .std
  pure ⟨r.token, r.tenantId, payload, r.expiresAt.1, r.createdAt.1⟩

namespace Rows

/-- The row of a token that `expires_at > now()` lets through. -/
def live (rows : Rows F) (now : Aware) (token : PyStr) : Option (Row F) :=
  (rows.get? token).filter fun r => now.micros < r.expiresAt.micros

/-- `PostgresSessionStore.get`. -/
def get (rows : Rows F) (now : Aware) (token : PyStr) (tenantId : Option PyStr) :
    Except SessionError (Session F) :=
  if textParam token then
    match rows.live now token with
    | none => .error (.notFound token)
    | some r =>
      if tenantId.any (r.tenantId ≠ ·) then .error (.notFound token)
      else r.session
  else .error .database

variable [Postgres F]

/-- `INSERT … ON CONFLICT (token) DO UPDATE`: a row that exists keeps its tenant. -/
def upsert (rows : Rows F) (new : Row F) : Rows F :=
  match rows.get? new.token with
  | some r => rows.set new.token { r with payload := new.payload, expiresAt := new.expiresAt }
  | none => rows.set new.token new

/-- `PostgresSessionStore.put`. -/
def put (rows : Rows F) (now : Aware) (s : Session F) : Except SessionError (Rows F) := do
  let body ← (dumps .default s.payload).mapError .std
  match Postgres.uuidText F s.tenantId, Postgres.jsonb body, Postgres.timestamptz F s.expiresAt with
  | some tenantId, some payload, some expiresAt =>
    if textParam s.token then
      .ok (rows.upsert ⟨s.token, tenantId, payload, now, expiresAt⟩)
    else .error .database
  | _, _, _ => .error .database

/-- `PostgresSessionStore.delete`. -/
def delete (rows : Rows F) (token : PyStr) (tenantId : Option PyStr) :
    Except SessionError (Rows F) :=
  match tenantId with
  | none => if textParam token then .ok (rows.pop token) else .error .database
  | some t => match Postgres.uuidText F t with
    | none => .error .database
    | some u =>
      if textParam token then
        if (rows.get? token).any (·.tenantId = u) then .ok (rows.pop token) else .ok rows
      else .error .database

/-- `PostgresSessionStore.list`. -/
def list (rows : Rows F) (now : Aware) (tenantId : PyStr) :
    Except SessionError (List (Session F)) :=
  match Postgres.uuidText F tenantId with
  | none => .error .database
  | some u =>
    let found := (rows.items.map Prod.snd).filter fun r =>
      r.tenantId = u ∧ now.micros < r.expiresAt.micros
    (found.insertionSort fun r r' => r'.createdAt.micros ≤ r.createdAt.micros).mapM Row.session

end Rows

/-! ## Redis -/

/-- The value of a key, and the instant up to which it can be read. -/
structure RedisEntry where
  value : Bytes
  deadline : ℤ
deriving DecidableEq

/-- `RedisSessionStore` with its database: the prefix of its keys, and whether its client decodes
what it reads. -/
structure Redis where
  keyPrefix : PyStr
  decodeResponses : Bool
  db : Dict Bytes RedisEntry

/-- A member of the JSON object of a session, if it is a text. -/
def textMember (l : List (PyStr × Json F)) (name : PyStr) : Except StdExc PyStr :=
  match l.lookup name with
  | none => .error .keyError
  | some (.str s) => .ok s
  | some _ => .error .typeError

/-- A member that `datetime.fromisoformat` reads. -/
def dateMember (l : List (PyStr × Json F)) (name : PyStr) : Except StdExc DateTime := do
  let s ← textMember l name
  match DateTime.fromisoformat s with
  | some t => pure t
  | none => throw .valueError

/-- The object that `put` stores. -/
def Session.toJson (s : Session F) : Json F :=
  .obj [(text "token", .str s.token), (text "tenant_id", .str s.tenantId),
    (text "payload", s.payload), (text "expires_at", .str s.expiresAt.isoformat),
    (text "created_at", .str s.createdAt.isoformat)]

/-- `Session(**d)` for the object of a session, with its dates read.  A field that is no text does
not occur in what `put` stores. -/
def sessionOf : Json F → Except StdExc (Session F)
  | .obj l => do
    let expiresAt ← dateMember l (text "expires_at")
    let createdAt ← dateMember l (text "created_at")
    if l.all fun m => m.1 ∈ [text "token", text "tenant_id", text "payload", text "expires_at",
        text "created_at"] then
      match textMember l (text "token"), textMember l (text "tenant_id"),
        l.lookup (text "payload") with
      | .ok token, .ok tenantId, some payload =>
        pure ⟨token, tenantId, payload, expiresAt, createdAt⟩
      | _, _, _ => throw .typeError
    else throw .typeError
  | _ => .error .typeError

/-- The time to live of a session, in seconds. -/
def ttl (expiresAt now : ℤ) : ℤ :=
  let t := totalSeconds (expiresAt - now)
  if t < 1 then 1 else t

namespace Redis

/-- `_key`, as the client encodes it. -/
def key (r : Redis) (token : PyStr) : Option Bytes := encode (r.keyPrefix ++ token)

/-- The value of a key that has not expired. -/
def live (r : Redis) (now : Aware) (key : Bytes) : Option Bytes :=
  ((r.db.get? key).filter fun e => now.micros < e.deadline).map RedisEntry.value

/-- `json.loads` of a value, as the client hands it out. -/
def loadValue (r : Redis) (value : Bytes) : Except StdExc (Json F) :=
  if r.decodeResponses then
    match decode value with
    | some s => loads s
    | none => .error .unicodeDecodeError
  else loadsBytes value

/-- `RedisSessionStore.get`, which does not look at its `tenant_id`. -/
def get (r : Redis) (now : Aware) (token : PyStr) (_tenantId : Option PyStr) :
    Except SessionError (Session F) :=
  match r.key token with
  | none => .error (.std .unicodeEncodeError)
  | some key => match r.live now key with
    | none => .error (.notFound token)
    | some value => (r.loadValue value >>= sessionOf).mapError .std

/-- `RedisSessionStore.put`: the time to live is computed at `now`, and counts from `sent`. -/
def put (r : Redis) (now sent : Aware) (s : Session F) : Except SessionError Redis :=
  match s.expiresAt.instant with
  | none => .error (.std .typeError)
  | some expiresAt =>
    match dumps .default s.toJson with
    | .error e => .error (.std e)
    | .ok body => match r.key s.token, encode body with
      | some key, some value =>
        let deadline := sent.micros + ttl expiresAt now.micros * 1000000
        .ok { r with db := r.db.set key ⟨value, deadline⟩ }
      | _, _ => .error (.std .unicodeEncodeError)

/-- `RedisSessionStore.delete`, which does not look at its `tenant_id` either. -/
def delete (r : Redis) (token : PyStr) (_tenantId : Option PyStr) : Except SessionError Redis :=
  match r.key token with
  | none => .error (.std .unicodeEncodeError)
  | some key => .ok { r with db := r.db.pop key }

/-- `s.removeprefix(prefix)`. -/
def removePrefix (r : Redis) (s : PyStr) : PyStr :=
  if r.keyPrefix.isPrefixOf s then s.drop r.keyPrefix.length else s

/-- `RedisSessionStore.list`, for the keys that the scan returns. -/
def list (r : Redis) (now : Aware) (tenantId : PyStr) :
    List Bytes → Except SessionError (List (Session F))
  | [] => .ok []
  | key :: scan => match decode key with
    | none => .error (.std .unicodeDecodeError)
    | some k => match r.get now (r.removePrefix k) none with
      | .error (.notFound _) => r.list now tenantId scan
      | .error e => .error e
      | .ok s => do
        let rest ← r.list now tenantId scan
        pure (if s.tenantId = tenantId then s :: rest else rest)

end Redis

/-! ## Runs of a store -/

/-- One of the two stores. -/
inductive Store (F : Type)
  | postgres (rows : Rows F)
  | redis (r : Redis)

/-- A `put` that was executed: the session, the time at which `put` read the clock, and the time at
which the store executed the write. -/
structure Put (F : Type) where
  session : Session F
  now : Aware
  sent : Aware

section Runs

variable [Postgres F]

namespace Store

/-- `put`. -/
def put (st : Store F) (now sent : Aware) (s : Session F) : Except SessionError (Store F) :=
  match st with
  | postgres rows => (rows.put sent s).map postgres
  | redis r => (r.put now sent s).map redis

/-- `get`. -/
def get (st : Store F) (now : Aware) (token : PyStr) (tenantId : Option PyStr) :
    Except SessionError (Session F) :=
  match st with
  | postgres rows => rows.get now token tenantId
  | redis r => r.get now token tenantId

/-- `delete`. -/
def delete (st : Store F) (token : PyStr) (tenantId : Option PyStr) :
    Except SessionError (Store F) :=
  match st with
  | postgres rows => (rows.delete token tenantId).map postgres
  | redis r => (r.delete token tenantId).map redis

/-- Is there anything under the token, be it expired? -/
def has (st : Store F) (token : PyStr) : Bool :=
  match st with
  | postgres rows => (rows.get? token).isSome
  | redis r => (r.key token).any fun key => (r.db.get? key).isSome

end Store

/-- A store, the clock, and for every token the latest `put` that no `delete` has undone. -/
structure State (F : Type) where
  store : Store F
  now : Aware
  puts : Dict PyStr (Put F)

/-- What changes a store; `get` and `list` leave it as it is. -/
inductive Op (F : Type)
  | put (s : Session F) (sent : Aware)
  | delete (token : PyStr) (tenantId : Option PyStr)
  | tick (t : Aware)

namespace State

/-- `get`, now. -/
def get (s : State F) (token : PyStr) (tenantId : Option PyStr) :
    Except SessionError (Session F) :=
  s.store.get s.now token tenantId

/-- The state after a `delete`. -/
def delete (s : State F) (token : PyStr) (tenantId : Option PyStr) : State F :=
  match s.store.delete token tenantId with
  | .ok st => { s with store := st, puts := if st.has token then s.puts else s.puts.pop token }
  | .error _ => s

section Delete

omit [JsonRuntime F] [PyNumbers F]

variable {s : State F} {token : PyStr} {tenantId : Option PyStr}

lemma delete_of_ok {st : Store F} (h : s.store.delete token tenantId = .ok st) :
    s.delete token tenantId =
      { s with store := st, puts := if st.has token then s.puts else s.puts.pop token } := by
  rw [delete, h]

lemma delete_of_error {e : SessionError} (h : s.store.delete token tenantId = .error e) :
    s.delete token tenantId = s := by
  rw [delete, h]

@[simp] lemma delete_now : (s.delete token tenantId).now = s.now := by
  cases h : s.store.delete token tenantId with
  | ok st => rw [delete_of_ok h]
  | error e => rw [delete_of_error h]

end Delete

/-- One operation. -/
def step (s : State F) : Op F → Option (State F)
  | .put x sent =>
    if s.now.micros ≤ sent.micros then
      match s.store.put s.now sent x with
      | .ok st => some ⟨st, sent, s.puts.set x.token ⟨x, s.now, sent⟩⟩
      | .error _ => some { s with now := sent }
    else none
  | .delete token tenantId => some (s.delete token tenantId)
  | .tick t => if s.now.micros ≤ t.micros then some { s with now := t } else none

end State

/-- The stores, from an empty table or an empty database. -/
def machine : Machine (State F) (Op F) where
  init s := s.puts = .empty ∧
    (s.store = .postgres .empty ∨ ∃ p d, s.store = .redis ⟨p, d, .empty⟩)
  step := State.step

end Runs

end Omkit.Sessions
