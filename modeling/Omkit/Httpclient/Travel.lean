import Omkit.Httpclient
import Omkit.Jobqueue.Request
import Omkit.Lib.StrictBase64

/-!
# Where a request travels

The code of a request calls other services through tenant clients, and enqueues jobs, whose code
does the same.  A client whose caller adds headers of ASCII only encodes in ASCII, so a tenant or an
id with other characters is not sent at all; what is sent arrives as it was.
-/

namespace Omkit.Httpclient

open Lib
open Jobqueue (Pydantic enqueueHere task wrap)
open Tenant (Context TenantMiddleware getHeader latin1 lower validateUuid)

/-! ## Hops -/

/-- The values of the headers have neither blanks nor controls of ASCII. -/
def RawHeaders.Plain (raw : RawHeaders) : Prop :=
  ∀ p ∈ raw, ∀ b ∈ p.2, 0x20 < b.toNat ∧ b.toNat ≠ 0x7f

/-- The headers that tell the tenant and the id of a request. -/
def named : List String := ["X-Tenant-ID", "X-Request-ID"]

/-- What lies between a client and a service.  A request with plain headers arrives, and nobody
changes those that tell the tenant and the id. -/
structure Transport where
  deliver : RawHeaders → Option RawHeaders
  keeps : ∀ raw, RawHeaders.Plain raw →
    ∃ raw', deliver raw = some raw' ∧ ∀ name ∈ named, raw'.get? name = raw.get? name

/-- A call of a service through a tenant client, made with the event hooks of no one else. -/
structure ServiceCall where
  serviceToken : Option PyStr
  headers : RawHeaders
  mw : TenantMiddleware
  path : PyStr
  /-- The UUID that the service draws if the request has no id. -/
  uuid4 : PyStr

/-- The context of the code that a call runs, if it runs any. -/
def ServiceCall.run (net : Transport) (c : Context) (call : ServiceCall) : Option Context := do
  let sent ← Client.send ⟨[.tenant call.serviceToken]⟩ c ⟨call.headers, none⟩
  let headers ← net.deliver sent.raw
  match call.mw.enter ⟨text "http", some call.path, some headers⟩ call.uuid4 with
  | .bound c' => some c'
  | .reject => none
  | .pass => some ⟨none, none⟩

/-- How code makes other code run. -/
inductive Hop (F : Type)
  | call (service : ServiceCall)
  /-- `enqueue(task, tenant.require(), payload)`; the job runs in the context of a worker. -/
  | job (payload : List (PyStr × Json F)) (worker : Context)

variable {F : Type} [Pydantic F] [JsonRuntime F]

/-- The context of the code at the other end, if any runs. -/
def Hop.run (net : Transport) (c : Context) : Hop F → Option Context
  | .call service => service.run net c
  | .job payload worker => match (enqueueHere (task worker) payload c).1 with
    | .ok (.ok seen) => some ⟨seen.tenant.toOption, seen.requestId⟩
    | _ => none

/-- A text without blanks and controls of ASCII. -/
def PlainText (s : PyStr) : Prop :=
  ∀ x ∈ s, ∃ c : Char, x = .scalar c ∧ 0x20 < c.toNat ∧ c.toNat ≠ 0x7f

/-- The call leaves the tenant and the id to the client, and the rest of what it sends is of
ASCII. -/
structure ServiceCall.Ready (call : ServiceCall) : Prop where
  silent : ∀ name ∈ named, call.headers.get? name = none
  plain : call.headers.Plain
  ascii : call.headers.encoding = .ascii
  token : ∀ t ∈ call.serviceToken, PlainText t ∧ t.all isAscii = true
  path : call.path ∉ call.mw.excluded
  uuid4 : call.uuid4 ≠ [] ∧ PlainText call.uuid4 ∧ call.uuid4.all isAscii = true

/-- A call that leaves the tenant to the client, or a job whose envelope can be made. -/
def Hop.Ready (tenantId : PyStr) : Hop F → Prop
  | .call service => service.Ready
  | .job payload _ => ∃ body, wrap tenantId payload = .ok body

/-! ## One value -/

section Value

variable {s : PyStr} {b : Bytes}

/-- The bytes of ASCII are the characters of their text. -/
lemma forall_encodeAscii (h : encodeAscii s = some b) :
    List.Forall₂ (fun x y => ∃ c : Char, x = .scalar c ∧ c.toNat < 128 ∧ y = UInt8.ofNat c.toNat)
      s b := by
  induction s generalizing b with
  | nil =>
    obtain rfl : [] = b := by simpa [encodeAscii] using h
    exact .nil
  | cons x s ih =>
    simp only [encodeAscii, List.mapM_cons, Option.pure_def, Option.bind_eq_bind,
      Option.bind_eq_some_iff, Option.some.injEq] at h
    obtain ⟨y, hy, r, hr, rfl⟩ := h
    cases x with
    | surrogate k => cases hy
    | scalar c =>
      obtain ⟨hc, hy⟩ := Option.ite_none_right_eq_some.mp hy
      exact .cons ⟨c, rfl, hc, (Option.some.inj hy).symm⟩ (ih hr)

lemma toNat_ofNat_ascii {c : Char} (hc : c.toNat < 128) :
    (UInt8.ofNat c.toNat).toNat = c.toNat :=
  UInt8.toNat_ofNat_of_lt' (show c.toNat < 256 by omega)

lemma PlainText.encodeAscii (hs : PlainText s) (h : encodeAscii s = some b) :
    ∀ y ∈ b, 0x20 < y.toNat ∧ y.toNat ≠ 0x7f := by
  have hall := forall_encodeAscii h
  clear h
  induction hall with
  | nil => simp
  | cons hx _ ih =>
    obtain ⟨hfirst, hrest⟩ := List.forall_mem_cons.mp hs
    obtain ⟨c, rfl, hc, rfl⟩ := hx
    obtain ⟨c', heq, hplain⟩ := hfirst
    obtain rfl := PyChar.scalar.inj heq
    refine List.forall_mem_cons.mpr ⟨?_, ih hrest⟩
    rw [toNat_ofNat_ascii hc]
    exact hplain

end Value

/-! ## One hop -/

section Hop

variable {net : Transport} {c : Context} {tenantId : PyStr} {service : ServiceCall}
  {name : String} {value : Option PyStr} {h h' : Headers}

/-- The context of code that runs for the tenant, and has a plain id if it has one. -/
structure Carries (tenantId : PyStr) (c : Context) : Prop where
  tenant : c.tenantId = some tenantId
  id : ∀ r ∈ c.requestId, PlainText r

end Hop

section Example

end Example

/-! ## The id -/

/-- The id at the end of some hops: a job has none, and a service draws one for a request without. -/
def lastId (id : Option PyStr) : List (Hop F) → Option PyStr
  | [] => id
  | .job _ _ :: hops => lastId none hops
  | .call service :: hops => lastId (some ((given id).getD service.uuid4)) hops

section Id

variable {id : Option PyStr} {requestId : PyStr} {hops : List (Hop F)}

end Id

section Example

end Example

end Omkit.Httpclient
