import Omkit.Jobqueue.Streaq
import Omkit.Tenant.Middleware

/-!
# The request of a job

What the handler of a job sees of the request that the job comes from.  The tenant and the payload
arrive; the request id has a field of its own in the envelope, but `enqueue` does not fill it and
`tenant_middleware` does not read it.
-/

namespace Omkit.Jobqueue

open Lib
open Tenant (Context InContext)

variable {F : Type} [Pydantic F] [JsonRuntime F]

/-- What a handler sees: `require()`, `request_id()` and its payload. -/
structure Seen (F : Type) where
  tenant : Except PyStr PyStr
  requestId : Option PyStr
  payload : List (PyStr × Json F)

/-- The handler that returns what it sees. -/
def look (payload : List (PyStr × Json F)) (_ : List (Data F)) (_ : Unit) :
    InContext Empty (Seen F) :=
  fun c => (.ok ⟨c.require, c.requestId, payload⟩, c)

/-- What the handler sees of a job that a worker runs in the context `c`. -/
def job (c : Context) (data : Data F) : Except (JobError Empty) (Seen F) :=
  (tenantMiddleware look [data] () c).1

/-- The task that a worker runs at once. -/
def task (c : Context) : Json F → Unit → Except (JobError Empty) (Seen F)
  | .obj dict, _ => job c (.dict dict)
  | .str s, _ => job c (.str s)
  | _, _ => .error (.envelope .notObject)

/-- `enqueue(task, tenant.require(), payload)`; the errors are those of `require` and of
`enqueue`. -/
def enqueueHere {α : Type} (task : Json F → Unit → α) (payload : List (PyStr × Json F)) :
    InContext (PyStr ⊕ EnvelopeError) α := fun c =>
  match c.require with
  | .error message => (.error (.inl message), c)
  | .ok tenantId => ((enqueue task tenantId payload ()).mapError .inr, c)

/-- What the handler sees of a job that is enqueued in a block of a request. -/
def fromRequest (tenantId requestId : PyStr) (payload : List (PyStr × Json F))
    (service worker : Context) :
    Except (PyStr ⊕ EnvelopeError) (Except (JobError Empty) (Seen F)) :=
  (Tenant.bind tenantId (some requestId) (enqueueHere (task worker) payload) service).1

/-- What the handler sees of a job whose envelope is wrapped with a request id. -/
def fromWrap (tenantId requestId : PyStr) (payload : List (PyStr × Json F)) (worker : Context) :
    Except EnvelopeError (Except (JobError Empty) (Seen F)) :=
  (wrap tenantId payload requestId).map fun body => job worker (.bytes body)

variable {tenantId requestId : PyStr} {payload : List (PyStr × Json F)}

/-- A handler sees the tenant and the payload of an accepted envelope, and no request id. -/
lemma job_ok {data : Data F} {env : Envelope F} (h : unwrap data = .ok env) (c : Context) :
    job c data = .ok ⟨.ok env.tenantId, none, env.payload⟩ := by
  rw [job, tenantMiddleware_ok look h]
  rfl

/-- The task of `enqueue` is called with the object of the envelope, if the envelope can be
made. -/
lemma enqueue_eq {O α : Type} (task : Json F → O → α) (opts : O) :
    enqueue task tenantId payload opts = (wrap tenantId payload).map fun _ =>
      task (.obj (envelopeObject tenantId (received payload) [])) opts := by
  cases hw : wrap tenantId payload with
  | error e =>
    rw [enqueue, hw]
    rfl
  | ok body =>
    rw [enqueue, hw]
    simp [loadsBytes_of_wrap hw, bind, Except.bind, Except.mapError, Except.map, pure, Except.pure]

/-- A job of a request runs if its envelope can be made, and then without the request id. -/
lemma fromRequest_eq (service worker : Context) :
    fromRequest tenantId requestId payload service worker =
      ((wrap tenantId payload).mapError .inr).map fun _ =>
        .ok ⟨.ok tenantId, none, received payload⟩ := by
  have hrun : fromRequest tenantId requestId payload service worker =
      (enqueue (task worker) tenantId payload ()).mapError .inr := rfl
  rw [hrun, enqueue_eq]
  cases hw : wrap tenantId payload with
  | error e => rfl
  | ok body =>
    have hdict := unwrap_received hw
    rw [readStr_nil] at hdict
    show Except.ok (job worker (.dict _)) = Except.ok _
    rw [job_ok hdict]

/-- The same for an envelope that is wrapped with the request id. -/
lemma fromWrap_eq (worker : Context) :
    fromWrap tenantId requestId payload worker =
      (wrap tenantId payload requestId).map fun _ =>
        .ok ⟨.ok tenantId, none, received payload⟩ := by
  rw [fromWrap]
  cases hw : wrap tenantId payload requestId with
  | error e => rfl
  | ok body =>
    show Except.ok (job worker (.bytes body)) = Except.ok _
    rw [job_ok (unwrap_wrap hw)]

/-- A result that is the same for every envelope. -/
lemma map_const_ne {ε α β : Type} {b b' : β} (h : b ≠ b') (x : Except ε α) :
    (x.map fun _ => b) ≠ .ok b' := by
  cases x with
  | error e => simp [Except.map]
  | ok a => simpa [Except.map] using h

omit [Pydantic F] [JsonRuntime F] in
lemma seen_ne {payload' : List (PyStr × Json F)} :
    (.ok ⟨.ok tenantId, none, payload⟩ : Except (JobError Empty) (Seen F)) ≠
      .ok ⟨.ok tenantId, some requestId, payload'⟩ := by
  intro h
  cases h

/-- **No job sees the request id of its request**, neither if it is enqueued in the block of the
request nor if its envelope has the id: if the envelope can be made, the handler sees the tenant, the
payload as it is read back, and no id. -/
theorem requestId_lost (tenantId requestId : PyStr) (payload : List (PyStr × Json F))
    (service worker : Context) :
    (fromRequest tenantId requestId payload service worker =
        ((wrap tenantId payload).mapError .inr).map fun _ =>
          .ok ⟨.ok tenantId, none, received payload⟩) ∧
      (fromWrap tenantId requestId payload worker = (wrap tenantId payload requestId).map fun _ =>
        .ok ⟨.ok tenantId, none, received payload⟩) ∧
      fromRequest tenantId requestId payload service worker ≠
        .ok (.ok ⟨.ok tenantId, some requestId, payload⟩) ∧
      fromWrap tenantId requestId payload worker ≠
        .ok (.ok ⟨.ok tenantId, some requestId, payload⟩) := by
  refine ⟨fromRequest_eq service worker, fromWrap_eq worker, ?_, ?_⟩
  · rw [fromRequest_eq]
    exact map_const_ne seen_ne _
  · rw [fromWrap_eq]
    exact map_const_ne seen_ne _

/-- The job that parses a document, enqueued in a request with an id. -/
theorem parseJob_loses_requestId : ¬ ∀ (tenantId requestId : PyStr)
    (payload : List (PyStr × Json Empty)) (service worker : Context), requestId ≠ [] →
      (∃ body, wrap tenantId payload requestId = .ok body) →
      fromRequest tenantId requestId payload service worker =
          .ok (.ok ⟨.ok tenantId, some requestId, payload⟩) ∧
        fromWrap tenantId requestId payload worker =
          .ok (.ok ⟨.ok tenantId, some requestId, payload⟩) := by
  intro h
  have ht : (uuidOf parseTenant).isSome = true := by decide
  obtain ⟨body, -, hbody, -⟩ := wrap_wf ht (by simp [parsePayload]) parsePayload_wf rfl
    (wellFormed_text "req-1")
  have hseen := (h parseTenant (text "req-1") parsePayload ⟨none, none⟩ ⟨none, none⟩ (by decide)
    ⟨body, hbody⟩).2
  rw [fromWrap_eq] at hseen
  exact map_const_ne seen_ne _ hseen

end Omkit.Jobqueue
