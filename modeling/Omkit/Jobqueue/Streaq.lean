import Omkit.Jobqueue.Envelope
import Omkit.Tenant

/-!
# Jobs on streaq

`enqueue` hands the envelope of a job to a task, and `tenant_middleware` opens it on the worker:
the handler gets the payload, under the tenant of the envelope.
-/

namespace Omkit.Jobqueue

open Lib
open Tenant (Context InContext)

variable {F : Type} [Pydantic F] [JsonRuntime F]

/-- What a job raises. -/
inductive JobError (ε : Type)
  /-- `InvalidEnvelopeError("task called with no positional args")`. -/
  | noArgs
  /-- The exception of `unwrap`. -/
  | envelope (e : EnvelopeError)
  /-- The exception of the handler. -/
  | handler (e : ε)

section Middleware

variable {K ε α : Type}

/-- The wrapper that `tenant_middleware` puts around a handler. -/
def tenantMiddleware (nextHandler : List (PyStr × Json F) → List (Data F) → K → InContext ε α) :
    List (Data F) → K → InContext (JobError ε) α
  | [], _ => throw .noArgs
  | data :: args, kwargs => match unwrap data with
    | .error e => throw (.envelope e)
    | .ok env =>
      Tenant.bind env.tenantId none
        (ExceptT.adapt JobError.handler (nextHandler env.payload args kwargs))

/-- A job whose envelope is accepted runs the handler on its payload, with the tenant of the
envelope and no request id, and leaves the context as it was. -/
lemma tenantMiddleware_ok
    (nextHandler : List (PyStr × Json F) → List (Data F) → K → InContext ε α) {data : Data F}
    {env : Envelope F} (h : unwrap data = .ok env) (args : List (Data F)) (kwargs : K)
    (c : Context) :
    tenantMiddleware nextHandler (data :: args) kwargs c =
      ((nextHandler env.payload args kwargs ⟨some env.tenantId, none⟩).1.mapError .handler, c) := by
  simp only [tenantMiddleware, h]
  rfl

end Middleware

/-- `enqueue`. -/
def enqueue {O α : Type} (task : Json F → O → α) (tenantId : PyStr)
    (payload : List (PyStr × Json F)) (opts : O) : Except EnvelopeError α := do
  let envelopeBytes ← wrap tenantId payload
  let envelopeDict ← (loadsBytes envelopeBytes).mapError .std
  pure (task envelopeDict opts)

section RoundTrip

variable {tenantId requestId : PyStr} {payload : List (PyStr × Json F)}

omit [Pydantic F] [JsonRuntime F] in
/-- A payload of well-formed values is received as it was sent. -/
lemma received_wf (h : (Json.obj payload).Wf) : received payload = payload := by
  rw [received, readMembers_wf true payload h.2, Dict.items_ofList h.1]

/-- What `wrap` writes and what is read back from it, for a well-formed payload that fits. -/
lemma wrap_wf (ht : (uuidOf tenantId).isSome = true) (hne : payload ≠ [])
    (hwf : (Json.obj payload).Wf)
    (hfits : check (JsonRuntime.maxDepth F - 1) (.obj payload) = .ok ()) (hr : WellFormed requestId) :
    ∃ body s, wrap tenantId payload requestId = .ok body ∧ decode body = some s ∧
      loads s = .ok (.obj (envelopeObject tenantId payload requestId)) ∧
      loadsBytes body = .ok (.obj (envelopeObject tenantId payload requestId)) := by
  obtain ⟨n, hn⟩ := Option.isSome_iff_exists.mp ht
  have hdepth : JsonRuntime.maxDepth F = JsonRuntime.maxDepth F - 1 + 1 := by
    have := JsonRuntime.maxDepth_ge (F := F)
    omega
  have hcheck : check (JsonRuntime.maxDepth F)
      (.obj (envelopeObject tenantId payload requestId)) = .ok () := by
    rw [hdepth]
    exact check_envelopeObject hfits
  have hs := dumps_eq_ok (o := .compact) |>.mpr ⟨hcheck, rfl⟩
  obtain ⟨body, hbody, hbytes⟩ := loadsBytes_dumps DumpOpts.compact_ok DumpOpts.compact_ascii hs
  have hback : readBack true (.obj (envelopeObject tenantId payload requestId)) =
      .obj (envelopeObject tenantId payload requestId) := by
    rw [readBack_envelopeObject (uuidOf_wellFormed hn), received_wf hwf, readStr_wellFormed true hr]
  refine ⟨body, _, wrap_eq_ok.mpr ⟨ht, hne, _, hs, hbody⟩,
    decode_encode hbody, ?_, ?_⟩
  · rw [loads_dumps DumpOpts.compact_ok hs, DumpOpts.compact_ascii.ensureAscii, hback]
  · rw [hbytes, hback]

/-- **What is wrapped is unwrapped again, from the bytes, from their text and from the parsed
object; and the handler of an enqueued job is called with its payload, under its tenant.** -/
theorem envelope_roundTrip (ht : (uuidOf tenantId).isSome = true) (hne : payload ≠ [])
    (hwf : (Json.obj payload).Wf)
    (hfits : check (JsonRuntime.maxDepth F - 1) (.obj payload) = .ok ())
    (hr : WellFormed requestId) :
    (∃ body s obj, wrap tenantId payload requestId = .ok body ∧ decode body = some s ∧
      loads s = .ok (.obj obj) ∧ ∀ data ∈ [Data.bytes body, .str s, .dict obj],
        unwrap data = .ok ⟨1, tenantId, requestId, payload⟩) ∧
    ∃ dict, (∀ {O α : Type} (task : Json F → O → α) (opts : O),
        enqueue task tenantId payload opts = .ok (task (.obj dict) opts)) ∧
      ∀ {K ε α : Type} (nextHandler : List (PyStr × Json F) → List (Data F) → K → InContext ε α)
        (args : List (Data F)) (kwargs : K) (c : Context),
        tenantMiddleware nextHandler (.dict dict :: args) kwargs c =
          ((nextHandler payload args kwargs ⟨some tenantId, none⟩).1.mapError .handler, c) := by
  constructor
  · obtain ⟨body, s, hbody, hs, hload, hbytes⟩ := wrap_wf ht hne hwf hfits hr
    have hdict : unwrap (.dict (envelopeObject tenantId payload requestId)) = .ok _ :=
      unwrap_envelopeObject ht hne
    refine ⟨body, s, _, hbody, hs, hload, ?_⟩
    simp only [List.forall_mem_cons, List.not_mem_nil, false_implies, implies_true, and_true]
    refine ⟨?_, ?_, hdict⟩
    · rw [unwrap, hbytes]
      exact hdict
    · rw [unwrap, hload]
      exact hdict
  · -- `enqueue` passes no request id
    have hempty : WellFormed ([] : PyStr) := wellFormed_text ""
    obtain ⟨body, s, hbody, -, -, hbytes⟩ := wrap_wf ht hne hwf hfits hempty
    refine ⟨envelopeObject tenantId payload [], fun task opts => ?_, fun nextHandler => ?_⟩
    · rw [enqueue, hbody]
      simp [hbytes, bind, Except.bind, Except.mapError, pure, Except.pure]
    · exact tenantMiddleware_ok nextHandler (unwrap_envelopeObject ht hne)

end RoundTrip

section Example

/-- The tenant of a job that parses a document. -/
def parseTenant : PyStr := text "6f9619ff-8b86-d011-b42d-00c04fc964ff"

/-- The payload of a job that parses a document. -/
def parsePayload : List (PyStr × Json Empty) :=
  [(text "doc_id", .str (text "d-17")), (text "pages", .arr [.int 3, .null])]

lemma parsePayload_wf : (Json.obj parsePayload).Wf :=
  ⟨by decide, wellFormed_text _, wellFormed_text _, wellFormed_text _, ⟨trivial, trivial, trivial⟩,
    trivial⟩

theorem parseJob_roundTrips :
    ∃ body s obj, wrap parseTenant parsePayload (text "req-1") = .ok body ∧ decode body = some s ∧
      loads s = .ok (.obj obj) ∧ ∀ data ∈ [Data.bytes body, .str s, .dict obj],
        unwrap data = .ok ⟨1, parseTenant, text "req-1", parsePayload⟩ :=
  (envelope_roundTrip (by decide) (by simp [parsePayload]) parsePayload_wf rfl
    (wellFormed_text _)).1

end Example

end Omkit.Jobqueue
