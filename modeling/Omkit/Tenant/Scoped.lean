import Omkit.Jobqueue.Streaq
import Omkit.Lib.Scoped
import Omkit.Tenant.Middleware

/-!
# The context of nested blocks

Tasks whose code nests `bind`, `async_bind`, requests under `TenantMiddleware` and jobs under
`tenant_middleware`, step by step: an exception may be raised at any point, and the tasks may be
interleaved in any way.
-/

namespace Omkit.Tenant

open Lib
open Jobqueue (Data Pydantic unwrap)

/-- The context variables, `_tenant_id_var` and `_request_id_var`. -/
inductive Var
  | tenantId
  | requestId
deriving DecidableEq

/-- The context that the values of the variables make up. -/
def contextOf (vars : Var → Option PyStr) : Context := ⟨vars .tenantId, vars .requestId⟩

/-- The values of the variables in a context. -/
def Context.vars (c : Context) : Var → Option PyStr
  | .tenantId => c.tenantId
  | .requestId => c.requestId

/-- What a block sets, in the order of the source. -/
def bindings (tenantId : PyStr) (requestId : Option PyStr) : List (Var × Option PyStr) :=
  [(.tenantId, some tenantId), (.requestId, requestId)]

lemma bindings_nodup (tenantId : PyStr) (requestId : Option PyStr) :
    ((bindings tenantId requestId).map Prod.fst).Nodup :=
  (by decide : [Var.tenantId, Var.requestId].Nodup)

/-- What the code of a task does next; after a block it goes on with `ok`, or with `err` if the block
has ended by an exception. -/
inductive Stmt (F A K : Type)
  /-- Anything that leaves the variables alone, such as an `await`. -/
  | act (k : A → K)
  | bind (tenantId : PyStr) (requestId : Option PyStr) (body ok err : K)
  | asyncBind (tenantId : PyStr) (requestId : Option PyStr) (body ok err : K)
  /-- A request to an application under the middleware. -/
  | request (mw : TenantMiddleware) (scope : Scope) (uuid4 : PyStr) (app ok err : K)
  /-- A job, with its positional arguments, whose handler is under `tenant_middleware`. -/
  | job (args : List (Data F)) (nextHandler : List (PyStr × Json F) → List (Data F) → K)
    (ok err : K)
  | ret
  | raise

/-- Where the code of a task stands, in its own statements or in those of the middlewares. -/
inductive Point (K : Type)
  | user (k : K)
  /-- The middleware still has these messages to send for a rejected request. -/
  | rejecting (messages : List Message)
  /-- The wrapper of a job raises `InvalidEnvelopeError`. -/
  | invalidEnvelope

variable {F A K ι : Type} [Pydantic F] [JsonRuntime F]

/-- The next instruction of a task. -/
def instr (program : K → Context → Stmt F A K) :
    Point K → (Var → Option PyStr) → Instr Var (Option PyStr) A (Point K)
  | .user k, vars => match program k (contextOf vars) with
    | .act f => .act fun a => .user (f a)
    | .bind tenantId requestId body ok err =>
      .enter (bindings tenantId requestId) (.user body) (.user ok) (.user err)
    | .asyncBind tenantId requestId body ok err =>
      .enter (bindings tenantId requestId) (.user body) (.user ok) (.user err)
    | .request mw scope uuid4 app ok err => match mw.enter scope uuid4 with
      | .pass => .enter [] (.user app) (.user ok) (.user err)
      | .reject => .enter [] (.rejecting rejection) (.user ok) (.user err)
      | .bound c =>
        .enter [(.tenantId, c.tenantId), (.requestId, c.requestId)] (.user app) (.user ok) (.user err)
    | .job [] _ ok err => .enter [] .invalidEnvelope (.user ok) (.user err)
    | .job (data :: args) nextHandler ok err => match unwrap data with
      | .error _ => .enter [] .invalidEnvelope (.user ok) (.user err)
      | .ok env =>
        .enter (bindings env.tenantId none) (.user (nextHandler env.payload args)) (.user ok)
          (.user err)
    | .ret => .ret
    | .raise => .raise
  | .rejecting [], _ => .ret
  | .rejecting (_ :: messages), _ => .act fun _ => .rejecting messages
  | .invalidEnvelope, _ => .raise

/-! ## The open blocks -/

/-- A block, with what its statement says. -/
inductive Block (F : Type)
  | bind (tenantId : PyStr) (requestId : Option PyStr)
  | asyncBind (tenantId : PyStr) (requestId : Option PyStr)
  | request (mw : TenantMiddleware) (scope : Scope) (uuid4 : PyStr)
  | job (args : List (Data F))

/-- What a statement does to the open blocks of its task. -/
def shift (program : K → Context → Stmt F A K) :
    Point K → (Var → Option PyStr) → Task.Shift (Block F)
  | .user k, vars => match program k (contextOf vars) with
    | .act _ => .stay
    | .bind tenantId requestId _ _ _ => .opens (.bind tenantId requestId)
    | .asyncBind tenantId requestId _ _ _ => .opens (.asyncBind tenantId requestId)
    | .request mw scope uuid4 _ _ _ => .opens (.request mw scope uuid4)
    | .job args _ _ _ => .opens (.job args)
    | .ret | .raise => .closes
  | .rejecting [], _ | .invalidEnvelope, _ => .closes
  | .rejecting (_ :: _), _ => .stay

/-- The block is for this tenant and request: those of its arguments, those of the headers of a
request that is not excluded, or the tenant of the envelope of a job. -/
inductive Block.IsFor : Block F → PyStr → Option PyStr → Prop
  | bind {tenantId : PyStr} {requestId : Option PyStr} :
    IsFor (.bind tenantId requestId) tenantId requestId
  | asyncBind {tenantId : PyStr} {requestId : Option PyStr} :
    IsFor (.asyncBind tenantId requestId) tenantId requestId
  | request {mw : TenantMiddleware} {scope : Scope} {uuid4 rawTid : PyStr}
    (htype : scope.type = text "http") (hpath : scope.path.getD [] ∉ mw.excluded)
    (hraw : getHeader (scope.headers.getD []) "x-tenant-id" = some rawTid)
    (hvalid : validateUuid rawTid = true) :
    -- the first `X-Request-ID` header, unless it is empty
    IsFor (.request mw scope uuid4) rawTid
      (some (((getHeader (scope.headers.getD []) "x-request-id").filter (· ≠ [])).getD uuid4))
  | job {data : Data F} {args : List (Data F)} {env : Jobqueue.Envelope F}
    (henv : unwrap data = .ok env) : IsFor (.job (data :: args)) env.tenantId none

/-- `c` is what the innermost block that is for a tenant says, or the context at the start of the
task if there is no such block. -/
def Innermost (base : Context) : List (Block F) → Context → Prop
  | [], c => c = base
  | b :: blocks, c =>
    (∃ tenantId requestId, b.IsFor tenantId requestId ∧
      c.require = .ok tenantId ∧ c.requestId = requestId) ∨
    (∀ tenantId requestId, ¬ b.IsFor tenantId requestId) ∧ Innermost base blocks c

/-- What a block sets. -/
def Block.bindings : Block F → List (Var × Option PyStr)
  | .bind tenantId requestId | .asyncBind tenantId requestId => Tenant.bindings tenantId requestId
  | .request mw scope uuid4 => match mw.enter scope uuid4 with
    | .bound c => [(.tenantId, c.tenantId), (.requestId, c.requestId)]
    | .pass | .reject => []
  | .job [] => []
  | .job (data :: _) => match unwrap data with
    | .ok env => Tenant.bindings env.tenantId none
    | .error _ => []

/-- The code of a task does what its statements say. -/
lemma performs (program : K → Context → Stmt F A K) :
    Task.Performs (instr program) (shift program) Block.bindings := by
  intro k vars
  cases k with
  | rejecting messages => cases messages <;> rfl
  | invalidEnvelope => rfl
  | user k =>
    rw [instr, shift]
    cases program k (contextOf vars) with
    | act f => rfl
    | bind tenantId requestId body ok err => exact ⟨_, rfl, rfl⟩
    | asyncBind tenantId requestId body ok err => exact ⟨_, rfl, rfl⟩
    | request mw scope uuid4 app ok err =>
      cases hentry : mw.enter scope uuid4 <;> simp [Block.bindings, hentry]
    | job args nextHandler ok err =>
      cases args with
      | nil => exact ⟨_, rfl, rfl⟩
      | cons data args => cases hdata : unwrap data <;> simp [Block.bindings, hdata]
    | ret => rfl
    | raise => rfl

/-- A block sets the tenant and the request that it is for, or nothing. -/
lemma Block.bindings_cases (b : Block F) :
    (∃ tenantId requestId, b.IsFor tenantId requestId ∧
      b.bindings = Tenant.bindings tenantId requestId) ∨
    (∀ tenantId requestId, ¬ b.IsFor tenantId requestId) ∧ b.bindings = [] := by
  cases b with
  | bind tenantId requestId => exact Or.inl ⟨_, _, .bind, rfl⟩
  | asyncBind tenantId requestId => exact Or.inl ⟨_, _, .asyncBind, rfl⟩
  | request mw scope uuid4 =>
    cases hentry : mw.enter scope uuid4 with
    | bound c =>
      obtain ⟨htype, hpath, rawTid, hraw, hvalid, rfl⟩ := TenantMiddleware.enter_eq_bound_iff.mp hentry
      exact Or.inl ⟨_, _, .request htype hpath hraw hvalid, by rw [bindings, hentry]; rfl⟩
    | pass | reject =>
      refine Or.inr ⟨fun tenantId requestId hfor => ?_, by rw [bindings, hentry]⟩
      cases hfor with
      | request htype hpath hraw hvalid =>
        have hbound : mw.enter scope uuid4 = .bound _ :=
          TenantMiddleware.enter_eq_bound_iff.mpr ⟨htype, hpath, _, hraw, hvalid, rfl⟩
        cases hentry.symm.trans hbound
  | job args =>
    cases args with
    | nil => exact Or.inr ⟨nofun, rfl⟩
    | cons data args =>
      cases hdata : unwrap data with
      | ok env => exact Or.inl ⟨_, _, .job hdata, by rw [bindings, hdata]⟩
      | error e =>
        refine Or.inr ⟨fun tenantId requestId hfor => ?_, by rw [bindings, hdata]⟩
        cases hfor with
        | job henv => cases hdata.symm.trans henv

lemma Block.bindings_nodup (b : Block F) : (b.bindings.map Prod.fst).Nodup := by
  rcases b.bindings_cases with ⟨tenantId, requestId, -, hb⟩ | ⟨-, hb⟩ <;> rw [hb]
  · exact Tenant.bindings_nodup tenantId requestId
  · exact List.nodup_nil

/-- Variables that the frames of the open blocks explain are those of the innermost one that is for
a tenant. -/
lemma innermost_of_nested {base : Context} {blocks : List (Block F × (Var → Option PyStr))}
    {frames : List (Frame Var (Option PyStr) (Point K))} {vars : Var → Option PyStr}
    (h : Task.Nested base.vars frames vars) (hmatch : Task.Matches Block.bindings blocks frames) :
    Innermost base (blocks.map Prod.fst) (contextOf vars) := by
  induction hmatch generalizing vars with
  | nil =>
    obtain rfl : vars = base.vars := h
    rfl
  | @cons b f _ _ hf _ ih =>
    obtain ⟨-, hset, hrest⟩ := h
    rcases b.1.bindings_cases with ⟨tenantId, requestId, hfor, hb⟩ | ⟨hno, hb⟩
    · rw [hf.1, hb] at hset
      obtain rfl : (Vars.setAll f.start (bindings tenantId requestId)).1 = vars :=
        congrArg Prod.fst hset
      exact Or.inl ⟨tenantId, requestId, hfor, rfl, rfl⟩
    · rw [hf.1, hb] at hset
      obtain rfl : f.start = vars := congrArg Prod.fst hset
      exact Or.inr ⟨hno, ih hrest⟩

/-! ## Runs -/

/-- The tasks, each with a program, a context at its start, and a first statement. -/
def tasks (program : ι → K → Context → Stmt F A K) (base : ι → Context) (main : ι → K)
    [DecidableEq ι] : Machine (ι → Task Var (Option PyStr) (Point K)) (ι × Option A) :=
  Lib.tasks (fun i => instr (program i)) (fun i => (base i).vars) fun i => .user (main i)

variable [DecidableEq ι] {program : ι → K → Context → Stmt F A K} {base : ι → Context} {main : ι → K}

/-- The blocks that are open in a task after a run, innermost first, each with the variables at its
start. -/
def opened (program : ι → K → Context → Stmt F A K) (base : ι → Context) (main : ι → K) (i : ι)
    (s : ι → Task Var (Option PyStr) (Point K)) (es : List (ι × Option A)) :
    List (Block F × (Var → Option PyStr)) :=
  (tasks program base main).recorded (follow (shift (program i)) i) s es []

lemma nested_tasks {s : ι → Task Var (Option PyStr) (Point K)}
    (h : (tasks program base main).Reachable s) (i : ι) :
    Task.Nested (base i).vars (s i).frames (s i).vars :=
  nested_of_reachable (fun i => (performs (program i)).noRepeat Block.bindings_nodup) h i

/-- The frames of a task are those of the blocks that it has opened. -/
lemma matches_opened {s s' : ι → Task Var (Option PyStr) (Point K)} {es : List (ι × Option A)}
    (hs : (tasks program base main).init s) (hr : (tasks program base main).run s es = some s')
    (i : ι) : Task.Matches Block.bindings (opened program base main i s es) (s' i).frames := by
  refine Machine.recorded_invariant
    (I := fun s (blocks : List (Block F × (Var → Option PyStr))) =>
      Task.Matches Block.bindings blocks (s i).frames) ?_ ?_ hr
  · intro s e t blocks h ht
    refine matches_follow ?_ h ht
    exact performs (program i)
  · obtain rfl := hs
    exact .nil

/-- **The context of a task is that of its innermost block for a tenant, a block gives back the
context of its start however it ends, and the application of a request that is not excluded runs for
the tenant of its header.** -/
theorem context_scoped {s s' : ι → Task Var (Option PyStr) (Point K)} {es : List (ι × Option A)}
    (hs : (tasks program base main).init s) (hr : (tasks program base main).run s es = some s')
    (i : ι) :
    Innermost (base i) ((opened program base main i s es).map Prod.fst) (contextOf (s' i).vars) ∧
      (∀ e t b start, (tasks program base main).step s' e = some t →
        opened program base main i s es = (b, start) :: opened program base main i s (es ++ [e]) →
        contextOf (t i).vars = contextOf start) ∧
      ∀ k mw scope uuid4 app ok err a t, (s' i).status = .running (.user k) →
        program i k (contextOf (s' i).vars) = .request mw scope uuid4 app ok err →
        scope.type = text "http" → scope.path.getD [] ∉ mw.excluded →
        (tasks program base main).step s' (i, some a) = some t →
        (t i).status = .running (.user app) →
        ∃ rawTid, getHeader (scope.headers.getD []) "x-tenant-id" = some rawTid ∧
          validateUuid rawTid = true ∧ (contextOf (t i).vars).require = .ok rawTid := by
  have hnested := nested_tasks ((Machine.Reachable.init hs).run hr) i
  have hmatch := matches_opened hs hr i
  refine ⟨innermost_of_nested hnested hmatch, ?_, ?_⟩
  · intro e t b start ht hclosed
    have hmatch' := matches_opened hs (Machine.run_concat.mpr ⟨s', hr, ht⟩) i
    rw [hclosed] at hmatch
    rw [vars_of_closed hnested hmatch ht hmatch']
  · intro k mw scope uuid4 app ok err a t hstatus hstmt htype hpath ht happ
    obtain ⟨u, hu, rfl⟩ := tasks_step ht
    rw [Function.update_self] at happ ⊢
    simp only [Task.step, hstatus, instr, hstmt] at hu
    cases hentry : mw.enter scope uuid4 with
    | pass => exact absurd hentry (TenantMiddleware.enter_ne_pass htype hpath)
    | reject =>
      simp only [hentry] at hu
      obtain rfl := Option.some.inj hu
      exact absurd happ (by simp [Task.enter])
    | bound c =>
      obtain ⟨rawTid, hraw, hvalid, htid, -⟩ := TenantMiddleware.enter_eq_bound hentry
      simp only [hentry] at hu
      obtain rfl := Option.some.inj hu
      refine ⟨rawTid, hraw, hvalid, ?_⟩
      show Context.require ⟨c.tenantId, c.requestId⟩ = .ok rawTid
      rw [Context.require, htid]

section Example

/-- A request of a tenant, without an id. -/
def headerScope : Scope where
  type := text "http"
  path := some (text "/")
  headers := some [(utf8 "X-Tenant-ID".toList, utf8 "6f9619ff-8b86-d011-b42d-00c04fc964ff".toList)]

/-- The application of one tenant serves the request of another tenant. -/
def nestedProgram : Unit → ℕ → Context → Stmt Empty Unit ℕ
  | _, 0, _ => .bind (text "a") (some (text "r-1")) 1 3 3
  | _, 1, _ => .request (.init none) headerScope (text "u") 2 3 3
  | _, _, _ => .ret

/-- Its task, before the first statement. -/
def nestedStart : Unit → Task Var (Option PyStr) (Point ℕ) :=
  fun _ => ⟨Context.vars ⟨none, none⟩, .running (.user 0), []⟩

/-- The application runs for the tenant of the request, and when it raises, the tenant around the
request is back. -/
theorem context_scoped_nested : ∃ s t,
    (tasks nestedProgram (fun _ => ⟨none, none⟩) fun _ => 0).run nestedStart
      [((), some ()), ((), some ())] = some s ∧
    (contextOf (s ()).vars).require = .ok (text "6f9619ff-8b86-d011-b42d-00c04fc964ff") ∧
    (contextOf (s ()).vars).requestId = some (text "u") ∧
    (tasks nestedProgram (fun _ => ⟨none, none⟩) fun _ => 0).step s ((), none) = some t ∧
    contextOf (t ()).vars = ⟨some (text "a"), some (text "r-1")⟩ := by
  obtain ⟨s, hs, t, ht⟩ : ∃ s, (tasks nestedProgram (fun _ => ⟨none, none⟩) fun _ => 0).run
      nestedStart [((), some ()), ((), some ())] = some s ∧
      ∃ t, (tasks nestedProgram (fun _ => ⟨none, none⟩) fun _ => 0).step s ((), none) = some t :=
    ⟨_, rfl, _, rfl⟩
  have hinit : (tasks nestedProgram (fun _ => ⟨none, none⟩) fun _ => 0).init nestedStart := rfl
  have hopened : (opened nestedProgram (fun _ => ⟨none, none⟩) (fun _ => 0) () nestedStart
      [((), some ()), ((), some ())]).map Prod.fst =
        [.request (.init none) headerScope (text "u"), .bind (text "a") (some (text "r-1"))] := rfl
  have htype : headerScope.type = text "http" := rfl
  have hpath : headerScope.path.getD [] ∉ (TenantMiddleware.init none).excluded := by decide +kernel
  have hraw : getHeader (headerScope.headers.getD []) "x-tenant-id" =
      some (text "6f9619ff-8b86-d011-b42d-00c04fc964ff") := by decide +kernel
  have hvalid : validateUuid (text "6f9619ff-8b86-d011-b42d-00c04fc964ff") = true := by
    decide +kernel
  have hrid : ((getHeader (headerScope.headers.getD []) "x-request-id").filter (· ≠ [])).getD
      (text "u") = text "u" := by decide +kernel
  obtain ⟨hinner, hclose, -⟩ := context_scoped hinit hs ()
  rw [hopened] at hinner
  rcases hinner with ⟨tenantId, requestId, hfor, hrequire, hrequest⟩ | ⟨hno, -⟩
  · cases hfor with
    | request _ _ hraw' _ =>
      obtain rfl := Option.some.inj (hraw.symm.trans hraw')
      rw [hrid] at hrequest
      exact ⟨s, t, hs, hrequire, hrequest, ht, hclose ((), none) t _ _ ht rfl⟩
  · exact absurd (.request htype hpath hraw hvalid) (hno _ _)

end Example

end Omkit.Tenant
