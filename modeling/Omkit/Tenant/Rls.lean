import Omkit.Lib.PgSession
import Omkit.Sessions.Stores
import Omkit.Tenant.Scoped

/-!
# The tenant of the database

`set_rls_conn` gives the tenant of the context to the database, for the policies on its rows, as a
setting that lasts until the transaction ends.  In nested blocks the context goes back to the tenant
of the outer block when the inner one ends, but the setting does so only if the savepoint of the
inner block rolls back.
-/

namespace Omkit.Tenant

open Lib
open Sessions (textParam)

/-- The setting that `set_rls_conn` writes. -/
def appTenantId : PyStr := text "app.tenant_id"

/-- What `set_rls_conn` raises. -/
inductive RlsError
  | runtimeError (message : PyStr)
  /-- The parameter cannot be sent, or the server does not take it. -/
  | database
deriving DecidableEq

/-- `set_rls_conn`. -/
def setRlsConn (conn : PgSession PyStr PyStr) (c : Context) :
    Except RlsError (PgSession PyStr PyStr) :=
  if conn.saved = [] then
    .error (.runtimeError (text "set_rls_conn() must be called inside an active transaction. Use 'async with conn.transaction():' before calling."))
  else match c.require with
    | .error message => .error (.runtimeError message)
    | .ok tid => if textParam tid then .ok (conn.exec (.setLocal appTenantId tid)) else .error .database

/-- A statement of the code of a block: it opens and closes no block, and leaves the setting to
`set_rls_conn`. -/
structure Query where
  cmd : Cmd PyStr PyStr
  flat : cmd.flat = true
  spares : cmd.writes appTenantId = false

/-- What runs in a block after its `set_rls_conn`, up to its end: statements, and inner blocks, each of
which commits or rolls back. -/
inductive Body
  | done
  | stmt (q : Query) (rest : Body)
  | block (tenantId : PyStr) (requestId : Option PyStr) (body : Body) (commit : Bool) (rest : Body)

/-- The variables of the task, and the connection. -/
structure World where
  vars : Var → Option PyStr
  conn : PgSession PyStr PyStr

/-- What a statement runs with: the setting, and what `require` would answer. -/
structure Obs where
  setting : PyStr
  tenant : Except PyStr PyStr
deriving DecidableEq

/-- The database has the tenant of the context. -/
def Obs.Agrees (o : Obs) : Prop := o.tenant = .ok o.setting

instance (o : Obs) : Decidable o.Agrees := by
  unfold Obs.Agrees
  infer_instance

namespace World

variable (w : World)

/-- What a statement runs with. -/
def obs : Obs := ⟨w.conn.current appTenantId, (contextOf w.vars).require⟩

/-- A block of `bind` or `async_bind` around a block of `conn.transaction()`, which begins with
`set_rls_conn`; the result has what the statements in it ran with. -/
def block (tenantId : PyStr) (requestId : Option PyStr) (body : World → World × List Obs)
    (commit : Bool) : World × List Obs :=
  let (vars, tokens) := Vars.setAll w.vars (bindings tenantId requestId)
  let conn := w.conn.exec .begin
  match setRlsConn conn (contextOf vars) with
  | .error _ => (⟨Vars.resetAll vars tokens, conn.exec .rollback⟩, [])
  | .ok conn =>
    let (w', obs) := body ⟨vars, conn⟩
    (⟨Vars.resetAll w'.vars tokens, w'.conn.exec (if commit then .commit else .rollback)⟩, obs)

end World

namespace Body

/-- The run of what is left of a block. -/
def run : Body → World → World × List Obs
  | .done, w => (w, [])
  | .stmt q rest, w =>
    let (w', obs) := run rest { w with conn := w.conn.exec q.cmd }
    (w', w.obs :: obs)
  | .block tenantId requestId body commit rest, w =>
    let (w₁, obs₁) := w.block tenantId requestId (run body) commit
    let (w₂, obs₂) := run rest w₁
    (w₂, obs₁ ++ obs₂)

/-- The tenant that is left in the setting, which had `cur` before: that of the last block inside to
have committed, or what the last one inside that has left. -/
def leaves : Body → PyStr → PyStr
  | .done, cur => cur
  | .stmt _ rest, cur => leaves rest cur
  | .block tenantId _ body commit rest, cur =>
    leaves rest (if textParam tenantId = true ∧ commit = true then leaves body tenantId else cur)

/-- In a block of `tenantId`, whose setting is `cur`, no statement comes after an inner block that has
left another tenant; and the same in the inner blocks. -/
def Follows (tenantId : PyStr) : Body → PyStr → Prop
  | .done, _ => True
  | .stmt _ rest, cur => cur = tenantId ∧ Follows tenantId rest cur
  | .block inner _ body commit rest, cur =>
    (textParam inner = true → Follows inner body inner) ∧
      Follows tenantId rest
        (if textParam inner = true ∧ commit = true then leaves body inner else cur)

end Body

/-! ## Both stacks -/

namespace World

variable {w : World} {tenantId : PyStr} {requestId : Option PyStr}

/-- In this state the code of a block runs after its `set_rls_conn`. -/
def opened (w : World) (tenantId : PyStr) (requestId : Option PyStr) : World where
  vars := (Vars.setAll w.vars (bindings tenantId requestId)).1
  conn := (w.conn.exec .begin).exec (.setLocal appTenantId tenantId)

lemma resetAll_bindings (vars : Var → Option PyStr) (tenantId : PyStr)
    (requestId : Option PyStr) :
    Vars.resetAll (Vars.setAll vars (bindings tenantId requestId)).1
      (Vars.setAll vars (bindings tenantId requestId)).2 = vars :=
  Vars.resetAll_setAll (bindings_nodup tenantId requestId)

/-- The `set_rls_conn` of a block fails only if its tenant is not taken. -/
lemma setRlsConn_begin (w : World) (tenantId : PyStr) (requestId : Option PyStr) :
    setRlsConn (w.conn.exec .begin)
      (contextOf (Vars.setAll w.vars (bindings tenantId requestId)).1) =
    if textParam tenantId = true then .ok (w.opened tenantId requestId).conn
      else .error .database := rfl

/-- A block whose tenant is not taken leaves no trace. -/
lemma block_rejected {body : World → World × List Obs} {commit : Bool}
    (h : textParam tenantId = false) :
    w.block tenantId requestId body commit = (w, []) := by
  have hset := setRlsConn_begin w tenantId requestId
  rw [h] at hset
  simp only [block, hset, resetAll_bindings]
  rfl

lemma block_accepted {body : World → World × List Obs} {commit : Bool}
    (h : textParam tenantId = true) :
    w.block tenantId requestId body commit =
      (⟨Vars.resetAll (body (w.opened tenantId requestId)).1.vars
          (Vars.setAll w.vars (bindings tenantId requestId)).2,
        (body (w.opened tenantId requestId)).1.conn.exec (if commit then .commit else .rollback)⟩,
        (body (w.opened tenantId requestId)).2) := by
  have hset := setRlsConn_begin w tenantId requestId
  rw [if_pos h] at hset
  simp only [block, hset]
  rfl

end World

namespace Body

/-- What the run of a body from `w` to `w'` keeps, and what it leaves, in a block of `tenantId` whose
setting was `cur`. -/
structure Ran (body : Body) (tenantId cur : PyStr) (w w' : World) (obs : List Obs) : Prop where
  vars : w'.vars = w.vars
  saved : w'.conn.saved = w.conn.saved
  setting : w'.conn.inTxn appTenantId = some (body.leaves cur)
  follows : (∀ o ∈ obs, o.Agrees) ↔ body.Follows tenantId cur

/-- The run of a body in any open block whose setting is known. -/
def Runs (body : Body) : Prop :=
  ∀ {w : World} {tenantId cur : PyStr}, (contextOf w.vars).tenantId = some tenantId →
    w.conn.inTxn appTenantId = some cur → w.conn.saved ≠ [] →
      body.Ran tenantId cur w (body.run w).1 (body.run w).2

variable {body : Body} {w : World} {inner : PyStr} {requestId : Option PyStr}

lemma Runs.opened (h : body.Runs) (w : World) (inner : PyStr) (requestId : Option PyStr) :
    body.Ran inner inner (w.opened inner requestId) (body.run (w.opened inner requestId)).1
      (body.run (w.opened inner requestId)).2 := by
  refine h rfl ?_ (List.cons_ne_nil _ _)
  show Function.update (w.conn.exec .begin).inTxn appTenantId (some inner) appTenantId = some inner
  rw [Function.update_self]

/-- What the statements inside a block run with. -/
lemma Runs.block_obs (h : body.Runs) (commit : Bool) :
    (∀ o ∈ (w.block inner requestId body.run commit).2, o.Agrees) ↔
      (textParam inner = true → body.Follows inner inner) := by
  cases hparam : textParam inner with
  | false =>
    rw [World.block_rejected hparam]
    simp
  | true =>
    rw [World.block_accepted hparam]
    simpa using (h.opened w inner requestId).follows

/-- An inner block gives the variables and the open blocks back; it leaves its setting if it
commits. -/
lemma Runs.block (h : body.Runs) (requestId : Option PyStr) (commit : Bool) {cur : PyStr}
    (hcur : w.conn.inTxn appTenantId = some cur) (hsaved : w.conn.saved ≠ []) :
    (w.block inner requestId body.run commit).1.vars = w.vars ∧
      (w.block inner requestId body.run commit).1.conn.saved = w.conn.saved ∧
      (w.block inner requestId body.run commit).1.conn.inTxn appTenantId =
        some (if textParam inner = true ∧ commit = true then body.leaves inner else cur) := by
  cases hparam : textParam inner with
  | false =>
    rw [World.block_rejected hparam]
    exact ⟨rfl, rfl, by simpa using hcur⟩
  | true =>
    have hran := h.opened w inner requestId
    have hopened : (w.opened inner requestId).conn.saved = w.conn.toParams :: w.conn.saved := rfl
    have hafter := hran.saved.trans hopened
    rw [World.block_accepted hparam]
    generalize body.run (w.opened inner requestId) = out at hran hafter
    obtain ⟨f, rest, hf⟩ := List.exists_cons_of_ne_nil hsaved
    refine ⟨?_, ?_, ?_⟩
    · show Vars.resetAll out.1.vars _ = w.vars
      rw [hran.vars]
      exact World.resetAll_bindings w.vars inner requestId
    · cases commit <;> simp [PgSession.exec, hafter, hf]
    · cases commit with
      | false =>
        -- the rollback restores the parameters of the start
        simp [PgSession.exec, hafter, hcur]
      | true =>
        simp [PgSession.exec, hafter, hf, hran.setting]

/-- **The run of every body**, by induction on what is left of it. -/
theorem runs (body : Body) : body.Runs := by
  induction body with
  | done =>
    intro w tenantId cur htenant hcur hsaved
    exact ⟨rfl, rfl, hcur, by simp [run, Follows]⟩
  | stmt q rest ih =>
    intro w tenantId cur htenant hcur hsaved
    have hinTxn := (PgSession.exec_inTxn_of_not_writes (s := w.conn) q.flat q.spares).trans hcur
    have hblocks := PgSession.exec_saved_of_flat (s := w.conn) q.flat
    have hran := ih (w := { w with conn := w.conn.exec q.cmd }) htenant hinTxn
      (by rw [hblocks]; exact hsaved)
    have hobs : w.obs.Agrees ↔ cur = tenantId := by
      have hrequire : (contextOf w.vars).require = .ok tenantId := by
        rw [Context.require, htenant]
      simp only [Obs.Agrees, World.obs, hrequire, PgSession.current, hcur, Option.getD_some,
        Except.ok.injEq]
      exact eq_comm
    refine ⟨hran.vars, hran.saved.trans hblocks, hran.setting, ?_⟩
    show (∀ o ∈ w.obs :: _, o.Agrees) ↔ cur = tenantId ∧ rest.Follows tenantId cur
    rw [List.forall_mem_cons, hobs, ← hran.follows]
  | block inner requestId body commit rest ihbody ih =>
    intro w tenantId cur htenant hcur hsaved
    obtain ⟨hvars, hblocks, hsetting⟩ := ihbody.block requestId commit hcur hsaved
    have hran := ih (by rw [hvars]; exact htenant) hsetting (by rw [hblocks]; exact hsaved)
    refine ⟨hran.vars.trans hvars, hran.saved.trans hblocks, hran.setting, ?_⟩
    show (∀ o ∈ (w.block inner requestId body.run commit).2 ++
      (rest.run (w.block inner requestId body.run commit).1).2, o.Agrees) ↔
        (textParam inner = true → body.Follows inner inner) ∧ _
    rw [List.forall_mem_append, ihbody.block_obs commit, ← hran.follows]

end Body

/-- **Every statement in a block runs with the tenant of its context exactly if none of them comes after
an inner block that has committed and left another tenant.** -/
theorem rls_follows_iff (w : World) (tenantId : PyStr) (requestId : Option PyStr) (body : Body)
    (commit : Bool) :
    (∀ o ∈ (w.block tenantId requestId body.run commit).2, o.Agrees) ↔
      textParam tenantId = false ∨ body.Follows tenantId tenantId := by
  rw [Body.Runs.block_obs body.runs commit]
  cases textParam tenantId <;> simp

section Example

/-- A block of tenant `a` that has a statement after an inner block of tenant `b`, which commits. -/
def afterInner : Body :=
  .block (text "b") none .done true (.stmt ⟨.query, rfl, rfl⟩ .done)

/-- The statement runs for tenant `b`. -/
theorem inner_tenant_stays : ¬ ∀ (w : World) (tenantId : PyStr) (requestId : Option PyStr)
    (body : Body) (commit : Bool), ∀ o ∈ (w.block tenantId requestId body.run commit).2,
      o.Agrees := by
  intro h
  have hagrees := h ⟨fun _ => none, .fresh fun _ => []⟩ (text "a") none afterInner true
    ⟨text "b", .ok (text "a")⟩ (by decide)
  exact absurd hagrees (by decide)

end Example

end Omkit.Tenant
