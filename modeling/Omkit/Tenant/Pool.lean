import Omkit.Tenant.Rls

/-!
# Tasks that share connections

Tasks nest blocks that bind a tenant, and run their transactions on connections of one pool.  A
connection serves one task after the other, and a task may change its tenant while it holds one.
-/

namespace Omkit.Tenant

open Lib
open Jobqueue (Pydantic)

/-! ## The machine -/

/-- A physical connection, and the task that has checked it out. -/
structure Connection (ι : Type) where
  session : PgSession PyStr PyStr
  holder : Option ι

/-- The tasks of a process, and the connections of its pool. -/
structure Server (ι K : Type) where
  tasks : ι → Task Var (Option PyStr) (Point K)
  conns : Dict ℕ (Connection ι)

/-- What may happen next. -/
inductive Use (ι A : Type)
  /-- A step of the code of a task; the calls below are its `await`s. -/
  | code (i : ι) (a : Option A)
  /-- The pool opens a connection. -/
  | connect (c : ℕ)
  | close (c : ℕ)
  | acquire (c : ℕ) (i : ι)
  | begin (c : ℕ)
  /-- `set_rls_conn`. -/
  | setRlsConn (c : ℕ)
  | stmt (c : ℕ) (q : Query)
  | finish (c : ℕ) (commit : Bool)
  /-- The pool takes the connection back and resets it, but for the parameters in `keep`. -/
  | release (c : ℕ) (keep : PyStr → Bool)

variable {F A K ι : Type} [Pydantic F] [JsonRuntime F] [DecidableEq ι]
  (program : ι → K → Context → Stmt F A K) (base : ι → Context) (main : ι → K)
  (start : PyStr → PyStr)

namespace Server

def put (s : Server ι K) (c : ℕ) (conn : Connection ι) : Server ι K :=
  { s with conns := s.conns.set c conn }

/-- The context of a task. -/
def context (s : Server ι K) (i : ι) : Context := contextOf (s.tasks i).vars

/-- The task that holds the connection does something with it. -/
def onHeld (s : Server ι K) (c : ℕ) (f : ι → PgSession PyStr PyStr → PgSession PyStr PyStr) :
    Option (Server ι K) :=
  match s.conns.get? c with
  | some ⟨session, some i⟩ => some (s.put c ⟨f i session, some i⟩)
  | _ => none

/-- One step. -/
def step (s : Server ι K) : Use ι A → Option (Server ι K)
  | .code i a => ((Tenant.tasks program base main).step s.tasks (i, a)).map fun tasks =>
    { s with tasks := tasks }
  | .connect c => if c ∈ s.conns.keys then none else some (s.put c ⟨.fresh start, none⟩)
  | .close c => some { s with conns := s.conns.pop c }
  | .acquire c i => match s.conns.get? c with
    | some ⟨session, none⟩ => some (s.put c ⟨session, some i⟩)
    | _ => none
  | .begin c => s.onHeld c fun _ session => session.exec .begin
  | .setRlsConn c => s.onHeld c fun i session =>
    -- An exception changes nothing here; the code of the task goes on with it.
    match Tenant.setRlsConn session (s.context i) with
    | .ok session => session
    | .error _ => session
  | .stmt c q => s.onHeld c fun _ session => session.exec q.cmd
  | .finish c commit => s.onHeld c fun _ session =>
    session.exec (if commit then .commit else .rollback)
  | .release c keep => match s.conns.get? c with
    | some ⟨session, some _⟩ => some (s.put c ⟨session.abort.resetAll start keep, none⟩)
    | _ => none

end Server

/-- The tasks at their start, and a pool without connections. -/
def pool : Machine (Server ι K) (Use ι A) where
  init s := (tasks program base main).init s.tasks ∧ s.conns = .empty
  step := Server.step program base main start

/-- The blocks that are open in a task after a step of the server. -/
def Server.follow (i : ι) (s : Server ι K) (e : Use ι A)
    (blocks : List (Block F × (Var → Option PyStr))) : List (Block F × (Var → Option PyStr)) :=
  match e with
  | .code j a => Lib.follow (shift (program i)) i s.tasks (j, a) blocks
  | _ => blocks

/-- The blocks that are open in a task after a run of the server, innermost first. -/
def openedIn (i : ι) (s : Server ι K) (es : List (Use ι A)) : List (Block F) :=
  ((pool program base main start).recorded (Server.follow program i) s es []).map Prod.fst

/-! ## The guard -/

/-- Is the task in the middle of a transaction? -/
def Server.inTransaction (s : Server ι K) (i : ι) : Bool :=
  s.conns.items.any fun p => decide (p.2.holder = some i) && !p.2.session.saved.isEmpty

/-- The task keeps its context while it is in a transaction.  The other tasks may do anything. -/
def Steady (i : ι) (s : Server ι K) : Use ι A → Prop
  | .code j a => j = i → s.inTransaction i = true →
    ∀ t ∈ (tasks program base main).step s.tasks (i, a), contextOf (t i).vars = s.context i
  | _ => True

instance (i : ι) (s : Server ι K) (e : Use ι A) : Decidable (Steady program base main i s e) := by
  unfold Steady
  split <;> infer_instance

/-! ## The tenant of a connection -/

/-- A connection that nobody holds is in no transaction, and the settings that were made on one that
the task holds are those of its context. -/
structure Connection.Inv (i : ι) (c : Context) (conn : Connection ι) : Prop where
  free : conn.holder = none → conn.session.saved = []
  setting : conn.session.Local appTenantId (start appTenantId) fun tid =>
    conn.holder = some i → c.require = .ok tid

def Server.Inv (i : ι) (s : Server ι K) : Prop :=
  ∀ c conn, s.conns.get? c = some conn → conn.Inv start i (s.context i)

section Steps

variable {program : ι → K → Context → Stmt F A K} {base : ι → Context} {main : ι → K}
  {start : PyStr → PyStr} {i : ι} {s s' : Server ι K} {session : PgSession PyStr PyStr}

omit [DecidableEq ι] in
lemma Server.Inv.put (h : s.Inv start i) {c : ℕ} {conn : Connection ι}
    (hconn : conn.Inv start i (s.context i)) : (s.put c conn).Inv start i := by
  intro c' conn' hget
  rw [Server.put, Dict.get?_set] at hget
  split at hget
  · obtain rfl := Option.some.inj hget
    exact hconn
  · exact h c' conn' hget

omit [DecidableEq ι] in
/-- What the holder does with its connection. -/
lemma Server.Inv.onHeld (h : s.Inv start i) {c : ℕ}
    {f : ι → PgSession PyStr PyStr → PgSession PyStr PyStr}
    (hf : ∀ j session,
      (session.Local appTenantId (start appTenantId) fun tid =>
        some j = some i → (s.context i).require = .ok tid) →
      (f j session).Local appTenantId (start appTenantId) fun tid =>
        some j = some i → (s.context i).require = .ok tid)
    (hs : s.onHeld c f = some s') : s'.Inv start i := by
  rw [Server.onHeld] at hs
  split at hs
  · next session j hget =>
    obtain rfl := Option.some.inj hs
    exact h.put ⟨fun hfree => (by cases hfree), hf j session (h c _ hget).setting⟩
  · cases hs

/-- `set_rls_conn` makes the tenant of the context the setting, or raises. -/
lemma local_setRlsConn {c : Context} {v : PyStr} {P : PyStr → Prop}
    {conn : PgSession PyStr PyStr} (h : session.Local appTenantId v P)
    (hP : ∀ tid, c.require = .ok tid → P tid) (hs : setRlsConn session c = .ok conn) :
    conn.Local appTenantId v P := by
  rw [setRlsConn] at hs
  split at hs
  · cases hs
  · split at hs
    · cases hs
    · next tid htid =>
      split at hs
      · cases hs
        exact h.setLocal (hP tid htid)
      · cases hs

/-- The task changes its context between its transactions, or another task does. -/
lemma Connection.Inv.changed {conn : Connection ι} {c c' : Context} (h : conn.Inv start i c)
    (hkeep : conn.holder = some i → conn.session.saved = [] ∨ c' = c) : conn.Inv start i c' := by
  refine ⟨h.free, ?_⟩
  by_cases hi : conn.holder = some i
  · rcases hkeep hi with hidle | rfl
    · exact h.setting.of_idle hidle
    · exact h.setting
  · exact h.setting.mono fun tid _ hheld => absurd hheld hi

lemma saved_of_not_inTransaction (h : s.inTransaction i = false) {c : ℕ} {conn : Connection ι}
    (hget : s.conns.get? c = some conn) (hi : conn.holder = some i) : conn.session.saved = [] := by
  have hmem := Dict.get?_eq_some.mp hget
  rw [Server.inTransaction, List.any_eq_false] at h
  simpa [hi] using h _ hmem

/-- Every step in which the task is steady keeps the invariant. -/
lemma Server.Inv.step {e : Use ι A} (h : s.Inv start i) (hg : Steady program base main i s e)
    (hs : s.step program base main start e = some s') : s'.Inv start i := by
  cases e with
  | code j a =>
    obtain ⟨t, ht, rfl⟩ := Option.map_eq_some_iff.mp hs
    intro c conn hget
    refine (h c conn hget).changed fun hi => ?_
    by_cases hj : j = i
    · cases htxn : s.inTransaction i with
      | true => exact Or.inr (hg hj htxn t (hj ▸ ht))
      | false => exact Or.inl (saved_of_not_inTransaction htxn hget hi)
    · obtain ⟨u, -, rfl⟩ := tasks_step ht
      right
      show contextOf (Function.update s.tasks j u i).vars = _
      rw [Function.update_of_ne (Ne.symm hj)]
      rfl
  | connect c =>
    rw [Server.step] at hs
    split at hs
    · cases hs
    · obtain rfl := Option.some.inj hs
      exact h.put ⟨fun _ => rfl, PgSession.local_fresh _ _ _⟩
  | close c =>
    obtain rfl := Option.some.inj hs
    exact fun c' conn hget => h c' conn (Dict.get?_pop_eq_some.mp hget).2
  | acquire c j =>
    rw [Server.step] at hs
    split at hs
    · next session hget =>
      obtain rfl := Option.some.inj hs
      have hconn := h c _ hget
      exact h.put ⟨fun hfree => (by cases hfree), hconn.setting.of_idle (hconn.free rfl)⟩
    · cases hs
  | begin c => exact h.onHeld (fun j session hl => hl.begin) hs
  | setRlsConn c =>
    refine h.onHeld (fun j session hl => ?_) hs
    split
    · next conn hset =>
      refine local_setRlsConn hl (fun tid htid hj => ?_) hset
      obtain rfl := Option.some.inj hj
      exact htid
    · exact hl
  | stmt c q => exact h.onHeld (fun j session hl => hl.other q.flat q.spares) hs
  | finish c commit =>
    refine h.onHeld (fun j session hl => ?_) hs
    cases commit with
    | true => exact hl.commit
    | false => exact hl.rollback
  | release c keep =>
    rw [Server.step] at hs
    split at hs
    · next session j hget =>
      obtain rfl := Option.some.inj hs
      refine h.put ⟨fun _ => by simp, ?_⟩
      exact (h c _ hget).setting.abort.resetAll keep
    · cases hs

omit [DecidableEq ι] in
lemma tasks_of_onHeld {c : ℕ} {f : ι → PgSession PyStr PyStr → PgSession PyStr PyStr}
    (hs : s.onHeld c f = some s') : s'.tasks = s.tasks := by
  rw [Server.onHeld] at hs
  split at hs
  · obtain rfl := Option.some.inj hs
    rfl
  · cases hs

lemma inv_of_reach (h : (pool program base main start).Reach (Steady program base main i) s) :
    s.Inv start i := by
  refine h.invariant (fun s hs c conn hget => ?_) fun s e s' hI hg hs => hI.step hg hs
  rw [hs.2] at hget
  cases hget

/-- A step of the server is a step of its tasks, or leaves them alone. -/
lemma tasks_of_step {e : Use ι A} (hs : s.step program base main start e = some s') :
    (∃ j a, e = .code j a ∧ (tasks program base main).step s.tasks (j, a) = some s'.tasks) ∨
      (∀ j a, e ≠ .code j a) ∧ s'.tasks = s.tasks := by
  cases e with
  | code j a =>
    obtain ⟨t, ht, rfl⟩ := Option.map_eq_some_iff.mp hs
    exact Or.inl ⟨j, a, rfl, ht⟩
  | connect c =>
    rw [Server.step] at hs
    split at hs
    · cases hs
    · obtain rfl := Option.some.inj hs
      exact Or.inr ⟨nofun, rfl⟩
  | close c =>
    obtain rfl := Option.some.inj hs
    exact Or.inr ⟨nofun, rfl⟩
  | acquire c j =>
    rw [Server.step] at hs
    split at hs
    · obtain rfl := Option.some.inj hs
      exact Or.inr ⟨nofun, rfl⟩
    · cases hs
  | release c keep =>
    rw [Server.step] at hs
    split at hs
    · obtain rfl := Option.some.inj hs
      exact Or.inr ⟨nofun, rfl⟩
    · cases hs
  | begin | setRlsConn | stmt | finish => exact Or.inr ⟨nofun, tasks_of_onHeld hs⟩

/-- The tasks of a server run as tasks do. -/
lemma tasks_of_reachable (h : (pool program base main start).Reachable s) :
    (tasks program base main).Reachable s.tasks := by
  refine h.invariant (I := fun s => (tasks program base main).Reachable s.tasks) ?_ ?_
  · exact fun s hs => .init hs.1
  · intro s e s' hr hs
    rcases tasks_of_step hs with ⟨j, a, -, ht⟩ | ⟨-, ht⟩
    · exact hr.step ht
    · exact ht ▸ hr

/-- The context of a task is that of its innermost block for a tenant, whatever the pool does. -/
lemma innermost_of_run {es : List (Use ι A)} (hs : (pool program base main start).init s)
    (hr : (pool program base main start).run s es = some s') (i : ι) :
    Innermost (base i) (openedIn program base main start i s es) (s'.context i) := by
  have hreach := tasks_of_reachable ((Machine.Reachable.init hs).run hr)
  refine innermost_of_nested (nested_tasks hreach i) ?_
  refine Machine.recorded_invariant
    (I := fun s (blocks : List (Block F × (Var → Option PyStr))) =>
      Task.Matches Block.bindings blocks (s.tasks i).frames) ?_ ?_ hr
  · intro s e t blocks h ht
    rcases tasks_of_step ht with ⟨j, a, rfl, htasks⟩ | ⟨hother, htasks⟩
    · refine matches_follow ?_ h htasks
      exact performs (program i)
    · have hkeep : Server.follow program i s e blocks = blocks := by
        unfold Server.follow
        split
        · exact absurd rfl (hother _ _)
        · rfl
      rw [hkeep, htasks]
      exact h
  · rw [hs.1]
    exact .nil

end Steps

/-- **A connection of the pool has no tenant outside of transactions.  In those of a task that keeps
its context there, it has none or the tenant of the innermost block of this task, whatever the other
tasks do.** -/
theorem pool_scoped {program : ι → K → Context → Stmt F A K} {base : ι → Context} {main : ι → K}
    {start : PyStr → PyStr} {i : ι} {s s' : Server ι K} {es : List (Use ι A)}
    (hs : (pool program base main start).init s)
    (ha : (pool program base main start).Along (Steady program base main i) s es)
    (hr : (pool program base main start).run s es = some s') {c : ℕ} {conn : Connection ι}
    (hget : s'.conns.get? c = some conn) :
    (conn.holder = none → conn.session.saved = []) ∧
      (conn.session.saved = [] → conn.session.current appTenantId = start appTenantId) ∧
      Innermost (base i) (openedIn program base main start i s es) (s'.context i) ∧
      (conn.holder = some i → conn.session.current appTenantId = start appTenantId ∨
        (s'.context i).require = .ok (conn.session.current appTenantId)) := by
  have hreach : (pool program base main start).Reach (Steady program base main i) s :=
    .init hs
  obtain ⟨hfree, hsetting⟩ := inv_of_reach (hreach.run ha hr) c conn hget
  refine ⟨hfree, hsetting.current_of_idle, innermost_of_run hs hr i, fun hi => ?_⟩
  rcases hsetting.current with hstart | hrequire
  · exact Or.inl hstart
  · exact Or.inr (hrequire hi)

section Example

/-- A task that binds a tenant, and one that binds another. -/
def twoTenants : Bool → ℕ → Context → Stmt Empty Unit ℕ
  | false, 0, _ => .bind (text "a") none 1 1 1
  | true, 0, _ => .asyncBind (text "b") (some (text "r-1")) 1 1 1
  | _, _, _ => .ret

/-- The pool that both of them use. -/
def samplePool : Machine (Server Bool ℕ) (Use Bool Unit) :=
  pool twoTenants (fun _ => ⟨none, none⟩) (fun _ => 0) fun _ => []

def atStart : Server Bool ℕ where
  tasks := fun _ => ⟨Context.vars ⟨none, none⟩, .running (.user 0), []⟩
  conns := .empty

lemma query_flat : (Cmd.query : Cmd PyStr PyStr).flat = true := rfl

lemma query_spares : (Cmd.query : Cmd PyStr PyStr).writes appTenantId = false := rfl

/-- The connection serves the second task after the first, while both are in their blocks. -/
def sharing : List (Use Bool Unit) :=
  [.code false (some ()), .connect 0, .acquire 0 false, .begin 0, .setRlsConn 0,
    .code true (some ()), .stmt 0 ⟨.query, query_flat, query_spares⟩,
    .release 0 fun _ => true, .acquire 0 true, .begin 0, .setRlsConn 0]

/-- The connection has the tenant that the second task has bound. -/
theorem sharing_scoped : ∃ (s : Server Bool ℕ) (conn : Connection Bool),
    samplePool.run atStart sharing = some s ∧ s.conns.get? 0 = some conn ∧
      conn.holder = some true ∧ conn.session.current appTenantId = text "b" := by
  have hrun : ((samplePool.run atStart sharing).bind fun s => s.conns.get? 0).map
      (fun conn => (conn.holder, decide (conn.session.current appTenantId = []))) =
      some (some true, false) := by decide +kernel
  obtain ⟨conn, hget, hend⟩ := Option.map_eq_some_iff.mp hrun
  obtain ⟨s, hs, hget⟩ := Option.bind_eq_some_iff.mp hget
  obtain ⟨hheld, hset⟩ := Prod.mk.injEq .. ▸ hend
  have hinit : samplePool.init atStart := ⟨rfl, rfl⟩
  have hopened : openedIn twoTenants (fun _ => ⟨none, none⟩) (fun _ => 0) (fun _ => []) true atStart
      sharing = [.asyncBind (text "b") (some (text "r-1"))] := rfl
  obtain ⟨-, -, hinner, hscoped⟩ := pool_scoped hinit (i := true) (by decide +kernel) hs hget
  rw [hopened] at hinner
  rcases hinner with ⟨tenantId, requestId, hfor, hrequire, -⟩ | ⟨hno, -⟩
  · cases hfor
    rcases hscoped hheld with hstart | hcurrent
    · exact absurd hstart (of_decide_eq_false hset)
    · exact ⟨s, conn, hs, hget, hheld, (Except.ok.inj (hrequire.symm.trans hcurrent)).symm⟩
  · exact absurd .asyncBind (hno _ _)

end Example

end Omkit.Tenant
