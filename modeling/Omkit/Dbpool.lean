import Omkit.Lib.Machine
import Omkit.Lib.Dict
import Omkit.Lib.PgSession
import Omkit.Lib.Text
import Mathlib.Tactic

/-!
# Pools that run as a role

`create_pool` sets the role of a connection once, when the connection is made, and the event bus
resets it inside its own transactions.  A pool is modelled as its physical connections, each with
the parameters of its session; a checkout runs on one connection and gives it back.
-/

namespace Omkit.Dbpool

open Lib

/-! ## `create_pool` -/

/-- The session parameters that matter. -/
inductive Param
  | role
  | rowSecurity
  | other (name : PyStr)
deriving DecidableEq

/-- The session of a connection; `none` is the value that a parameter has at the start. -/
abbrev Session := PgSession Param (Option PyStr)

/-- A statement of such a session. -/
abbrev Stmt := Cmd Param (Option PyStr)

/-- The keyword arguments of `create_pool` that it reads: `init`, which may be given as `None`, and
`statement_cache_size`. -/
structure Kwargs where
  init : Option (Option (List Stmt)) := none
  statementCacheSize : Option ℕ := none

/-- The arguments of `asyncpg.create_pool`. -/
structure Pool where
  dsn : PyStr
  minSize : ℕ
  maxSize : ℕ
  /-- The statements of the `init` coroutine. -/
  init : Option (List Stmt)
  statementCacheSize : ℕ

/-- What follows a dialect suffix such as `+asyncpg`. -/
def afterDialect (s : PyStr) : Option PyStr :=
  let isName : PyChar → Bool
    | .scalar c => c.isLower || c.isDigit || c = '_'
    | .surrogate _ => false
  match s with
  | .scalar '+' :: s =>
    let rest := s.dropWhile isName
    if s.takeWhile isName ≠ [] ∧ (text "://").isPrefixOf rest = true then some rest else none
  | _ => none

/-- `_normalize_dsn`. -/
def normalizeDsn (dsn : PyStr) : PyStr :=
  let strip (scheme : PyStr) : Option PyStr :=
    if scheme.isPrefixOf dsn then (afterDialect (dsn.drop scheme.length)).map (scheme ++ ·)
    else none
  (strip (text "postgresql")).getD ((strip (text "postgres")).getD dsn)

/-- The statements of `_init`. -/
def roleInit (role : PyStr) : List Stmt := [.set .role (some role)]

/-- `create_pool`. -/
def createPool (dsn : PyStr) (role : Option PyStr) (kwargs : Kwargs) (minSize : ℕ := 1)
    (maxSize : ℕ := 10) : Pool where
  dsn := normalizeDsn dsn
  minSize
  maxSize
  init := match role with
    | none | some [] => kwargs.init.getD none
    | some role => kwargs.init.getD (some (roleInit role))
  statementCacheSize := kwargs.statementCacheSize.getD 0

/-! ## Checkouts -/

/-- A statement of the application: it does not write the role. -/
def AppStmt := { c : Stmt // c.writes .role = false }

/-- `_as_bus_role`. -/
def asBusRole : List Stmt := [.set .role none, .setLocal .rowSecurity (some (text "off"))]

/-- A transaction of the event bus around one query. -/
def busTransaction (o : Outcome) (s : Session) : Session :=
  PgSession.transaction (asBusRole ++ [.query]) o s

/-- What a checkout does with its connection, and how its transactions end. -/
inductive Checkout
  | app (stmts : List AppStmt)
  /-- `publish`, and `publish_tenant`. -/
  | publish (o : Outcome)
  /-- The first transaction of `subscribe`. -/
  | subscribe (o : Outcome)
  /-- `_poll_once`: the `SELECT`, and, if rows were handled after it, the `UPDATE`. -/
  | poll (select : Outcome) (update : Option Outcome)

/-- The session after the statements of a checkout. -/
def Checkout.run (w : Checkout) (s : Session) : Session :=
  match w with
  | .app stmts => s.execAll (stmts.map Subtype.val)
  | .publish o => busTransaction o s
  | .subscribe o => busTransaction o s
  | .poll .commit (some o) => busTransaction o (busTransaction .commit s)
  | .poll select _ => busTransaction select s

/-- The session as the pool takes it back: open blocks are rolled back, and `RESET ALL` sets every
parameter but the role. -/
def release (s : Session) : Session := s.abort.resetAll (fun _ => none) (· = .role)

/-- A physical connection: its session, and the checkouts it has served, oldest first. -/
structure Conn where
  session : Session
  served : List Checkout

/-- The connection as the pool opens it. -/
def Pool.connect (pool : Pool) : Conn :=
  ⟨(PgSession.fresh fun _ => none).execAll (pool.init.getD []), []⟩

/-- What may happen to a pool. -/
inductive Action
  | connect (c : ℕ)
  | close (c : ℕ)
  | checkout (c : ℕ) (w : Checkout)

/-- One step of a pool, over its connections. -/
def step (pool : Pool) (conns : Dict ℕ Conn) : Action → Option (Dict ℕ Conn)
  | .connect c =>
    if conns.get? c = none ∧ conns.items.length < pool.maxSize then
      some (conns.set c pool.connect)
    else none
  | .close c => some (conns.pop c)
  | .checkout c w => (conns.get? c).map fun conn =>
    conns.set c ⟨release (w.run conn.session), conn.served ++ [w]⟩

/-- A pool, from the moment it has no connections. -/
def machine (pool : Pool) : Machine (Dict ℕ Conn) Action where
  init conns := conns = .empty
  step := step pool

/-! ## The role of a connection -/

/-- The role that statements run as, for a login role. -/
def currentRole (login : PyStr) (s : Session) : PyStr := (s.current .role).getD login

/-- Did a checkout commit a transaction of the event bus? -/
def Checkout.commitsBusRole : Checkout → Bool
  | .app _ => false
  | .publish o | .subscribe o | .poll o _ => o = .commit

/-- The value that the role parameter of a connection has: the one that `init` gave it, until a
bus transaction commits. -/
def roleAfter (role : PyStr) (served : List Checkout) : Option PyStr :=
  if ∃ w ∈ served, w.commitsBusRole = true then none else some role

/-- The invariant of a connection between two checkouts. -/
structure Conn.Inv (role : PyStr) (c : Conn) : Prop where
  idle : c.session.saved = []
  role : c.session.Holds .role (roleAfter role c.served)

lemma busTransaction_commit {s : Session} (h : s.saved = []) :
    (busTransaction .commit s).Holds .role none ∧ (busTransaction .commit s).saved = [] :=
  PgSession.transaction_commit_set h (by simp [Cmd.flat]) (by simp [Cmd.writes])

lemma busTransaction_abort (k : ℕ) (s : Session) : busTransaction (.abort k) s = s :=
  PgSession.transaction_abort (by simp [asBusRole, Cmd.flat]) k s

/-- A bus transaction leaves the role reset if it commits, and as it was otherwise. -/
lemma busTransaction_spec {s : Session} {v : Option PyStr} (h : s.saved = [])
    (hv : s.Holds .role v) (o : Outcome) :
    (busTransaction o s).Holds .role (if o = .commit then none else v) ∧
      (busTransaction o s).saved = [] := by
  cases o with
  | commit => simpa using busTransaction_commit h
  | abort k => simpa [busTransaction_abort] using ⟨hv, h⟩

/-- The role after a checkout, before the connection is given back. -/
lemma Checkout.run_spec {s : Session} {v : Option PyStr} (h : s.saved = [])
    (hv : s.Holds .role v) (w : Checkout) :
    (w.run s).Holds .role (if w.commitsBusRole = true then none else v) := by
  cases w with
  | app stmts =>
    have hw : ∀ c ∈ stmts.map Subtype.val, c.writes .role = false := by
      intro c hc
      obtain ⟨x, -, rfl⟩ := List.mem_map.mp hc
      exact x.2
    simpa [Checkout.run, commitsBusRole] using hv.execAll hw
  | publish o => simpa [Checkout.run, commitsBusRole] using (busTransaction_spec h hv o).1
  | subscribe o => simpa [Checkout.run, commitsBusRole] using (busTransaction_spec h hv o).1
  | poll select update =>
    cases select with
    | abort k => simpa [Checkout.run, commitsBusRole] using (busTransaction_spec h hv (.abort k)).1
    | commit =>
      have hfirst := busTransaction_commit h
      cases update with
      | none => simpa [Checkout.run, commitsBusRole] using hfirst.1
      | some o =>
        simpa [Checkout.run, commitsBusRole] using (busTransaction_spec hfirst.2 hfirst.1 o).1

lemma roleAfter_append (role : PyStr) (served : List Checkout) (w : Checkout) :
    roleAfter role (served ++ [w]) =
      if w.commitsBusRole = true then none else roleAfter role served := by
  unfold roleAfter
  by_cases hw : w.commitsBusRole = true <;> simp [hw, or_and_right, exists_or]

lemma Conn.Inv.checkout {role : PyStr} {c : Conn} (h : c.Inv role) (w : Checkout) :
    Conn.Inv role ⟨release (w.run c.session), c.served ++ [w]⟩ where
  idle := by simp [release]
  role := by
    rw [roleAfter_append]
    exact (Checkout.run_spec h.idle h.role w).abort.resetAll (by simp)

/-- A pool with a role runs `SET ROLE` on a new connection. -/
lemma connect_inv {dsn role : PyStr} (hrole : role ≠ []) {kwargs : Kwargs}
    (hinit : kwargs.init = none) (minSize maxSize : ℕ) :
    (createPool dsn (some role) kwargs minSize maxSize).connect.Inv role := by
  obtain ⟨x, r, rfl⟩ := List.exists_cons_of_ne_nil hrole
  constructor
  · simp [Pool.connect, createPool, hinit, roleInit, PgSession.execAll, PgSession.exec,
      PgSession.fresh]
  · constructor <;> simp [Pool.connect, createPool, hinit, roleInit, PgSession.execAll,
      PgSession.exec, PgSession.fresh, roleAfter]

/-- Every connection of a pool with a role keeps the invariant. -/
lemma conns_inv {dsn role : PyStr} (hrole : role ≠ []) {kwargs : Kwargs}
    (hinit : kwargs.init = none) {minSize maxSize : ℕ} {conns : Dict ℕ Conn}
    (h : (machine (createPool dsn (some role) kwargs minSize maxSize)).Reachable conns) {c : ℕ}
    {conn : Conn} (hc : conns.get? c = some conn) : conn.Inv role := by
  revert c conn
  refine Machine.Reachable.invariant (I := fun conns : Dict ℕ Conn =>
    ∀ {c conn}, conns.get? c = some conn → conn.Inv role) ?_ ?_ h
  · rintro _ rfl c conn hc
    simp at hc
  · intro conns a conns' hI hstep c conn hc
    cases a with
    | connect d =>
      simp only [machine, step] at hstep
      split_ifs at hstep
      obtain rfl := Option.some.inj hstep
      rw [Dict.get?_set] at hc
      split_ifs at hc
      · obtain rfl := Option.some.inj hc
        exact connect_inv hrole hinit _ _
      · exact hI hc
    | close d =>
      obtain rfl := Option.some.inj hstep
      rw [Dict.get?_pop] at hc
      split_ifs at hc
      exact hI hc
    | checkout d w =>
      -- the connection goes back to the pool as the checkout leaves it
      obtain ⟨old, hold, rfl⟩ := Option.map_eq_some_iff.mp hstep
      rw [Dict.get?_set] at hc
      split_ifs at hc
      · obtain rfl := Option.some.inj hc
        exact (hI hold).checkout w
      · exact hI hc

/-- **A checkout starts as the role of the pool exactly when its connection has not committed a
transaction of the event bus since it was opened**, unless the login role is the role of the
pool. -/
theorem checkout_role_iff {dsn role : PyStr} (hrole : role ≠ []) {kwargs : Kwargs}
    (hinit : kwargs.init = none) {minSize maxSize : ℕ} {conns : Dict ℕ Conn}
    (h : (machine (createPool dsn (some role) kwargs minSize maxSize)).Reachable conns) {c : ℕ}
    {conn : Conn} (hc : conns.get? c = some conn) (login : PyStr) :
    currentRole login conn.session = role ↔
      login = role ∨ ∀ w ∈ conn.served, w.commitsBusRole = false := by
  have hcur : conn.session.current .role = roleAfter role conn.served :=
    (conns_inv hrole hinit h hc).role.current
  rw [currentRole, hcur, roleAfter]
  by_cases hbus : ∃ w ∈ conn.served, w.commitsBusRole = true
  · obtain ⟨w, hw, hcommit⟩ := hbus
    rw [if_pos ⟨w, hw, hcommit⟩, Option.getD_none]
    constructor
    · exact Or.inl
    · rintro (hlogin | hnone)
      · exact hlogin
      · exact absurd hcommit (by simp [hnone w hw])
  · rw [if_neg hbus, Option.getD_some]
    push Not at hbus
    exact iff_of_true rfl (Or.inr fun w hw => by simpa using hbus w hw)

/-! ## A pool whose connections lose their role -/

section Example

/-- A pool with the role of the application. -/
def appPool : Pool := createPool (text "postgresql://db") (some (text "omur_app")) {}

/-- One event is published over the only connection. -/
def onePublish : List Action := [.connect 0, .checkout 0 (.publish .commit)]

lemma onePublish_role :
    ((machine appPool).run .empty onePublish).map
        (fun conns => (conns.get? 0).map fun c => currentRole (text "omur") c.session) =
      some (some (text "omur")) := by
  decide

/-- After one event is published, the next checkout runs as the login role. -/
theorem publish_loses_role :
    ¬ ∀ (es : List Action) (conns : Dict ℕ Conn),
      (machine appPool).run .empty es = some conns →
        ∀ c conn, conns.get? c = some conn →
          currentRole (text "omur") conn.session = text "omur_app" := by
  intro hall
  obtain ⟨conns, hrun, hmap⟩ := Option.map_eq_some_iff.mp onePublish_role
  obtain ⟨conn, hc, hrole⟩ := Option.map_eq_some_iff.mp hmap
  have happ := hall _ conns hrun 0 conn hc
  rw [hrole] at happ
  exact absurd happ (by decide)

/-- The equivalence on the connection that published. -/
theorem onePublish_role_iff :
    ∃ conns conn, (machine appPool).run .empty onePublish = some conns ∧
      conns.get? 0 = some conn ∧
      (currentRole (text "omur") conn.session = text "omur_app" ↔
        text "omur" = text "omur_app" ∨ ∀ w ∈ conn.served, w.commitsBusRole = false) := by
  obtain ⟨conns, hrun, hmap⟩ := Option.map_eq_some_iff.mp onePublish_role
  obtain ⟨conn, hc, -⟩ := Option.map_eq_some_iff.mp hmap
  have hreach : (machine appPool).Reachable conns :=
    (Machine.Reachable.init (M := machine appPool) rfl).run hrun
  exact ⟨conns, conn, hrun, hc, checkout_role_iff (by decide) rfl hreach hc _⟩

end Example

end Omkit.Dbpool
