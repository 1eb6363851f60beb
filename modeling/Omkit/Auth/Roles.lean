import Omkit.Featureflags.Flag
import Omkit.Lib.Scoped
import Mathlib.Data.Finset.Dedup
import Mathlib.Data.Finset.Insert

/-!
# Roles

The roles that the groups of a caller grant, the context variable that carries them, and what looks
at it: `require_role`, and the gate of a feature flag.  Tasks nest `with_roles` to any depth; an
exception may be raised at any point, and the tasks may be interleaved in any way.
-/

namespace Omkit.Auth

open Lib
open Featureflags (Role Flag allowed allowed_eq_true)

/-! ## Groups -/

/-- `_GROUP_TO_ROLES`. -/
def groupToRoles : List (PyStr × List Role) :=
  [(text "omur-admin", [.admin]), (text "omur-support", [.support]), (text "omur-user", [.user])]

/-- `_GROUP_TO_ROLES.get(g, ())`. -/
def rolesOfGroup (g : PyStr) : List Role := (groupToRoles.lookup g).getD []

/-- One role of the inner loop, with `seen` and `out`. -/
def addRole (acc : Finset Role × List Role) (r : Role) : Finset Role × List Role :=
  if r ∈ acc.1 then acc else (insert r acc.1, acc.2 ++ [r])

/-- `roles_from_groups`. -/
def rolesFromGroups : Option (List PyStr) → List Role
  | none => []
  | some groups => (groups.foldl (fun acc g => (rolesOfGroup g).foldl addRole acc) (∅, [])).2

/-- One of the group keys grants the role. -/
def Grants (groups : List PyStr) (r : Role) : Prop := ∃ g ∈ groups, r ∈ rolesOfGroup g

/-- `seen` has the roles of `out`, none of them twice: those of a set. -/
structure Collected (acc : Finset Role × List Role) (P : Role → Prop) : Prop where
  seen : acc.1 = acc.2.toFinset
  nodup : acc.2.Nodup
  mem : ∀ r, r ∈ acc.2 ↔ P r

lemma Collected.addRole {acc : Finset Role × List Role} {P : Role → Prop} (h : Collected acc P)
    (r : Role) : Collected (addRole acc r) fun x => P x ∨ x = r := by
  unfold Auth.addRole
  split_ifs with hr
  · refine ⟨h.seen, h.nodup, fun x => ?_⟩
    rw [h.seen, List.mem_toFinset, h.mem] at hr
    rw [h.mem]
    exact ⟨Or.inl, fun hx => hx.elim id fun heq => heq ▸ hr⟩
  · have hout : r ∉ acc.2 := by rwa [h.seen, List.mem_toFinset] at hr
    refine ⟨?_, ?_, fun x => ?_⟩
    · ext x
      rw [h.seen, Finset.mem_insert, List.mem_toFinset, List.mem_toFinset, List.mem_append,
        List.mem_singleton]
      exact or_comm
    · exact List.nodup_append.mpr ⟨h.nodup, List.nodup_singleton r, by
        rintro x hx y hy rfl
        rw [List.mem_singleton.mp hy] at hx
        exact hout hx⟩
    · rw [List.mem_append, List.mem_singleton, h.mem]

lemma Collected.addRoles {acc : Finset Role × List Role} {P : Role → Prop} (h : Collected acc P)
    (l : List Role) : Collected (l.foldl Auth.addRole acc) fun x => P x ∨ x ∈ l := by
  induction l generalizing acc P with
  | nil => simpa using h
  | cons r l ih => simpa [or_assoc] using ih (h.addRole r)

lemma Collected.addGroups {acc : Finset Role × List Role} {P : Role → Prop} (h : Collected acc P)
    (groups : List PyStr) :
    Collected (groups.foldl (fun acc g => (rolesOfGroup g).foldl Auth.addRole acc) acc)
      fun x => P x ∨ Grants groups x := by
  induction groups generalizing acc P with
  | nil => simpa [Grants] using h
  | cons g groups ih =>
    have hnext := ih (h.addRoles (rolesOfGroup g))
    simpa [Grants, or_assoc] using hnext

/-- The roles of some groups are those that one of them grants, each of them once. -/
theorem rolesFromGroups_spec (groups : Option (List PyStr)) : (rolesFromGroups groups).Nodup ∧
    ∀ r, r ∈ rolesFromGroups groups ↔ Grants (groups.getD []) r := by
  cases groups with
  | none => exact ⟨List.nodup_nil, fun r => by simp [rolesFromGroups, Grants]⟩
  | some groups =>
    have hempty : Collected ((∅ : Finset Role), []) fun _ => False :=
      ⟨rfl, List.nodup_nil, fun r => by simp⟩
    have hall := hempty.addGroups groups
    exact ⟨hall.nodup, fun r => (hall.mem r).trans (by simp)⟩

/-! ## The context -/

/-- `has_role`, with `roles_from_context()`. -/
def hasRole (roles : List Role) (want : Role) : Bool := want ∈ roles

/-- `require_role`, with the text of its `RoleRequiredError`. -/
def requireRole (roles : List Role) (want : Role) : Except PyStr Unit :=
  if hasRole roles want then .ok ()
  else .error (text "forbidden: missing required role '" ++ want.value ++ text "'")

/-- What the outside gives to a statement: its value, and the flags of the store at that time. -/
structure Reply (A : Type) where
  value : A
  flags : PyStr → Option Flag

/-- What the code of a task does next; after a block it goes on with `ok`, or with `err` if the
block has ended by an exception. -/
inductive Stmt (A K : Type)
  /-- Anything that leaves the roles alone, such as an `await`. -/
  | act (k : A → K)
  | withRoles (roles : List Role) (body ok err : K)
  | requireRole (want : Role) (ok : K)
  /-- `allowed(store, key)`. -/
  | allowed (key : PyStr) (k : Bool → K)
  | ret
  | raise

variable {A K ι : Type}

/-- The next instruction of a task; `_ROLES_CTX` is its one variable. -/
def instr (program : K → List Role → Stmt A K) (k : K) (vars : Unit → List Role) :
    Instr Unit (List Role) (Reply A) K :=
  match program k (vars ()) with
  | .act f => .act fun a => f a.value
  | .withRoles roles body ok err => .enter [((), roles)] body ok err
  | .requireRole want ok => match requireRole (vars ()) want with
    | .ok _ => .act fun _ => ok
    | .error _ => .raise
  | .allowed key f => .act fun a => f (allowed a.flags (vars ()) key)
  | .ret => .ret
  | .raise => .raise

/-- What a statement does to the open blocks of its task, each of them with its roles. -/
def shift (program : K → List Role → Stmt A K) (k : K) (vars : Unit → List Role) :
    Task.Shift (List Role) :=
  match program k (vars ()) with
  | .act _ | .allowed _ _ => .stay
  | .withRoles roles _ _ _ => .opens roles
  | .requireRole want _ => if want ∈ vars () then .stay else .closes
  | .ret | .raise => .closes

/-- The roles of the innermost block, or those at the start of the task. -/
def innermost (base : List Role) : List (List Role) → List Role
  | [] => base
  | roles :: _ => roles

/-- The code of a task does what its statements say. -/
lemma performs (program : K → List Role → Stmt A K) :
    Task.Performs (instr program) (shift program) fun roles => [((), roles)] := by
  intro k vars
  rw [instr, shift]
  cases program k (vars ()) with
  | requireRole want ok => by_cases hwant : want ∈ vars () <;> simp [requireRole, hasRole, hwant]
  | withRoles roles body ok err => exact ⟨_, rfl, rfl⟩
  | act | allowed | ret | raise => rfl

/-- Variables that the frames of the open blocks explain are those of the innermost one. -/
lemma innermost_of_nested {base : List Role} {blocks : List (List Role × (Unit → List Role))}
    {frames : List (Frame Unit (List Role) K)} {vars : Unit → List Role}
    (h : Task.Nested (fun _ => base) frames vars)
    (hmatch : Task.Matches (fun roles => [((), roles)]) blocks frames) :
    vars () = innermost base (blocks.map Prod.fst) := by
  cases hmatch with
  | nil =>
    obtain rfl : vars = fun _ => base := h
    rfl
  | @cons b f _ _ hf _ =>
    obtain ⟨-, hset, -⟩ := h
    rw [hf.1] at hset
    obtain rfl : (Vars.setAll f.start [((), b.1)]).1 = vars := congrArg Prod.fst hset
    rfl

variable [DecidableEq ι]

/-- The tasks, each with a program, the roles that it was created with, and a first statement. -/
def tasks (program : ι → K → List Role → Stmt A K) (base : ι → List Role) (main : ι → K) :
    Machine (ι → Task Unit (List Role) K) (ι × Option (Reply A)) :=
  Lib.tasks (fun i => instr (program i)) (fun i _ => base i) main

variable {program : ι → K → List Role → Stmt A K} {base : ι → List Role} {main : ι → K}

/-- The blocks that are open in a task after a run, innermost first, each with the variables at its
start. -/
def opened (program : ι → K → List Role → Stmt A K) (base : ι → List Role) (main : ι → K) (i : ι)
    (s : ι → Task Unit (List Role) K) (es : List (ι × Option (Reply A))) :
    List (List Role × (Unit → List Role)) :=
  (tasks program base main).recorded (follow (shift (program i)) i) s es []

/-- The roles of the innermost block of a task after a run. -/
def current (program : ι → K → List Role → Stmt A K) (base : ι → List Role) (main : ι → K) (i : ι)
    (s : ι → Task Unit (List Role) K) (es : List (ι × Option (Reply A))) : List Role :=
  innermost (base i) ((opened program base main i s es).map Prod.fst)

/-- The frames of a task are those of the blocks that it has opened. -/
lemma matches_opened {s s' : ι → Task Unit (List Role) K} {es : List (ι × Option (Reply A))}
    (hs : (tasks program base main).init s) (hr : (tasks program base main).run s es = some s')
    (i : ι) : Task.Matches (fun roles => [((), roles)]) (opened program base main i s es)
      (s' i).frames := by
  refine Machine.recorded_invariant
    (I := fun s blocks => Task.Matches (fun roles => [((), roles)]) blocks (s i).frames) ?_ ?_ hr
  · intro s e t blocks h ht
    refine matches_follow ?_ h ht
    exact performs (program i)
  · obtain rfl := hs
    exact .nil

/-- What a step of the task shows when it runs `require_role`: it goes on with the role among
`roles`, and its innermost block ends by the exception without. -/
def Guarded (program : K → List Role → Stmt A K) (roles : List Role)
    (t t' : Task Unit (List Role) K) : Prop :=
  ∀ k want ok, t.status = .running k → program k (t.vars ()) = .requireRole want ok →
    t' = if want ∈ roles then { t with status := .running ok } else t.leave Frame.err .failed

/-- What a step of the task shows when it runs `allowed`: the gate is open exactly for an enabled
flag that lists one of `roles`. -/
def Gated (program : K → List Role → Stmt A K) (roles : List Role) (flags : PyStr → Option Flag)
    (t t' : Task Unit (List Role) K) : Prop :=
  ∀ k key f, t.status = .running k → program k (t.vars ()) = .allowed key f →
    ∃ isOpen, t' = { t with status := .running (f isOpen) } ∧
      (isOpen = true ↔ ∃ flag, flags key = some flag ∧ flag.enabled = true ∧
        ∃ r ∈ roles, r ∈ flag.roles)

/-- **The roles of a task are those of its innermost block, and `require_role` and the gates of the
flags go by them; a block gives back the roles of its start however it ends; and in a block for the
roles of some groups a role is one that a group grants.** -/
theorem roles_scoped {s s' : ι → Task Unit (List Role) K} {es : List (ι × Option (Reply A))}
    (hs : (tasks program base main).init s) (hr : (tasks program base main).run s es = some s')
    (i : ι) :
    (s' i).vars () = current program base main i s es ∧
      (∀ a t, (tasks program base main).step s' (i, some a) = some t →
        Guarded (program i) (current program base main i s es) (s' i) (t i) ∧
        Gated (program i) (current program base main i s es) a.flags (s' i) (t i)) ∧
      (∀ e t roles start, (tasks program base main).step s' e = some t →
        opened program base main i s es = (roles, start) :: opened program base main i s (es ++ [e]) →
        (t i).vars = start) ∧
      ∀ groups start rest,
        opened program base main i s es = (rolesFromGroups groups, start) :: rest →
        ∀ want, requireRole ((s' i).vars ()) want = .ok () ↔ Grants (groups.getD []) want := by
  have hreach := (Machine.Reachable.init hs).run hr
  have hnested : Task.Nested (fun _ => base i) (s' i).frames (s' i).vars :=
    nested_of_reachable
      (fun i => (performs (program i)).noRepeat fun _ => List.nodup_singleton _) hreach i
  have hmatch := matches_opened hs hr i
  have hinner : (s' i).vars () = current program base main i s es :=
    innermost_of_nested hnested hmatch
  refine ⟨hinner, fun a t ht => ⟨?_, ?_⟩, ?_, ?_⟩
  · intro k want ok hstatus hstmt
    obtain ⟨u, hu, rfl⟩ := tasks_step ht
    rw [Function.update_self, ← hinner]
    simp only [Task.step, hstatus, instr, hstmt, requireRole, hasRole] at hu
    by_cases hwant : want ∈ (s' i).vars ()
    · simp only [hwant, decide_true, if_true] at hu ⊢
      exact (Option.some.inj hu).symm
    · simp only [hwant, decide_false, Bool.false_eq_true, if_false] at hu ⊢
      exact (Option.some.inj hu).symm
  · intro k key f hstatus hstmt
    obtain ⟨u, hu, rfl⟩ := tasks_step ht
    simp only [Task.step, hstatus, instr, hstmt] at hu
    rw [Function.update_self, ← hinner]
    exact ⟨_, (Option.some.inj hu).symm, allowed_eq_true⟩
  · intro e t roles start ht hclosed
    have hmatch' := matches_opened hs (Machine.run_concat.mpr ⟨s', hr, ht⟩) i
    rw [hclosed] at hmatch
    exact vars_of_closed hnested hmatch ht hmatch'
  · intro groups start rest hopened want
    have hroles : (s' i).vars () = rolesFromGroups groups := by
      rw [hinner, current, hopened]
      rfl
    rw [← (rolesFromGroups_spec groups).2, hroles]
    simp [requireRole, hasRole]

section Example

/-- Two requests, of an administrator and of the support, that both ask for the administrator. -/
def adminProgram : Bool → ℕ → List Role → Stmt Unit ℕ
  | true, 0, _ => .withRoles (rolesFromGroups (some [text "omur-admin"])) 1 3 3
  | false, 0, _ => .withRoles (rolesFromGroups (some [text "omur-support"])) 1 3 3
  | _, 1, _ => .requireRole .admin 2
  | _, _, _ => .ret

/-- Both requests before their first statement. -/
def adminStart : Bool → Task Unit (List Role) ℕ := fun _ => ⟨fun _ => [], .running 0, []⟩

/-- Their machine. -/
def adminTasks : Machine (Bool → Task Unit (List Role) ℕ) (Bool × Option (Reply Unit)) :=
  tasks adminProgram (fun _ => []) fun _ => 0

/-- Both requests enter their blocks. -/
def bothEnter : List (Bool × Option (Reply Unit)) :=
  [(true, some ⟨(), fun _ => none⟩), (false, some ⟨(), fun _ => none⟩)]

/-- The administrator goes on, the support is refused. -/
theorem roles_scoped_interleaved : ∃ s t u, adminTasks.run adminStart bothEnter = some s ∧
    adminTasks.step s (true, some ⟨(), fun _ => none⟩) = some t ∧
    t true = { s true with status := .running 2 } ∧
    adminTasks.step s (false, some ⟨(), fun _ => none⟩) = some u ∧
    u false = (s false).leave Frame.err .failed ∧ (u false).vars () = [] := by
  obtain ⟨s, t, u, hs, hadmin, hsupport, ht, hu⟩ : ∃ s t u,
      adminTasks.run adminStart bothEnter = some s ∧
      ((s true).vars () = [.admin] ∧ (s true).status = .running 1) ∧
      ((s false).vars () = [.support] ∧ (s false).status = .running 1) ∧
      adminTasks.step s (true, some ⟨(), fun _ => none⟩) = some t ∧
      adminTasks.step s (false, some ⟨(), fun _ => none⟩) = some u :=
    ⟨_, _, _, rfl, ⟨rfl, rfl⟩, ⟨rfl, rfl⟩, rfl, rfl⟩
  have hinit : adminTasks.init adminStart := rfl
  obtain ⟨-, hguard, -⟩ := roles_scoped hinit hs true
  obtain ⟨-, hguard', hclose, -⟩ := roles_scoped hinit hs false
  have hroles : current adminProgram (fun _ => []) (fun _ => 0) true adminStart bothEnter =
      [.admin] := by decide
  have hroles' : current adminProgram (fun _ => []) (fun _ => 0) false adminStart bothEnter =
      [.support] := by decide
  refine ⟨s, t, u, hs, ht, ?_, hu, ?_, ?_⟩
  · have h := (hguard _ _ ht).1 1 .admin 2 hadmin.2 rfl
    rwa [hroles, if_pos (List.mem_singleton.mpr rfl)] at h
  · have h := (hguard' _ _ hu).1 1 .admin 2 hsupport.2 rfl
    rwa [hroles', if_neg (by decide)] at h
  · rw [hclose _ u _ _ hu rfl]
    rfl

end Example

end Omkit.Auth
