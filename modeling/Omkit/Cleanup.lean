import Omkit.Lib.AdvisoryLocks
import Omkit.Lib.Machine
import Mathlib.Tactic

/-!
# Cleanup on one replica

`Loop.run`: each tick takes a connection from the pool, tries the advisory lock of the cleanup, and
runs the task while it has the lock.  A tick may fail or be cancelled wherever it waits; then the
lock may stay with the session, until the pool resets the connection that it gets back.
-/

namespace Omkit.Cleanup

open Lib

/-- `Loop`, with what decides whether its task runs. -/
structure Loop (π : Type) where
  pool : π
  lockKey : ℤ

/-- What is raised where the loop waits: an exception, or the cancellation of the task that runs
it. -/
inductive Failure
  | exception
  | cancelled
deriving DecidableEq

/-- Where `run` stands.  An outcome is what the `async with` block ends with. -/
inductive Phase (γ : Type)
  /-- Not started, or in `asyncio.sleep`. -/
  | asleep
  /-- In `pool.acquire()`. -/
  | acquiring
  /-- In `conn.fetchval("SELECT pg_try_advisory_lock($1)")`. -/
  | locking (c : γ)
  /-- In the task. -/
  | running (c : γ)
  /-- In `conn.execute("SELECT pg_advisory_unlock($1)")`. -/
  | unlocking (c : γ) (outcome : Option Failure)
  /-- At the end of the `async with` block, while the connection goes back to the pool. -/
  | releasing (c : γ) (outcome : Option Failure)
  /-- The loop has ended. -/
  | ended

/-- The connection of a tick. -/
def Phase.conn {γ : Type} : Phase γ → Option γ
  | .locking c | .running c | .unlocking c _ | .releasing c _ => some c
  | _ => none

/-- After a tick: `except Exception` lets a cancellation through. -/
def Phase.next {γ : Type} : Option Failure → Phase γ
  | some .cancelled => .ended
  | _ => .asleep

/-- A statement of a tick. -/
inductive Query
  | tryLock (k : ℤ)
  | unlock (k : ℤ)
deriving DecidableEq

/-- Whose a connection is. -/
inductive Use (ι : Type)
  /-- In its pool. -/
  | idle
  /-- Taken by a loop. -/
  | busy (i : ι)
  /-- Given back, and being reset; the loop may be waiting for that. -/
  | resetting (waiter : Option ι)

/-- The loop that a connection is on. -/
def Use.loop {ι : Type} : Use ι → Option ι
  | .idle => none
  | .busy i => some i
  | .resetting waiter => waiter

/-- A connection: a statement that was sent and that the server has still to execute, and the result
of the last one. -/
structure Conn (ι : Type) where
  use : Use ι
  sent : Option Query
  reply : Option Bool

/-- The loops and the connections of all processes. -/
structure Fleet (ι γ π : Type) where
  loop : ι → Loop π
  pool : γ → π

structure State (ι γ : Type) where
  phase : ι → Phase γ
  conn : γ → Conn ι
  locks : AdvisoryLocks ℤ γ

variable {ι γ π : Type} [DecidableEq ι] [DecidableEq γ]

namespace State

/-- The task of a loop is executing. -/
def Executing (s : State ι γ) (i : ι) : Prop := ∃ c, s.phase i = .running c

/-- No loop has started, every connection is in its pool, and no lock is held. -/
def initial : State ι γ := ⟨fun _ => .asleep, fun _ => ⟨.idle, none, none⟩, .free⟩

def goto (s : State ι γ) (i : ι) (p : Phase γ) : State ι γ :=
  { s with phase := Function.update s.phase i p }

def put (s : State ι γ) (c : γ) (x : Conn ι) : State ι γ :=
  { s with conn := Function.update s.conn c x }

/-- The loop sends a statement. -/
def send (s : State ι γ) (i : ι) (c : γ) (q : Query) : State ι γ := s.put c ⟨.busy i, some q, none⟩

/-- The block around a connection ends, and the pool begins to reset the connection. -/
def release (s : State ι γ) (i : ι) (c : γ) (outcome : Option Failure) : State ι γ :=
  (s.put c { s.conn c with use := .resetting (some i) }).goto i (.releasing c outcome)

/-- The server executes a statement. -/
def execute (s : State ι γ) (c : γ) (q : Query) : State ι γ :=
  let (reply, locks) := match q with
    | .tryLock k => s.locks.tryLock c k
    | .unlock k => s.locks.unlock c k
  { s.put c { s.conn c with sent := none, reply := some reply } with locks }

/-- The reset of a connection is done: it holds no lock, and is in its pool again. -/
def reset (s : State ι γ) (c : γ) : State ι γ :=
  { s.put c ⟨.idle, none, none⟩ with locks := s.locks.unlockAll c }

end State

inductive Action (ι γ : Type)
  /-- A tick begins. -/
  | tick (i : ι)
  /-- The pool has given the loop a connection. -/
  | acquired (i : ι) (c : γ)
  /-- The server executes the statement that was sent to it. -/
  | execute (c : γ)
  /-- The server does not execute a statement whose sender has given up. -/
  | drop (c : γ)
  /-- The loop gets the result of its statement. -/
  | reply (i : ι)
  /-- The task returns, or raises. -/
  | finish (i : ι) (outcome : Option Failure)
  /-- An `await` of the loop itself raises. -/
  | fail (i : ι) (e : Failure)
  /-- The pool has reset a connection. -/
  | reset (c : γ)

/-- One step of the loops, of the server or of a pool. -/
def step [DecidableEq π] (fleet : Fleet ι γ π) (s : State ι γ) : Action ι γ → Option (State ι γ)
  | .tick i => match s.phase i with
    | .asleep => some (s.goto i .acquiring)
    | _ => none
  | .acquired i c => match s.phase i, (s.conn c).use with
    | .acquiring, .idle =>
      if fleet.pool c = (fleet.loop i).pool then
        some ((s.send i c (.tryLock (fleet.loop i).lockKey)).goto i (.locking c))
      else none
    | _, _ => none
  | .execute c => match (s.conn c).sent with
    | some q => some (s.execute c q)
    | none => none
  | .drop c => match (s.conn c).use with
    | .resetting _ => some (s.put c { s.conn c with sent := none })
    | _ => none
  | .reply i => match s.phase i with
    | .locking c => match (s.conn c).reply with
      | some true => some (s.goto i (.running c))
      | some false => some (s.release i c none)
      | none => none
    | .unlocking c outcome => match (s.conn c).reply with
      | some _ => some (s.release i c outcome)
      | none => none
    | _ => none
  | .finish i outcome => match s.phase i with
    | .running c =>
      some ((s.send i c (.unlock (fleet.loop i).lockKey)).goto i (.unlocking c outcome))
    | _ => none
  | .fail i e => match s.phase i, e with
    | .asleep, .cancelled => some (s.goto i .ended)
    | .acquiring, e => some (s.goto i (.next (some e)))
    | .locking c, e => some (s.release i c (some e))
    | .unlocking c _, e => some (s.release i c (some e))
    -- the reset is shielded: it goes on, and the loop does not wait for it
    | .releasing c _, .cancelled =>
      some ((s.put c { s.conn c with use := .resetting none }).goto i .ended)
    | _, _ => none
  | .reset c => match (s.conn c).use, (s.conn c).sent with
    | .resetting none, none => some (s.reset c)
    | .resetting (some i), none => match s.phase i with
      | .releasing _ outcome => some ((s.reset c).goto i (.next outcome))
      | _ => none
    | _, _ => none

/-- The loops, on one server. -/
def machine [DecidableEq π] (fleet : Fleet ι γ π) : Machine (State ι γ) (Action ι γ) where
  init s := s = .initial
  step := step fleet

/-! ## The invariant -/

section Invariant

variable {fleet : Fleet ι γ π} {s s' : State ι γ} {i j : ι} {c c' : γ}

omit [DecidableEq γ] in
@[simp] lemma goto_phase_self (s : State ι γ) (i : ι) (p : Phase γ) : (s.goto i p).phase i = p :=
  Function.update_self ..

omit [DecidableEq γ] in
lemma goto_phase_ne (s : State ι γ) (p : Phase γ) (h : j ≠ i) : (s.goto i p).phase j = s.phase j :=
  Function.update_of_ne h ..

/-- What the connection of a loop is like in each phase. -/
def PhaseOk (fleet : Fleet ι γ π) (s : State ι γ) (i : ι) : Phase γ → Prop
  | .locking c => (s.conn c).use = .busy i ∧
      (∀ q ∈ (s.conn c).sent, q = .tryLock (fleet.loop i).lockKey ∧ (s.conn c).reply = none) ∧
      ((s.conn c).reply = some true → s.locks.Holds c (fleet.loop i).lockKey)
  | .running c => (s.conn c).use = .busy i ∧ (s.conn c).sent = none ∧
      s.locks.Holds c (fleet.loop i).lockKey
  | .unlocking c _ => (s.conn c).use = .busy i
  | .releasing c _ => (s.conn c).use = .resetting (some i)
  | _ => True

/-- A connection in its pool holds no lock. -/
def ConnOk (s : State ι γ) (c : γ) : Prop :=
  (s.conn c).use = .idle → (s.conn c).sent = none ∧ ∀ k, ¬ s.locks.Holds c k

/-- The invariant of the fleet. -/
structure Inv (fleet : Fleet ι γ π) (s : State ι γ) : Prop where
  phase : ∀ i, PhaseOk fleet s i (s.phase i)
  conn : ∀ c, ConnOk s c

/-- Only the connection `c`, and what it holds, may differ. -/
structure Frame (s s' : State ι γ) (c : γ) : Prop where
  conn : ∀ c' ≠ c, s'.conn c' = s.conn c'
  locks : ∀ c' ≠ c, ∀ k, s'.locks.Holds c' k ↔ s.locks.Holds c' k

variable {p : Phase γ}

section Phases

omit [DecidableEq ι] [DecidableEq γ]

lemma phaseOk_of_conn (h : p.conn = none) : PhaseOk fleet s i p := by
  cases p with
  | asleep | acquiring | ended => trivial
  | locking c | running c | unlocking c outcome | releasing c outcome => cases h

/-- A loop is on the connection of its phase. -/
lemma PhaseOk.use (h : PhaseOk fleet s i p) (hc : p.conn = some c) :
    (s.conn c).use.loop = some i := by
  cases p with
  | asleep | acquiring | ended => cases hc
  | locking c' | running c' =>
    obtain rfl := Option.some.inj hc
    exact congrArg Use.loop h.1
  | unlocking c' outcome | releasing c' outcome =>
    obtain rfl := Option.some.inj hc
    exact congrArg Use.loop h

/-- A loop is on a connection that is being reset only at the end of its block. -/
lemma PhaseOk.releasing (h : PhaseOk fleet s i p) {waiter : Option ι}
    (huse : (s.conn c).use = .resetting waiter) (hc : p.conn = some c) :
    ∃ outcome, p = .releasing c outcome := by
  cases p with
  | asleep | acquiring | ended => cases hc
  | locking c' | running c' =>
    obtain rfl := Option.some.inj hc
    cases h.1.symm.trans huse
  | unlocking c' outcome =>
    obtain rfl := Option.some.inj hc
    cases h.symm.trans huse
  | releasing c' outcome =>
    obtain rfl := Option.some.inj hc
    exact ⟨outcome, rfl⟩

/-- What happens on one connection does not concern the loops on others. -/
lemma PhaseOk.frame (h : PhaseOk fleet s i p) (hframe : Frame s s' c) (hc : p.conn ≠ some c) :
    PhaseOk fleet s' i p := by
  cases p with
  | asleep | acquiring | ended => trivial
  | locking c' | running c' | unlocking c' outcome | releasing c' outcome =>
    have hne : c' ≠ c := fun heq => hc (congrArg some heq)
    simpa only [PhaseOk, hframe.conn c' hne, hframe.locks c' hne] using h

/-- A step on one connection. -/
lemma Inv.step (hI : Inv fleet s) (hframe : Frame s s' c) (hconn : ConnOk s' c)
    (hphase : ∀ j, PhaseOk fleet s' j (s'.phase j) ∨
      s'.phase j = s.phase j ∧ (s.phase j).conn ≠ some c) : Inv fleet s' := by
  refine ⟨fun j => ?_, fun c' => ?_⟩
  · rcases hphase j with h | ⟨hsame, hne⟩
    · exact h
    · rw [hsame]
      exact (hI.phase j).frame hframe hne
  · by_cases hc : c' = c
    · exact hc ▸ hconn
    · have h := hI.conn c'
      simpa only [ConnOk, hframe.conn c' hc, hframe.locks c' hc] using h

end Phases

omit [DecidableEq ι] [DecidableEq γ] in
lemma Frame.refl (s : State ι γ) (c : γ) : Frame s s c := ⟨fun _ _ => rfl, fun _ _ _ => Iff.rfl⟩

omit [DecidableEq ι] in
lemma Frame.put (s : State ι γ) (c : γ) (x : Conn ι) : Frame s (s.put c x) c where
  conn _ hc := Function.update_of_ne hc ..
  locks _ _ _ := Iff.rfl

omit [DecidableEq γ] in
lemma Frame.goto (h : Frame s s' c) (i : ι) (p : Phase γ) : Frame s (s'.goto i p) c :=
  ⟨h.conn, h.locks⟩

omit [DecidableEq ι] in
lemma Frame.execute (s : State ι γ) (c : γ) (q : Query) : Frame s (s.execute c q) c where
  conn _ hc := Function.update_of_ne hc ..
  locks _ hc _ := by
    cases q with
    | tryLock k => exact AdvisoryLocks.holds_tryLock_of_ne hc
    | unlock k => exact AdvisoryLocks.holds_unlock_of_ne hc

omit [DecidableEq ι] in
lemma Frame.reset (s : State ι γ) (c : γ) : Frame s (s.reset c) c where
  conn _ hc := Function.update_of_ne hc ..
  locks _ hc _ := AdvisoryLocks.holds_unlockAll_of_ne hc

omit [DecidableEq ι] in
@[simp] lemma put_conn_self (s : State ι γ) (c : γ) (x : Conn ι) : (s.put c x).conn c = x :=
  Function.update_self ..

omit [DecidableEq ι] in
@[simp] lemma send_conn_self (s : State ι γ) (i : ι) (c : γ) (q : Query) :
    (s.send i c q).conn c = ⟨.busy i, some q, none⟩ :=
  Function.update_self ..

/-- What a step can do. -/
inductive Move (fleet : Fleet ι γ π) (s : State ι γ) : State ι γ → Prop
  /-- A loop goes on without a connection. -/
  | goto (i : ι) (p : Phase γ) (hi : (s.phase i).conn = none) (hp : p.conn = none) :
      Move fleet s (s.goto i p)
  | acquired (i : ι) (c : γ) (hi : s.phase i = .acquiring) (hc : (s.conn c).use = .idle) :
      Move fleet s ((s.send i c (.tryLock (fleet.loop i).lockKey)).goto i (.locking c))
  | execute (c : γ) (q : Query) (hq : (s.conn c).sent = some q) : Move fleet s (s.execute c q)
  | drop (c : γ) (waiter : Option ι) (hc : (s.conn c).use = .resetting waiter) :
      Move fleet s (s.put c { s.conn c with sent := none })
  /-- The lock was free. -/
  | locked (i : ι) (c : γ) (hi : s.phase i = .locking c) (hr : (s.conn c).reply = some true) :
      Move fleet s (s.goto i (.running c))
  | finish (i : ι) (c : γ) (outcome : Option Failure) (hi : s.phase i = .running c) :
      Move fleet s
        ((s.send i c (.unlock (fleet.loop i).lockKey)).goto i (.unlocking c outcome))
  | release (i : ι) (c : γ) (outcome : Option Failure) (hi : (s.phase i).conn = some c) :
      Move fleet s (s.release i c outcome)
  | abandon (i : ι) (c : γ) (outcome : Option Failure) (hi : s.phase i = .releasing c outcome) :
      Move fleet s ((s.put c { s.conn c with use := .resetting none }).goto i .ended)
  | reset (c : γ) (hc : (s.conn c).use = .resetting none) : Move fleet s (s.reset c)
  | released (i : ι) (c : γ) (p : Phase γ) (hc : (s.conn c).use = .resetting (some i))
      (hp : p.conn = none) : Move fleet s ((s.reset c).goto i p)

omit [DecidableEq ι] [DecidableEq γ] in
lemma next_conn (outcome : Option Failure) : (Phase.next outcome : Phase γ).conn = none := by
  rcases outcome with _ | (_ | _) <;> rfl

lemma move_of_step [DecidableEq π] {a : Action ι γ} (h : step fleet s a = some s') :
    Move fleet s s' := by
  cases a with
  | tick i =>
    simp only [step] at h
    split at h
    · next hi =>
      obtain rfl := Option.some.inj h
      exact .goto i _ (by rw [hi]; rfl) rfl
    · cases h
  | acquired i c =>
    simp only [step] at h
    split at h
    · next hi hc =>
      split_ifs at h
      obtain rfl := Option.some.inj h
      exact .acquired i c hi hc
    · cases h
  | execute c =>
    simp only [step] at h
    split at h
    · next q hq =>
      obtain rfl := Option.some.inj h
      exact .execute c q hq
    · cases h
  | drop c =>
    simp only [step] at h
    split at h
    · next waiter hc =>
      obtain rfl := Option.some.inj h
      exact .drop c waiter hc
    · cases h
  | reply i =>
    simp only [step] at h
    split at h
    · next c hi =>
      have hconn : (s.phase i).conn = some c := by rw [hi]; rfl
      split at h
      · next hr =>
        obtain rfl := Option.some.inj h
        exact .locked i c hi hr
      · obtain rfl := Option.some.inj h
        exact .release i c none hconn
      · cases h
    · next c outcome hi =>
      have hconn : (s.phase i).conn = some c := by rw [hi]; rfl
      split at h
      · obtain rfl := Option.some.inj h
        exact .release i c outcome hconn
      · cases h
    · cases h
  | finish i outcome =>
    simp only [step] at h
    split at h
    · next c hi =>
      obtain rfl := Option.some.inj h
      exact .finish i c outcome hi
    · cases h
  | fail i e =>
    simp only [step] at h
    split at h
    · next hi =>
      obtain rfl := Option.some.inj h
      exact .goto i _ (by rw [hi]; rfl) rfl
    · next hi =>
      obtain rfl := Option.some.inj h
      exact .goto i _ (by rw [hi]; rfl) (next_conn _)
    · next c hi =>
      obtain rfl := Option.some.inj h
      exact .release i c _ (by rw [hi]; rfl)
    · next c outcome hi =>
      obtain rfl := Option.some.inj h
      exact .release i c _ (by rw [hi]; rfl)
    · next c outcome hi =>
      obtain rfl := Option.some.inj h
      exact .abandon i c outcome hi
    · cases h
  | reset c =>
    simp only [step] at h
    split at h
    · next hc _ =>
      obtain rfl := Option.some.inj h
      exact .reset c hc
    · next i hc _ =>
      split at h
      · obtain rfl := Option.some.inj h
        exact .released i c _ hc (next_conn _)
      · cases h
    · cases h

omit [DecidableEq ι] in
lemma connOk_put {x : Conn ι} (h : x.use ≠ .idle) : ConnOk (s.put c x) c := by
  intro hidle
  rw [put_conn_self] at hidle
  exact absurd hidle h

omit [DecidableEq ι] in
/-- A connection that has been reset holds nothing. -/
lemma connOk_reset : ConnOk (s.reset c) c := by
  intro _
  refine ⟨?_, fun k => AdvisoryLocks.not_holds_unlockAll⟩
  show ((s.put c ⟨.idle, none, none⟩).conn c).sent = none
  rw [put_conn_self]

omit [DecidableEq γ] in
/-- A loop that goes on without a connection. -/
lemma Inv.goto (hI : Inv fleet s) (hp : p.conn = none) : Inv fleet (s.goto i p) := by
  refine ⟨fun j => ?_, hI.conn⟩
  by_cases hj : j = i
  · rw [hj, goto_phase_self]
    exact phaseOk_of_conn hp
  · rw [goto_phase_ne _ _ hj]
    exact hI.phase j

omit [DecidableEq γ] in
/-- A step of one loop on its connection. -/
lemma Inv.step_loop (hI : Inv fleet s) (hframe : Frame s s' c) (hphase : s'.phase = s.phase)
    (hc : (s.conn c).use.loop = none ∨ (s.conn c).use.loop = some i) (hconn : ConnOk s' c)
    (hp : PhaseOk fleet s' i p) : Inv fleet (s'.goto i p) := by
  refine hI.step (hframe.goto i p) hconn fun j => ?_
  by_cases hj : j = i
  · left
    rw [hj, goto_phase_self]
    exact hp
  · refine Or.inr ⟨by rw [goto_phase_ne _ _ hj, hphase], fun hjc => ?_⟩
    -- another loop on this connection would be the one that it is on
    have huse := (hI.phase j).use hjc
    rcases hc with hc | hc
    · cases hc.symm.trans huse
    · exact hj (Option.some.inj (huse.symm.trans hc))

omit [DecidableEq ι] in
/-- The server executes a statement: a loop that waits for the lock has it now, if that is the
result. -/
lemma Inv.execute (hI : Inv fleet s) {q : Query} (hq : (s.conn c).sent = some q) :
    Inv fleet (s.execute c q) := by
  have hphase : (s.execute c q).phase = s.phase := by cases q <;> rfl
  have huse : ((s.execute c q).conn c).use = (s.conn c).use := by
    cases q <;> simp [State.execute]
  have hsent : ((s.execute c q).conn c).sent = none := by cases q <;> simp [State.execute]
  refine hI.step (.execute s c q) (fun hidle => ?_) fun j => ?_
  · -- a connection in its pool has no statement to execute
    rw [huse] at hidle
    cases hq.symm.trans (hI.conn c hidle).1
  · rw [hphase]
    by_cases hj : (s.phase j).conn = some c
    · left
      have h := hI.phase j
      cases hp : s.phase j with
      | asleep | acquiring | ended => trivial
      | locking c' =>
        rw [hp] at h hj
        obtain rfl := Option.some.inj hj
        obtain ⟨hbusy, hquery, -⟩ := h
        obtain ⟨rfl, -⟩ := hquery q hq
        refine ⟨huse.trans hbusy, by simp [hsent], fun hreply => ?_⟩
        refine AdvisoryLocks.holds_of_tryLock ?_
        simpa [State.execute] using hreply
      | running c' =>
        rw [hp] at h hj
        obtain rfl := Option.some.inj hj
        cases hq.symm.trans h.2.1
      | unlocking c' outcome | releasing c' outcome =>
        rw [hp] at h hj
        obtain rfl := Option.some.inj hj
        exact huse.trans h
    · exact Or.inr ⟨rfl, hj⟩

/-- **Every step keeps the invariant.** -/
lemma Inv.move (hI : Inv fleet s) (h : Move fleet s s') : Inv fleet s' := by
  cases h with
  | goto i p hi hp => exact hI.goto hp
  | acquired i c hi hc =>
    refine hI.step_loop (.put s c _) rfl (Or.inl (by rw [hc]; rfl)) (connOk_put (by simp)) ?_
    simp [PhaseOk]
  | execute c q hq => exact hI.execute hq
  | drop c waiter hc =>
    refine hI.step (.put s c _) (connOk_put (by simp [hc])) fun j => ?_
    by_cases hj : (s.phase j).conn = some c
    · left
      have h := hI.phase j
      obtain ⟨outcome, hp⟩ := h.releasing hc hj
      show PhaseOk fleet (s.put c { s.conn c with sent := none }) j (s.phase j)
      rw [hp] at h ⊢
      simpa only [PhaseOk, put_conn_self] using h
    · exact Or.inr ⟨rfl, hj⟩
  | locked i c hi hr =>
    have h := hI.phase i
    rw [hi] at h
    obtain ⟨hbusy, hquery, hholds⟩ := h
    -- the result is there, so nothing is sent
    have hsent : (s.conn c).sent = none := by
      cases hq : (s.conn c).sent with
      | none => rfl
      | some q => cases hr.symm.trans (hquery q hq).2
    exact hI.step_loop (.refl s c) rfl (Or.inr (by rw [hbusy]; rfl)) (hI.conn c)
      ⟨hbusy, hsent, hholds hr⟩
  | finish i c outcome hi =>
    have huse := (hI.phase i).use (by rw [hi]; rfl)
    refine hI.step_loop (.put s c _) rfl (Or.inr huse) (connOk_put (by simp)) ?_
    simp [PhaseOk]
  | release i c outcome hi =>
    have huse := (hI.phase i).use hi
    refine hI.step_loop (.put s c _) rfl (Or.inr huse) (connOk_put (by simp)) ?_
    simp [PhaseOk]
  | abandon i c outcome hi =>
    have huse := (hI.phase i).use (by rw [hi]; rfl)
    exact hI.step_loop (.put s c _) rfl (Or.inr huse) (connOk_put (by simp)) trivial
  | reset c hc =>
    refine hI.step (.reset s c) connOk_reset fun j => Or.inr ⟨rfl, fun hj => ?_⟩
    have huse := (hI.phase j).use hj
    rw [hc] at huse
    cases huse
  | released i c p hc hp =>
    exact hI.step_loop (.reset s c) rfl (Or.inr (by rw [hc]; rfl)) connOk_reset
      (phaseOk_of_conn hp)

variable [DecidableEq π]

lemma inv_of_reachable (h : (machine fleet).Reachable s) : Inv fleet s := by
  refine h.invariant ?_ fun s a s' hI hs => hI.move (move_of_step hs)
  rintro s rfl
  exact ⟨fun i => trivial, fun c _ => ⟨rfl, fun k => AdvisoryLocks.not_holds_free⟩⟩

end Invariant

/-- **At most one task of a lock key executes, and when every connection is back in its pool no
session holds a lock.** -/
theorem cleanup_exclusive [DecidableEq π] {fleet : Fleet ι γ π} {s : State ι γ}
    (h : (machine fleet).Reachable s) :
    (∀ i j, (fleet.loop i).lockKey = (fleet.loop j).lockKey → s.Executing i → s.Executing j →
      i = j) ∧
    ((∀ c, (s.conn c).use = .idle) → ∀ c k, ¬ s.locks.Holds c k) := by
  have hI := inv_of_reachable h
  constructor
  · rintro i j hkey ⟨c, hi⟩ ⟨c', hj⟩
    have hp := hI.phase i
    have hp' := hI.phase j
    rw [hi] at hp
    rw [hj] at hp'
    obtain ⟨hbusy, -, hholds⟩ := hp
    obtain ⟨hbusy', -, hholds'⟩ := hp'
    rw [← hkey] at hholds'
    -- one session has the lock, and it is on one loop
    obtain rfl := hholds.unique hholds'
    exact Use.busy.inj (hbusy.symm.trans hbusy')
  · intro hidle c
    exact (hI.conn c (hidle c)).2

section Example

/-- Two replicas with a pool each, and a connection in each pool. -/
def twoReplicas : Fleet Bool Bool Bool := ⟨fun i => ⟨i, 9991⟩, id⟩

/-- The first replica runs its task, the second does not get the lock; then the task raises, the
unlock fails, and the pool resets the connection. -/
def failingTick : List (Action Bool Bool) :=
  [.tick true, .tick false, .acquired true true, .acquired false false, .execute true,
    .execute false, .reply true, .reply false, .finish true (some .exception),
    .fail true .exception, .drop true, .reset true, .reset false]

theorem cleanup_exclusive_failingTick : ∃ s, (machine twoReplicas).run .initial failingTick = some s ∧
    ∀ c k, ¬ s.locks.Holds c k := by
  obtain ⟨s, hs, hidle⟩ : ∃ s, (machine twoReplicas).run .initial failingTick = some s ∧
      ∀ c, (s.conn c).use = .idle := ⟨_, rfl, by intro c; cases c <;> rfl⟩
  exact ⟨s, hs, (cleanup_exclusive ((Machine.Reachable.init rfl).run hs)).2 hidle⟩

end Example

end Omkit.Cleanup
