import Mathlib.Algebra.Order.Ring.Rat
import Omkit.Featureflags.Flag
import Omkit.Lib.Machine

/-!
# The cache of flags

`PostgresStore`: reads are answered from a map that refreshes replace and invalidations shrink,
both under one lock.  A refresh holds the lock from before it reads the database until it has
published the result, so that no invalidation falls between the two.
-/

namespace Omkit.Featureflags

open Lib

/-- A coroutine that takes the lock. -/
inductive Work
  | refresh
  | invalidate (key : PyStr)
deriving DecidableEq

/-- What has happened to the cache. -/
inductive Event
  /-- A refresh has called the refresher, which goes on to read the database. -/
  | began (id : ℕ)
  | published (id : ℕ) (fresh : Dict PyStr Flag)
  | failed (id : ℕ)
  | invalidated (key : PyStr)

/-- A `PostgresStore`, the coroutines that use it, and its history, the latest event first. -/
structure State where
  /-- `_ttl`. -/
  ttl : ℚ
  /-- `_flags`. -/
  flags : Dict PyStr Flag
  /-- `_last_refreshed`. -/
  lastRefreshed : ℚ
  /-- `time.monotonic()`. -/
  now : ℚ
  /-- The number of coroutines so far. -/
  calls : ℕ
  /-- The coroutines that wait for `_refresh_lock`. -/
  waiting : List (ℕ × Work)
  /-- The refresh that holds `_refresh_lock` and awaits its refresher. -/
  lock : Option ℕ
  log : List Event

/-- What may happen next. -/
inductive Action
  | tick (t : ℚ)
  /-- `get` or `all_flags`; is there a running loop? -/
  | read (loop : Bool)
  /-- `refresh` or `invalidate` is called. -/
  | call (work : Work)
  /-- A coroutine that waits for the lock gets it; asyncio takes them in order, here it may be any
  of them. -/
  | acquire (id : ℕ)
  /-- The refresher returns. -/
  | publish (id : ℕ) (fresh : Dict PyStr Flag)
  /-- The refresher raises an `Exception`. -/
  | fail (id : ℕ)
  /-- A coroutine is cancelled. -/
  | cancel (id : ℕ)

namespace State

/-- `_stale`. -/
def stale (s : State) : Bool := s.lastRefreshed = 0 || s.now - s.lastRefreshed > s.ttl

/-- `get`, after what it starts. -/
def get (s : State) (key : PyStr) : Option Flag := s.flags.get? key

/-- A coroutine starts and comes to the lock. -/
def start (s : State) (work : Work) : State :=
  { s with calls := s.calls + 1, waiting := s.waiting ++ [(s.calls, work)] }

/-- `_kick_refresh`. -/
def kickRefresh (s : State) (loop : Bool) : State := if loop then s.start .refresh else s

/-- A coroutine enters `async with self._refresh_lock`: an invalidation does all it does there
without waiting, a refresh calls the refresher. -/
def enter (s : State) (id : ℕ) (work : Work) : State :=
  let s := { s with waiting := s.waiting.filter fun p => p.1 ≠ id }
  match work with
  | .refresh => { s with lock := some id, log := .began id :: s.log }
  | .invalidate key => { s with flags := s.flags.pop key, log := .invalidated key :: s.log }

end State

/-- One step. -/
def step (s : State) : Action → Option State
  | .tick t => if s.now ≤ t then some { s with now := t } else none
  | .read loop => some (if s.stale then s.kickRefresh loop else s)
  | .call work => some (s.start work)
  | .acquire id =>
    if s.lock = none then (s.waiting.lookup id).map (s.enter id) else none
  | .publish id fresh =>
    if s.lock = some id then
      some { s with
        flags := fresh, lastRefreshed := s.now, lock := none, log := .published id fresh :: s.log }
    else none
  | .fail id =>
    if s.lock = some id then some { s with lock := none, log := .failed id :: s.log } else none
  | .cancel id =>
    if s.lock = some id then some { s with lock := none }
    else some { s with waiting := s.waiting.filter fun p => p.1 ≠ id }

/-- What one step can do. -/
inductive Move (s : State) : Action → State → Prop
  | tick {t : ℚ} : Move s (.tick t) { s with now := t }
  | fresh {loop : Bool} : Move s (.read loop) s
  | kick {loop : Bool} : Move s (.read loop) (s.start .refresh)
  | call {work : Work} : Move s (.call work) (s.start work)
  | enter {id : ℕ} {work : Work} (hlock : s.lock = none)
    (hwork : s.waiting.lookup id = some work) : Move s (.acquire id) (s.enter id work)
  | publish {id : ℕ} {fresh : Dict PyStr Flag} (hlock : s.lock = some id) :
    Move s (.publish id fresh) { s with
      flags := fresh, lastRefreshed := s.now, lock := none, log := .published id fresh :: s.log }
  | fail {id : ℕ} (hlock : s.lock = some id) :
    Move s (.fail id) { s with lock := none, log := .failed id :: s.log }
  | release {id : ℕ} : Move s (.cancel id) { s with lock := none }
  | leave {id : ℕ} :
    Move s (.cancel id) { s with waiting := s.waiting.filter fun p => p.1 ≠ id }

lemma move_of_step {s t : State} {a : Action} (hs : step s a = some t) : Move s a t := by
  cases a with
  | tick now =>
    rw [step, Option.ite_none_right_eq_some] at hs
    obtain ⟨-, hs⟩ := hs
    obtain rfl := Option.some.inj hs
    exact .tick
  | read loop =>
    obtain rfl := Option.some.inj hs
    split
    · unfold State.kickRefresh
      split
      · exact .kick
      · exact .fresh
    · exact .fresh
  | call work =>
    obtain rfl := Option.some.inj hs
    exact .call
  | acquire id =>
    rw [step, Option.ite_none_right_eq_some] at hs
    obtain ⟨hlock, hs⟩ := hs
    obtain ⟨work, hwork, rfl⟩ := Option.map_eq_some_iff.mp hs
    exact .enter hlock hwork
  | publish id fresh =>
    rw [step, Option.ite_none_right_eq_some] at hs
    obtain ⟨hlock, hs⟩ := hs
    obtain rfl := Option.some.inj hs
    exact .publish hlock
  | fail id =>
    rw [step, Option.ite_none_right_eq_some] at hs
    obtain ⟨hlock, hs⟩ := hs
    obtain rfl := Option.some.inj hs
    exact .fail hlock
  | cancel id =>
    rw [step] at hs
    split at hs
    · obtain rfl := Option.some.inj hs
      exact .release
    · obtain rfl := Option.some.inj hs
      exact .leave

/-- A new store, at any time. -/
def machine : Machine State Action where
  init s := ∃ ttl now, s = ⟨ttl, .empty, 0, now, 0, [], none, []⟩
  step := step

/-! ## The history -/

/-- The result of the last refresh that has succeeded. -/
def lastResult : List Event → Dict PyStr Flag
  | [] => .empty
  | .published _ fresh :: _ => fresh
  | _ :: log => lastResult log

/-- The keys invalidated since the last refresh that has succeeded. -/
def invalidatedSince : List Event → List PyStr
  | [] => []
  | .published _ _ :: _ => []
  | .invalidated key :: log => key :: invalidatedSince log
  | _ :: log => invalidatedSince log

/-- The read of a refresh has begun, and nothing has been invalidated since. -/
def BegunSince (id : ℕ) (log : List Event) : Prop :=
  ∃ newer older, log = newer ++ .began id :: older ∧ ∀ key, .invalidated key ∉ newer

/-- Without a refresh that has succeeded in them, the latest events only add to the keys that are
invalidated. -/
lemma mem_invalidatedSince {newer older : List Event} {key : PyStr}
    (h : ∀ id fresh, .published id fresh ∉ newer) :
    key ∈ invalidatedSince (newer ++ .invalidated key :: older) := by
  induction newer with
  | nil => simp [invalidatedSince]
  | cons e newer ih =>
    have ih := ih fun id fresh hmem => h id fresh (List.mem_cons_of_mem _ hmem)
    cases e with
    | published id fresh => exact absurd (List.mem_cons_self ..) (h id fresh)
    | invalidated k => exact List.mem_cons_of_mem _ ih
    | began id => exact ih
    | failed id => exact ih

/-! ## The invariant -/

/-- What holds in every state reached. -/
structure Inv (s : State) : Prop where
  /-- The map is the last result without the keys invalidated since. -/
  map : s.flags.items =
    (lastResult s.log).items.filter fun p => p.1 ∉ invalidatedSince s.log
  /-- Nothing has been invalidated since the read of the refresh that holds the lock. -/
  reading : ∀ id, s.lock = some id → BegunSince id s.log
  /-- Nothing was invalidated between the read of a refresh and its publication. -/
  publication : ∀ newer id fresh older, s.log = newer ++ .published id fresh :: older →
    BegunSince id older

variable {s t : State}

/-- A step that leaves the map, the lock and the history alone. -/
lemma Inv.congr (h : Inv s) (hflags : t.flags = s.flags) (hlock : ∀ id, t.lock = some id →
    s.lock = some id) (hlog : t.log = s.log) : Inv t where
  map := by rw [hflags, hlog, h.map]
  reading id hid := hlog ▸ h.reading id (hlock id hid)
  publication newer id fresh older heq := h.publication newer id fresh older (hlog ▸ heq)

/-- The publications of a history with one more event, which is none. -/
lemma Inv.publication_cons (h : Inv s) {e : Event} (he : ∀ id fresh, e ≠ .published id fresh)
    (newer : List Event) (id : ℕ) (fresh : Dict PyStr Flag) (older : List Event)
    (heq : e :: s.log = newer ++ .published id fresh :: older) : BegunSince id older := by
  rcases List.cons_eq_append_iff.mp heq with ⟨-, hcons⟩ | ⟨newer', -, hlog⟩
  · exact absurd (List.cons.inj hcons).1.symm (he id fresh)
  · exact h.publication newer' id fresh older hlog

lemma Inv.invalidate (h : Inv s) {key : PyStr} {waiting : List (ℕ × Work)} (hlock : s.lock = none) :
    Inv { s with
      waiting, flags := s.flags.pop key, log := .invalidated key :: s.log } where
  map := by
    show s.flags.items.filter (fun p => p.1 ≠ key) = _
    rw [h.map, List.filter_filter]
    refine List.filter_congr fun p _ => ?_
    simp [invalidatedSince]
  reading id hid := nomatch hlock.symm.trans hid
  publication := h.publication_cons fun _ _ => nofun

lemma Inv.begin (h : Inv s) {id : ℕ} {waiting : List (ℕ × Work)} :
    Inv { s with waiting, lock := some id, log := .began id :: s.log } where
  map := h.map
  reading i hi := by
    obtain rfl : id = i := Option.some.inj hi
    exact ⟨[], s.log, rfl, fun _ => nofun⟩
  publication := h.publication_cons fun _ _ => nofun

lemma Inv.publish (h : Inv s) {id : ℕ} {fresh : Dict PyStr Flag} (hlock : s.lock = some id) :
    Inv { s with
      flags := fresh, lastRefreshed := s.now, lock := none,
      log := .published id fresh :: s.log } where
  map := by simp [lastResult, invalidatedSince]
  reading _ hi := nomatch hi
  publication newer i fresh' older heq := by
    rcases List.cons_eq_append_iff.mp heq with ⟨-, hcons⟩ | ⟨newer', -, hlog⟩
    · -- the publication of the step: the lock has been held since the read
      obtain ⟨hpub, rfl⟩ := List.cons.inj hcons
      obtain ⟨rfl, -⟩ := Event.published.inj hpub
      exact h.reading _ hlock
    · exact h.publication newer' i fresh' older hlog

lemma Inv.fail (h : Inv s) {id : ℕ} : Inv { s with lock := none, log := .failed id :: s.log } where
  map := h.map
  reading _ hi := nomatch hi
  publication := h.publication_cons fun _ _ => nofun

/-- One step keeps the invariant. -/
lemma Inv.step (h : Inv s) {a : Action} (hs : step s a = some t) : Inv t := by
  cases move_of_step hs with
  | tick => exact h.congr rfl (fun _ hid => hid) rfl
  | fresh => exact h
  | kick => exact h.congr rfl (fun _ hid => hid) rfl
  | call => exact h.congr rfl (fun _ hid => hid) rfl
  | @enter id work hlock =>
    cases work with
    | refresh => exact h.begin
    | invalidate key => exact h.invalidate hlock
  | publish hlock => exact h.publish hlock
  | fail => exact h.fail
  -- the lock is released, and nothing is published
  | release => exact h.congr rfl (fun _ hid => nomatch hid) rfl
  | leave => exact h.congr rfl (fun _ hid => hid) rfl

lemma inv_of_reachable (h : machine.Reachable s) : Inv s := by
  refine h.invariant ?_ fun _ _ _ hinv hs => hinv.step hs
  rintro _ ⟨ttl, now, rfl⟩
  exact ⟨rfl, fun _ => nofun, fun newer id fresh older heq => by simp at heq⟩

/-- A refresh that has published since an invalidation has also read since. -/
lemma Inv.began_of_published (h : Inv s) {newer older : List Event} {key : PyStr} {id : ℕ}
    {fresh : Dict PyStr Flag} (hlog : s.log = newer ++ .invalidated key :: older)
    (hpub : .published id fresh ∈ newer) : .began id ∈ newer := by
  obtain ⟨after, before, rfl⟩ := List.append_of_mem hpub
  rw [List.append_assoc, List.cons_append] at hlog
  obtain ⟨quiet, older', heq, hquiet⟩ := h.publication _ _ _ _ hlog
  -- the read comes before the publication, and the invalidation is not between them
  rcases List.append_eq_append_iff.mp heq with ⟨rest, hq, hrest⟩ | ⟨rest, hb, hrest⟩
  · cases rest with
    | nil => simp at hrest
    | cons e rest =>
      obtain ⟨rfl, -⟩ := List.cons.inj hrest
      exact absurd (hq ▸ List.mem_append_right _ (List.mem_cons_self ..)) (hquiet key)
  · cases rest with
    | nil => simp at hrest
    | cons e rest =>
      obtain ⟨rfl, -⟩ := List.cons.inj hrest
      simp [hb]

/-! ## Runs -/

/-- What an action shows of the cache: who gets the lock, and how a refresh ends. -/
def shown (s : State) : Action → Option Event
  | .acquire id => (s.waiting.lookup id).map fun
    | .refresh => .began id
    | .invalidate key => .invalidated key
  | .publish id fresh => some (.published id fresh)
  | .fail id => some (.failed id)
  | _ => none

/-- The history of a run, the latest event first. -/
def history (s : State) (actions : List Action) : List Event :=
  machine.recorded (fun s a events => (shown s a).toList ++ events) s actions []

/-- One step adds what its action shows. -/
lemma step_log {a : Action} (hs : step s a = some t) : t.log = (shown s a).toList ++ s.log := by
  cases move_of_step hs with
  | @enter id work _ hwork => cases work <;> simp [State.enter, shown, hwork]
  | tick | fresh | kick | call | publish | fail | release | leave => rfl

/-- A store that has just been made keeps the history of its run. -/
lemma log_eq_history {actions : List Action} (hs : machine.init s)
    (hr : machine.run s actions = some t) : t.log = history s actions := by
  refine Machine.recorded_invariant (I := fun s events => s.log = events)
    (fun u a v events hlog hv => ?_) ?_ hr
  · rw [step_log hv, hlog]
  · obtain ⟨ttl, now, rfl⟩ := hs
    rfl

/-- **After every run the map is the last result published without the keys invalidated since; a
refresh that fails changes neither the map nor the time of the last refresh; and an invalidated key
is not found until a refresh that has begun to read after the invalidation publishes.** -/
theorem cache_consistent {actions : List Action} (hs : machine.init s)
    (hr : machine.run s actions = some t) :
    t.flags.items = (lastResult (history s actions)).items.filter
      (fun p => p.1 ∉ invalidatedSince (history s actions)) ∧
    (∀ id u, step t (.fail id) = some u →
      u.flags = t.flags ∧ u.lastRefreshed = t.lastRefreshed) ∧
    ∀ key newer older, history s actions = newer ++ .invalidated key :: older →
      (∀ id fresh, .published id fresh ∈ newer → .began id ∉ newer) → t.get key = none := by
  have hinv : Inv t := inv_of_reachable ((Machine.Reachable.init hs).run hr)
  rw [← log_eq_history hs hr]
  refine ⟨hinv.map, fun id u hu => ?_, fun key newer older hlog hno => ?_⟩
  · rw [step, Option.ite_none_right_eq_some] at hu
    obtain ⟨-, hu⟩ := hu
    obtain rfl := Option.some.inj hu
    exact ⟨rfl, rfl⟩
  · have hmem : key ∈ invalidatedSince t.log := by
      rw [hlog]
      exact mem_invalidatedSince fun id fresh hpub =>
        hno id fresh hpub (hinv.began_of_published hlog hpub)
    rw [State.get, Dict.get?_eq_none, Dict.keys, hinv.map]
    intro hkey
    obtain ⟨p, hp, rfl⟩ := List.mem_map.mp hkey
    simp [hmem] at hp

section Example

/-- A store, before its first refresh. -/
def newStore : State := ⟨30, .empty, 0, 100, 0, [], none, []⟩

/-- The two flags of a database. -/
def twoFlags : Dict PyStr Flag :=
  (Dict.empty.set (text "flag.alpha") ⟨true, []⟩).set (text "flag.beta") ⟨true, [.admin]⟩

/-- A flag is invalidated while a refresh that has read it is about to publish it. -/
def overlapRun : List Action :=
  [.read true, .acquire 0, .call (.invalidate (text "flag.beta")), .publish 0 twoFlags, .acquire 1]

lemma overlapRun_ends : (machine.run newStore overlapRun).isSome = true := by decide +kernel

/-- The other flag is found. -/
theorem overlapped_flag_is_gone :
    ((machine.run newStore overlapRun).get overlapRun_ends).flags.items =
      [(text "flag.alpha", ⟨true, []⟩)] ∧
    ((machine.run newStore overlapRun).get overlapRun_ends).get (text "flag.beta") = none := by
  have hinit : machine.init newStore := ⟨30, 100, rfl⟩
  have hrun := (Option.some_get overlapRun_ends).symm
  obtain ⟨hmap, -, hgone⟩ := cache_consistent hinit hrun
  refine ⟨?_, hgone (text "flag.beta") [] _ rfl (by simp)⟩
  rw [hmap]
  rfl

end Example

end Omkit.Featureflags
