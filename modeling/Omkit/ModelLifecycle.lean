import Mathlib.Data.Rat.Defs
import Mathlib.Algebra.Order.Ring.Rat
import Omkit.Lib.Dict
import Omkit.Lib.Machine

/-!
# Model loading and unloading

`ModelLifecycle`: callers that take an asyncio lock, and threads of the executor that run `_do_load`
and `_do_unload` for them.  The lock belongs to the coroutine of a caller.  A caller that is
cancelled releases it at once, and a thread that is executing goes on without a caller.
-/

namespace Omkit.ModelLifecycle

open Lib

/-! ## The machine -/

/-- A call, and the job that it may hand to the executor: `_do_load` or `_do_unload`. -/
inductive Call
  | ensureLoaded
  | unload
deriving DecidableEq

/-- Where a job stands. -/
inductive Thread (M : Type)
  | queued
  | executing
  /-- With the object that it returned, which may be `None`, or an exception. -/
  | finished (result : Option (Option M))

structure Job (M : Type) where
  call : Call
  thread : Thread M

/-- A lifecycle with its callers and its threads. -/
structure State (M : Type) where
  now : ℚ
  /-- `_model`. -/
  model : Option M
  /-- `_last_used`. -/
  lastUsed : ℚ
  /-- `MODEL_LOADED`. -/
  gauge : Bool
  /-- The caller that holds `_lock`. -/
  lock : Option ℕ
  /-- The callers that wait for `_lock`, the first one first. -/
  waiting : Dict ℕ Call
  /-- The jobs, by the caller that has submitted them. -/
  jobs : Dict ℕ (Job M)
  /-- Did an `ensure_loaded` return with a model while a `_do_unload` was executing? -/
  returnedUnloading : Bool

/-- What may happen next. -/
inductive Action (M : Type)
  | tick (t : ℚ)
  | call (id : ℕ) (c : Call)
  /-- The first waiting caller takes the lock. -/
  | enter
  /-- A thread of the executor begins a job. -/
  | start (id : ℕ)
  | finish (id : ℕ) (result : Option (Option M))
  /-- The caller goes on with the result of its job. -/
  | resume (id : ℕ)
  | cancel (id : ℕ)

variable {M : Type}

/-- Is a thread in the middle of its function? -/
def Thread.isExecuting : Thread M → Bool
  | .executing => true
  | _ => false

/-- Is a `_do_unload` executing? -/
def unloading (jobs : Dict ℕ (Job M)) : Bool :=
  jobs.items.any fun p => p.2.thread.isExecuting && p.2.call = .unload

/-- A caller returns from `ensure_loaded`. -/
def State.returns (s : State M) : State M :=
  { s with
    lastUsed := s.now
    returnedUnloading := s.returnedUnloading || s.model.isSome && unloading s.jobs }

/-- A caller holds the lock and awaits its job. -/
def State.submit (s : State M) (id : ℕ) (c : Call) : State M :=
  { s with lock := some id, jobs := s.jobs.set id ⟨c, .queued⟩ }

/-- `ensure_loaded` up to its `await`. -/
def State.ensureLoaded (s : State M) (id : ℕ) : State M :=
  match s.model with
  | some _ => s.returns
  | none => s.submit id .ensureLoaded

/-- `unload` up to its `await`. -/
def State.unload (s : State M) (id : ℕ) : State M :=
  match s.model with
  | none => s
  | some _ => { s with gauge := false }.submit id .unload

/-- The rest of a call, with the result of its job. -/
def State.resume (s : State M) (id : ℕ) (c : Call) (result : Option (Option M)) : State M :=
  let s := { s with lock := none, jobs := s.jobs.pop id }
  match c, result with
  | .ensureLoaded, some m => { s with model := m, gauge := true }.returns
  | .unload, some _ => { s with model := none, lastUsed := 0 }
  | _, none => s

/-- One step. -/
def step (s : State M) : Action M → Option (State M)
  | .tick t => if s.now ≤ t then some { s with now := t } else none
  | .call id c =>
    if id ∈ s.waiting.keys ∨ id ∈ s.jobs.keys then none
    else some { s with waiting := s.waiting.set id c }
  | .enter => match s.lock, s.waiting.items with
    | none, (id, c) :: _ =>
      let s := { s with waiting := s.waiting.pop id }
      some (match c with
        | .ensureLoaded => s.ensureLoaded id
        | .unload => s.unload id)
    | _, _ => none
  | .start id => match s.jobs.get? id with
    | some ⟨c, .queued⟩ => some { s with jobs := s.jobs.set id ⟨c, .executing⟩ }
    | _ => none
  | .finish id result => match s.jobs.get? id with
    | some ⟨c, .executing⟩ => some { s with
        jobs := if s.lock = some id then s.jobs.set id ⟨c, .finished result⟩ else s.jobs.pop id }
    | _ => none
  | .resume id => match s.jobs.get? id with
    | some ⟨c, .finished result⟩ => if s.lock = some id then some (s.resume id c result) else none
    | _ => none
  | .cancel id =>
    if id ∈ s.waiting.keys then some { s with waiting := s.waiting.pop id }
    else if s.lock = some id then
      -- Only a job that no thread has begun can still be withdrawn.
      some { s with
        lock := none
        jobs := if (s.jobs.get? id).any fun j => j.thread.isExecuting then s.jobs
          else s.jobs.pop id }
    else none

/-- A lifecycle that was just created. -/
def machine : Machine (State M) (Action M) where
  init s := s.model = none ∧ s.lock = none ∧ s.waiting = .empty ∧ s.jobs = .empty ∧
    s.returnedUnloading = false
  step := step

/-! ## The property and the guard -/

/-- At most one thread is executing, and no `ensure_loaded` has returned during a `_do_unload`. -/
def Exclusive (s : State M) : Prop :=
  (∀ p ∈ s.jobs.items, ∀ q ∈ s.jobs.items, p.2.thread.isExecuting = true →
    q.2.thread.isExecuting = true → p.1 = q.1) ∧ s.returnedUnloading = false

/-- A job whose caller was cancelled is still executing. -/
def Orphan (s : State M) (p : ℕ × Job M) : Prop :=
  p.2.thread.isExecuting = true ∧ s.lock ≠ some p.1

instance (s : State M) (p : ℕ × Job M) : Decidable (Orphan s p) :=
  inferInstanceAs (Decidable (_ ∧ _))

/-- The steps that meet no orphan: no thread begins while one is left, and no `ensure_loaded` finds
the model loaded while a `_do_unload` is. -/
def Undisturbed (s : State M) : Action M → Prop
  | .start _ => ∀ p ∈ s.jobs.items, ¬ Orphan s p
  | .enter => match s.waiting.items, s.model with
    | (_, .ensureLoaded) :: _, some _ => ∀ p ∈ s.jobs.items, Orphan s p → p.2.call ≠ .unload
    | _, _ => True
  | _ => True

instance (s : State M) (a : Action M) : Decidable (Undisturbed s a) := by
  unfold Undisturbed
  split
  · infer_instance
  · split <;> infer_instance
  · infer_instance

/-! ## The invariant -/

/-- The jobs of a lifecycle: the one of the caller that holds the lock, and orphans.  Once the job of
the caller has begun, there is no orphan. -/
structure Inv (s : State M) : Prop where
  holder : ∀ id, s.lock = some id → id ∈ s.jobs.keys
  orphan : ∀ p ∈ s.jobs.items, s.lock ≠ some p.1 → p.2.thread.isExecuting = true
  fresh : ∀ id ∈ s.waiting.keys, id ∉ s.jobs.keys
  alone : ∀ id, s.lock = some id → (∀ c, s.jobs.get? id ≠ some ⟨c, .queued⟩) →
    ∀ p ∈ s.jobs.items, p.1 = id

section Steps

variable {s s' : State M}

/-- What one step can do. -/
inductive Move (s : State M) : Action M → State M → Prop
  | tick {t : ℚ} (ht : s.now ≤ t) : Move s (.tick t) { s with now := t }
  | call {id : ℕ} {c : Call} (hw : id ∉ s.waiting.keys) (hj : id ∉ s.jobs.keys) :
    Move s (.call id c) { s with waiting := s.waiting.set id c }
  | loaded {id : ℕ} {rest : List (ℕ × Call)} {m : M} (hlock : s.lock = none)
    (hw : s.waiting.items = (id, .ensureLoaded) :: rest) (hm : s.model = some m) :
    Move s .enter { s with waiting := s.waiting.pop id }.returns
  | load {id : ℕ} {rest : List (ℕ × Call)} (hlock : s.lock = none)
    (hw : s.waiting.items = (id, .ensureLoaded) :: rest) (hm : s.model = none) :
    Move s .enter ({ s with waiting := s.waiting.pop id }.submit id .ensureLoaded)
  | unloaded {id : ℕ} {rest : List (ℕ × Call)} (hlock : s.lock = none)
    (hw : s.waiting.items = (id, .unload) :: rest) (hm : s.model = none) :
    Move s .enter { s with waiting := s.waiting.pop id }
  | unload {id : ℕ} {rest : List (ℕ × Call)} {m : M} (hlock : s.lock = none)
    (hw : s.waiting.items = (id, .unload) :: rest) (hm : s.model = some m) :
    Move s .enter ({ s with waiting := s.waiting.pop id, gauge := false }.submit id .unload)
  | start {id : ℕ} {c : Call} (hjob : s.jobs.get? id = some ⟨c, .queued⟩) :
    Move s (.start id) { s with jobs := s.jobs.set id ⟨c, .executing⟩ }
  | finish {id : ℕ} {c : Call} {result : Option (Option M)}
    (hjob : s.jobs.get? id = some ⟨c, .executing⟩) (hlock : s.lock = some id) :
    Move s (.finish id result) { s with jobs := s.jobs.set id ⟨c, .finished result⟩ }
  | forgotten {id : ℕ} {c : Call} {result : Option (Option M)}
    (hjob : s.jobs.get? id = some ⟨c, .executing⟩) (hlock : s.lock ≠ some id) :
    Move s (.finish id result) { s with jobs := s.jobs.pop id }
  | resume {id : ℕ} {c : Call} {result : Option (Option M)}
    (hjob : s.jobs.get? id = some ⟨c, .finished result⟩) (hlock : s.lock = some id) :
    Move s (.resume id) (s.resume id c result)
  | leave {id : ℕ} (hw : id ∈ s.waiting.keys) :
    Move s (.cancel id) { s with waiting := s.waiting.pop id }
  | abandon {id : ℕ} (hw : id ∉ s.waiting.keys) (hlock : s.lock = some id)
    (hexec : (s.jobs.get? id).any (fun j => j.thread.isExecuting) = true) :
    Move s (.cancel id) { s with lock := none }
  | withdraw {id : ℕ} (hw : id ∉ s.waiting.keys) (hlock : s.lock = some id)
    (hexec : ¬ (s.jobs.get? id).any (fun j => j.thread.isExecuting) = true) :
    Move s (.cancel id) { s with lock := none, jobs := s.jobs.pop id }

lemma move_of_enter (hs : step s .enter = some s') : Move s .enter s' := by
  simp only [step] at hs
  split at hs
  · next id c rest hlock hw =>
    obtain rfl := Option.some.inj hs
    cases c with
    | ensureLoaded =>
      simp only [State.ensureLoaded]
      split
      · next m hm => exact .loaded hlock hw hm
      · next hm => exact .load hlock hw hm
    | unload =>
      simp only [State.unload]
      split
      · next hm => exact .unloaded hlock hw hm
      · next m hm => exact .unload hlock hw hm
  · cases hs

lemma move_of_cancel {id : ℕ} (hs : step s (.cancel id) = some s') : Move s (.cancel id) s' := by
  simp only [step] at hs
  split at hs
  · next hw =>
    obtain rfl := Option.some.inj hs
    exact .leave hw
  · next hw =>
    split at hs
    · next hlock =>
      obtain rfl := Option.some.inj hs
      split
      · next hexec => exact .abandon hw hlock hexec
      · next hexec => exact .withdraw hw hlock hexec
    · cases hs

theorem move_of_step {a : Action M} (hs : step s a = some s') : Move s a s' := by
  cases a with
  | tick t =>
    obtain ⟨ht, rfl⟩ : s.now ≤ t ∧ { s with now := t } = s' := by simpa [step] using hs
    exact .tick ht
  | call id c =>
    simp only [step] at hs
    split at hs
    · cases hs
    · next hnot =>
      obtain rfl := Option.some.inj hs
      exact .call (fun hw => hnot (Or.inl hw)) fun hj => hnot (Or.inr hj)
  | enter => exact move_of_enter hs
  | start id =>
    simp only [step] at hs
    split at hs
    · next c hjob =>
      obtain rfl := Option.some.inj hs
      exact .start hjob
    · cases hs
  | finish id result =>
    simp only [step] at hs
    split at hs
    · next c hjob =>
      obtain rfl := Option.some.inj hs
      by_cases hlock : s.lock = some id
      · rw [if_pos hlock]
        exact .finish hjob hlock
      · rw [if_neg hlock]
        exact .forgotten hjob hlock
    · cases hs
  | resume id =>
    simp only [step] at hs
    split at hs
    · next c result hjob =>
      split at hs
      · next hlock =>
        obtain rfl := Option.some.inj hs
        exact .resume hjob hlock
      · cases hs
    · cases hs
  | cancel id => exact move_of_cancel hs

lemma not_unloading {jobs : Dict ℕ (Job M)} :
    unloading jobs = false ↔
      ∀ p ∈ jobs.items, p.2.thread.isExecuting = true → p.2.call ≠ .unload := by
  simp [unloading, List.any_eq_false]

lemma Inv.empty (h : machine.init s) : Inv s := by
  obtain ⟨-, hlock, hwaiting, hjobs, -⟩ := h
  refine ⟨fun id hid => ?_, fun p hp => ?_, fun id hid => ?_, fun id hid => ?_⟩
  · cases hlock.symm.trans hid
  · rw [hjobs] at hp
    cases hp
  · rw [hwaiting] at hid
    cases hid
  · cases hlock.symm.trans hid

/-- What the callers see may change, and callers may come to wait or stop waiting. -/
lemma Inv.congr (h : Inv s) (hlock : s'.lock = s.lock) (hjobs : s'.jobs = s.jobs)
    (hfresh : ∀ id ∈ s'.waiting.keys, id ∉ s.jobs.keys) : Inv s' where
  holder := by simpa only [hlock, hjobs] using h.holder
  orphan := by simpa only [hlock, hjobs] using h.orphan
  fresh := by simpa only [hjobs] using hfresh
  alone := by simpa only [hlock, hjobs] using h.alone

lemma Inv.submit (h : Inv s) (hlock : s.lock = none) {id : ℕ} (hid : id ∉ s.waiting.keys)
    (c : Call) : Inv (s.submit id c) where
  holder i hi := by
    obtain rfl : id = i := Option.some.inj hi
    simp [State.submit]
  orphan p hp hne := by
    rcases Dict.mem_set.mp hp with rfl | ⟨hp, -⟩
    · exact absurd rfl hne
    · exact h.orphan p hp (by simp [hlock])
  fresh i hi hmem := by
    rcases Dict.mem_keys_set.mp hmem with rfl | hmem
    · exact hid hi
    · exact h.fresh i hi hmem
  alone i hi hne := by
    obtain rfl : id = i := Option.some.inj hi
    exact absurd (Dict.get?_set_self s.jobs id ⟨c, .queued⟩) (hne c)

/-- The lock is released by a caller whose job, if it is left, is executing. -/
lemma Inv.release (h : Inv s) {id : ℕ} (hlock : s.lock = some id) {jobs : Dict ℕ (Job M)}
    (hkeep : ∀ p ∈ jobs.items, p ∈ s.jobs.items ∧ (p.1 = id → p.2.thread.isExecuting = true))
    (s' : State M) (hlock' : s'.lock = none) (hjobs' : s'.jobs = jobs)
    (hwaiting' : s'.waiting = s.waiting) : Inv s' where
  holder i hi := by cases hlock'.symm.trans hi
  orphan p hp _ := by
    obtain ⟨hp, hexec⟩ := hkeep p (hjobs' ▸ hp)
    by_cases hpid : p.1 = id
    · exact hexec hpid
    · refine h.orphan p hp fun heq => hpid ?_
      exact Option.some.inj (heq.symm.trans hlock)
  fresh i hi hmem := by
    obtain ⟨v, hv⟩ := Dict.mem_keys.mp hmem
    exact h.fresh i (hwaiting' ▸ hi) (Dict.keys_mem_of_mem (hkeep _ (hjobs' ▸ hv)).1)
  alone i hi := by cases hlock'.symm.trans hi

/-- The holder's job goes on, and there is no other job. -/
lemma Inv.advance (h : Inv s) {id : ℕ} (hlock : s.lock = some id) (hid : id ∈ s.jobs.keys)
    (halone : ∀ p ∈ s.jobs.items, p.1 = id) (j : Job M) :
    Inv { s with jobs := s.jobs.set id j } where
  holder i hi := Dict.mem_keys_set.mpr (Or.inr (h.holder i hi))
  orphan p hp hne := by
    rcases Dict.mem_set.mp hp with rfl | ⟨hp, -⟩
    · exact absurd hlock hne
    · exact h.orphan p hp hne
  fresh i hi hmem := by
    rcases Dict.mem_keys_set.mp hmem with rfl | hmem
    · exact h.fresh i hi hid
    · exact h.fresh i hi hmem
  alone i hi _ p hp := by
    obtain rfl : id = i := Option.some.inj (hlock.symm.trans hi)
    rcases Dict.mem_set.mp hp with rfl | ⟨hp, -⟩
    · rfl
    · exact halone p hp

/-- A job that waits for a thread is the holder's. -/
lemma Inv.lock_of_queued (h : Inv s) {id : ℕ} {c : Call}
    (hjob : s.jobs.get? id = some ⟨c, .queued⟩) : s.lock = some id := by
  by_contra hne
  have hexec := h.orphan _ (Dict.get?_eq_some.mp hjob) hne
  cases hexec

/-- An orphan ends: it was left, so the job of the holder has not begun. -/
lemma Inv.forget (h : Inv s) {id : ℕ} (hlock : s.lock ≠ some id) :
    Inv { s with jobs := s.jobs.pop id } where
  holder i hi := by
    refine Dict.mem_keys_pop.mpr ⟨h.holder i hi, ?_⟩
    rintro rfl
    exact hlock hi
  orphan p hp hne := h.orphan p (Dict.mem_pop.mp hp).1 hne
  fresh i hi hmem := h.fresh i hi (Dict.mem_keys_pop.mp hmem).1
  alone i hi hq p hp := by
    have hne : i ≠ id := fun hii => hlock (hii ▸ hi)
    have hq' : ∀ c, s.jobs.get? i ≠ some ⟨c, .queued⟩ := fun c => by
      simpa [Dict.get?_pop, hne] using hq c
    exact h.alone i hi hq' p (Dict.mem_pop.mp hp).1

/-- Every step that meets no orphan keeps the invariant. -/
theorem Inv.step {a : Action M} (h : Inv s) (hg : Undisturbed s a) (hs : step s a = some s') :
    Inv s' := by
  have hpop : ∀ id, Inv { s with waiting := s.waiting.pop id } := fun id =>
    h.congr rfl rfl fun i hi => h.fresh i (Dict.mem_keys_pop.mp hi).1
  have hleft : ∀ id, id ∉ (s.waiting.pop id).keys := fun id hmem =>
    (Dict.mem_keys_pop.mp hmem).2 rfl
  cases move_of_step hs with
  | tick ht => exact h.congr rfl rfl h.fresh
  | @call id c hw hj =>
    refine h.congr rfl rfl fun i hi => ?_
    rcases Dict.mem_keys_set.mp hi with rfl | hi
    · exact hj
    · exact h.fresh i hi
  | @loaded id rest m hlock hw hm => exact (hpop id).congr rfl rfl (hpop id).fresh
  | @load id rest hlock hw hm => exact (hpop id).submit hlock (hleft id) _
  | @unloaded id rest hlock hw hm => exact hpop id
  | @unload id rest m hlock hw hm =>
    have hgauge : Inv { s with waiting := s.waiting.pop id, gauge := false } :=
      (hpop id).congr rfl rfl (hpop id).fresh
    exact hgauge.submit hlock (hleft id) _
  | @start id c hjob =>
    have hlock := h.lock_of_queued hjob
    refine h.advance hlock (h.holder id hlock) (fun p hp => ?_) _
    -- another job would be an orphan
    by_contra hpid
    have hne : s.lock ≠ some p.1 := fun heq => hpid (Option.some.inj (heq.symm.trans hlock))
    exact hg p hp ⟨h.orphan p hp hne, hne⟩
  | @finish id c result hjob hlock =>
    exact h.advance hlock (h.holder id hlock) (h.alone id hlock (by simp [hjob])) _
  | forgotten hjob hlock => exact h.forget hlock
  | @resume id c result hjob hlock =>
    have hkeep : ∀ p ∈ (s.jobs.pop id).items,
        p ∈ s.jobs.items ∧ (p.1 = id → p.2.thread.isExecuting = true) := fun p hp =>
      ⟨(Dict.mem_pop.mp hp).1, fun hpid => absurd hpid (Dict.mem_pop.mp hp).2⟩
    unfold State.resume
    dsimp only
    split <;> exact h.release hlock hkeep _ rfl rfl rfl
  | leave hw => exact hpop _
  | @abandon id hw hlock hexec =>
    refine h.release hlock (fun p hp => ⟨hp, fun hpid => ?_⟩) _ rfl rfl rfl
    have hget : s.jobs.get? p.1 = some p.2 := Dict.get?_eq_some.mpr hp
    rw [hpid] at hget
    simpa [hget] using hexec
  | @withdraw id hw hlock hexec =>
    refine h.release hlock (fun p hp => ?_) _ rfl rfl rfl
    exact ⟨(Dict.mem_pop.mp hp).1, fun hpid => absurd hpid (Dict.mem_pop.mp hp).2⟩

/-! ## Exclusion -/

lemma Exclusive.mono (h : Exclusive s)
    (hjobs : ∀ p ∈ s'.jobs.items, p.2.thread.isExecuting = true → p ∈ s.jobs.items)
    (hreturned : s'.returnedUnloading = s.returnedUnloading) : Exclusive s' :=
  ⟨fun p hp q hq hpe hqe => h.1 p (hjobs p hp hpe) q (hjobs q hq hqe) hpe hqe,
    hreturned.trans h.2⟩

lemma Exclusive.submit (h : Exclusive s) (id : ℕ) (c : Call) : Exclusive (s.submit id c) := by
  refine h.mono (fun p hp hexec => ?_) rfl
  rcases Dict.mem_set.mp hp with rfl | ⟨hp, -⟩
  · cases hexec
  · exact hp

/-- No orphan is left when a caller goes on with its result. -/
lemma Inv.not_unloading (h : Inv s) {id : ℕ} (hlock : s.lock = some id)
    (hbegun : ∀ c, s.jobs.get? id ≠ some ⟨c, .queued⟩) : unloading (s.jobs.pop id) = false := by
  refine ModelLifecycle.not_unloading.mpr fun p hp => ?_
  obtain ⟨hp, hpid⟩ := Dict.mem_pop.mp hp
  exact absurd (h.alone id hlock hbegun p hp) hpid

/-- A thread that begins is alone exactly when there is no orphan. -/
lemma exclusive_start (h : Inv s) (hx : Exclusive s) {id : ℕ} {c : Call}
    (hjob : s.jobs.get? id = some ⟨c, .queued⟩) :
    Exclusive { s with jobs := s.jobs.set id ⟨c, .executing⟩ } ↔ Undisturbed s (.start id) := by
  have hnot : ∀ p ∈ s.jobs.items, p.2.thread.isExecuting = true → p.1 ≠ id := by
    rintro ⟨i, j⟩ hp hexec rfl
    obtain rfl := Option.some.inj (hjob.symm.trans (Dict.get?_eq_some.mpr hp))
    cases hexec
  constructor
  · rintro ⟨hone, -⟩ p hp ⟨hexec, -⟩
    refine hnot p hp hexec (hone p ?_ (id, ⟨c, .executing⟩) ?_ hexec rfl)
    · exact Dict.mem_set.mpr (Or.inr ⟨hp, hnot p hp hexec⟩)
    · exact Dict.mem_set.mpr (Or.inl rfl)
  · intro hg
    have honly : ∀ p ∈ (s.jobs.set id ⟨c, .executing⟩).items, p.2.thread.isExecuting = true →
        p.1 = id := by
      intro p hp hexec
      rcases Dict.mem_set.mp hp with rfl | ⟨hp, hpid⟩
      · rfl
      · refine absurd ⟨hexec, fun heq => hpid ?_⟩ (hg p hp)
        exact Option.some.inj (heq.symm.trans (h.lock_of_queued hjob))
    exact ⟨fun p hp q hq hpe hqe => (honly p hp hpe).trans (honly q hq hqe).symm, hx.2⟩

/-- A step from an exclusive state leads to an exclusive state exactly when it meets no orphan. -/
theorem exclusive_step {a : Action M} (h : Inv s) (hx : Exclusive s) (hs : step s a = some s') :
    Exclusive s' ↔ Undisturbed s a := by
  have hsame : ∀ {t : State M}, t.jobs = s.jobs → t.returnedUnloading = s.returnedUnloading →
      Exclusive t := fun hj hr => hx.mono (fun _ hp _ => hj ▸ hp) hr
  have hpop : ∀ {t : State M} {id : ℕ}, t.jobs = s.jobs.pop id →
      t.returnedUnloading = s.returnedUnloading → Exclusive t := fun hj hr =>
    hx.mono (fun p hp _ => (Dict.mem_pop.mp (hj ▸ hp)).1) hr
  cases move_of_step hs with
  | @loaded id rest m hlock hw hm =>
    -- The call returns at once, and every executing thread is an orphan.
    simp only [Undisturbed, hw, hm, State.returns, Exclusive, hx.2, Option.isSome_some,
      Bool.false_or, Bool.true_and, ModelLifecycle.not_unloading]
    constructor
    · exact fun hret p hp horphan => hret.2 p hp horphan.1
    · exact fun hg => ⟨hx.1, fun p hp hexec => hg p hp ⟨hexec, by simp [hlock]⟩⟩
  | @load id rest hlock hw hm =>
    have hwait : Exclusive { s with waiting := s.waiting.pop id } := hsame rfl rfl
    exact iff_of_true (hwait.submit id _) (by simp [Undisturbed, hw, hm])
  | @unload id rest m hlock hw hm =>
    have hwait : Exclusive { s with waiting := s.waiting.pop id, gauge := false } := hsame rfl rfl
    exact iff_of_true (hwait.submit id _) (by simp [Undisturbed, hw])
  | unloaded hlock hw hm => exact iff_of_true (hsame rfl rfl) (by simp [Undisturbed, hw])
  | start hjob => exact exclusive_start h hx hjob
  | @finish id c result hjob hlock =>
    refine iff_of_true (hx.mono (fun p hp hexec => ?_) rfl) trivial
    rcases Dict.mem_set.mp hp with rfl | ⟨hp, -⟩
    · cases hexec
    · exact hp
  | forgotten hjob hlock => exact iff_of_true (hpop rfl rfl) trivial
  | @resume id c result hjob hlock =>
    have hquiet := h.not_unloading hlock (by simp [hjob])
    refine iff_of_true ?_ trivial
    unfold State.resume State.returns
    dsimp only
    split
    · exact hpop rfl (by simp [hquiet])
    · exact hpop rfl rfl
    · exact hpop rfl rfl
  | withdraw hw hlock hexec => exact iff_of_true (hpop rfl rfl) trivial
  | _ => exact iff_of_true (hsame rfl rfl) trivial

end Steps

/-- **Loads and unloads never overlap in a run exactly when none of its steps meets the thread of a
cancelled caller.** -/
theorem exclusive_throughout_iff {s s' : State M} {as : List (Action M)} (hi : machine.init s)
    (hr : machine.run s as = some s') :
    machine.Throughout Exclusive s as ↔ machine.Along Undisturbed s as := by
  refine Machine.throughout_iff_along (fun s hi => ?_) (fun s a t hs hx ht => ?_) hi hr
  · obtain ⟨-, -, -, hjobs, hreturned⟩ := hi
    refine ⟨fun p hp => ?_, hreturned⟩
    rw [hjobs] at hp
    cases hp
  · exact exclusive_step (hs.invariant (fun _ => .empty) fun _ _ _ h hg hs => h.step hg hs) hx ht

section Example

/-- A lifecycle that was just created. -/
def created : State Unit := ⟨0, none, 0, false, none, .empty, .empty, false⟩

/-- A load and an unload, one after the other. -/
def loadUnload : List (Action Unit) :=
  [.call 0 .ensureLoaded, .enter, .call 1 .unload, .start 0, .finish 0 (some (some ())), .resume 0,
    .enter, .start 1, .finish 1 (some none), .resume 1]

theorem loadUnload_exclusive : machine.Throughout Exclusive created loadUnload := by
  obtain ⟨s, hs⟩ := Option.isSome_iff_exists.mp
    (by decide +kernel : (machine.run created loadUnload).isSome = true)
  exact (exclusive_throughout_iff ⟨rfl, rfl, rfl, rfl, rfl⟩ hs).mpr (by decide +kernel)

/-- The caller of a load is cancelled, and another one calls. -/
def cancelledLoad : List (Action Unit) :=
  [.call 0 .ensureLoaded, .enter, .start 0, .cancel 0, .call 1 .ensureLoaded, .enter, .start 1]

/-- Two loads are executing. -/
theorem cancelled_load_overlaps : ∃ s : State Unit, machine.Reachable s ∧ ¬ Exclusive s := by
  have hrun : (machine.run created cancelledLoad).map (fun s => s.jobs.items.map fun p =>
      (p.1, p.2.thread.isExecuting)) = some [(0, true), (1, true)] := by decide +kernel
  obtain ⟨s, hs, hjobs⟩ := Option.map_eq_some_iff.mp hrun
  have hinit : machine.Reachable created := .init ⟨rfl, rfl, rfl, rfl, rfl⟩
  refine ⟨s, hinit.run hs, fun hx => ?_⟩
  have hmem : ∀ id, (id, true) ∈ s.jobs.items.map (fun p => (p.1, p.2.thread.isExecuting)) →
      ∃ p ∈ s.jobs.items, p.1 = id ∧ p.2.thread.isExecuting = true := by
    intro id hid
    obtain ⟨p, hp, heq⟩ := List.mem_map.mp hid
    exact ⟨p, hp, (Prod.mk.injEq .. ▸ heq).1, (Prod.mk.injEq .. ▸ heq).2⟩
  obtain ⟨p, hp, hp0, hpe⟩ := hmem 0 (by simp [hjobs])
  obtain ⟨q, hq, hq1, hqe⟩ := hmem 1 (by simp [hjobs])
  have heq := hx.1 p hp q hq hpe hqe
  omega

end Example

end Omkit.ModelLifecycle
