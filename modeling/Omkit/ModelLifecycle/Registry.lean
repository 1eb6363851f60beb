import Mathlib.Algebra.Order.Ring.Rat
import Mathlib.Tactic.Linarith
import Omkit.Lib.Text
import Omkit.ModelLifecycle

/-!
# The reaper

`ModelRegistry`: its lifecycles, the callers that touch, load and unload them, and `_reap_loop`,
which unloads the idle ones.  The loop looks at a model without its lock, and the unload that it
then issues waits for the lock and for a thread of the executor.
-/

namespace Omkit.ModelLifecycle

open Lib

/-! ## The registry -/

/-- Where `_reap_loop` stands. -/
inductive Reaper (L : Type)
  /-- It sleeps, or it was stopped. -/
  | sleeping
  /-- It awaits the call `id` of `unload`: with the time of the sweep, and the rest of the sweep. -/
  | unloading (time : ℚ) (lc : L) (id : ℕ) (rest : List L)

/-- A registry with its lifecycles, each of them an object of `L`. -/
structure Registry (M L : Type) where
  /-- `_models`. -/
  models : Dict PyStr L
  /-- `_ttl`. -/
  ttl : ℤ
  now : ℚ
  lifecycles : L → State M
  reaper : Reaper L

/-- What may happen next. -/
inductive Event (M L : Type)
  | tick (t : ℚ)
  | touch (lc : L)
  /-- A step of a lifecycle, its clock apart. -/
  | act (lc : L) (a : Action M)
  /-- The reaper wakes up; `id` names the call that it may issue. -/
  | sweep (id : ℕ)
  /-- The call of the reaper has ended. -/
  | proceed (id : ℕ)
  /-- `stop_reaper`. -/
  | stop

variable {M L : Type} [DecidableEq L]

/-- `touch`. -/
def State.touch (s : State M) : State M := { s with lastUsed := s.now }

/-- `is_loaded and (now - last_used) >= ttl`. -/
def State.idle (s : State M) (time : ℚ) (ttl : ℤ) : Bool :=
  s.model.isSome && decide ((ttl : ℚ) ≤ time - s.lastUsed)

/-- Has the call not ended yet? -/
def State.calling (s : State M) (id : ℕ) : Bool :=
  decide (id ∈ s.waiting.keys) || decide (s.lock = some id)

/-- Is it a step of a client that calls or cancels under this name? -/
def Action.callsAs (id : ℕ) : Action M → Bool
  | .call i _ => i == id
  | .cancel i => i == id
  | _ => false

/-- Is it a step of the clock? -/
def Action.isTick : Action M → Bool
  | .tick _ => true
  | _ => false

/-- Is it the name of the call that the reaper awaits? -/
def Reaper.awaits (r : Reaper L) (lc : L) (a : Action M) : Bool :=
  match r with
  | .sleeping => false
  | .unloading _ lc' id _ => lc' == lc && a.callsAs id

namespace Registry

def update (s : Registry M L) (lc : L) (t : State M) : Registry M L :=
  { s with lifecycles := Function.update s.lifecycles lc t }

/-- The loop over the lifecycles, up to its next `await`. -/
def scan (s : Registry M L) (time : ℚ) (id : ℕ) : List L → Option (Registry M L)
  | [] => some { s with reaper := .sleeping }
  | lc :: rest =>
    if (s.lifecycles lc).idle time s.ttl then
      (ModelLifecycle.step (s.lifecycles lc) (.call id .unload)).map fun t =>
        { s.update lc t with reaper := .unloading time lc id rest }
    else s.scan time id rest

/-- One step. -/
def step (s : Registry M L) : Event M L → Option (Registry M L)
  | .tick t =>
    if s.now ≤ t then
      some { s with now := t, lifecycles := fun lc => { s.lifecycles lc with now := t } }
    else none
  | .touch lc => some (s.update lc (s.lifecycles lc).touch)
  | .act lc a =>
    if a.isTick || s.reaper.awaits lc a then none
    else (ModelLifecycle.step (s.lifecycles lc) a).map (s.update lc)
  | .sweep id => match s.reaper with
    | .sleeping =>
      if s.ttl ≤ 0 then some s else s.scan s.now id (s.models.items.map Prod.snd)
    | .unloading .. => none
  | .proceed id => match s.reaper with
    | .sleeping => none
    | .unloading time lc i rest =>
      if (s.lifecycles lc).calling i then none else s.scan time id rest
  | .stop => match s.reaper with
    | .sleeping => some s
    | .unloading _ lc i _ =>
      -- The call is cancelled with the task.
      let lifecycle := s.lifecycles lc
      some { s.update lc ((ModelLifecycle.step lifecycle (.cancel i)).getD lifecycle)
        with reaper := .sleeping }

end Registry

/-- A registry whose lifecycles were just created. -/
def registry (M L : Type) [DecidableEq L] : Machine (Registry M L) (Event M L) where
  init s := s.reaper = .sleeping ∧
    ∀ lc, machine.init (s.lifecycles lc) ∧ (s.lifecycles lc).now = s.now
  step := Registry.step

/-! ## The property and the guard -/

/-- The unload of the reaper, if it can start now, finds a model that has been idle. -/
def StartsIdle (s : Registry M L) : Prop :=
  match s.reaper with
  | .sleeping => True
  | .unloading _ lc id _ => (s.step (.act lc (.start id))).isSome = true →
    (s.lifecycles lc).lastUsed ≤ s.now - s.ttl

instance (s : Registry M L) : Decidable (StartsIdle s) := by
  unfold StartsIdle
  split <;> infer_instance

/-- Has the call not started its job yet? -/
def State.pends (s : State M) (id : ℕ) : Bool :=
  decide (id ∈ s.waiting.keys) || (s.jobs.get? id).any fun j => match j.thread with
    | .queued => true
    | .executing => false
    | .finished _ => false

/-- The object that a `_do_load` has returned. -/
def Job.loaded (j : Job M) : Option M :=
  match j.call, j.thread with
  | .ensureLoaded, .finished result => result.join
  | _, _ => none

/-- Does the step return from `ensure_loaded` with a loaded model? -/
def State.uses (s : State M) : Action M → Bool
  | .enter => s.model.isSome && s.waiting.items.head?.any (fun p => p.2 = .ensureLoaded)
  | .resume id => (s.jobs.get? id).any fun j => j.loaded.isSome
  | _ => false

/-- Is the step a use of a loaded model? -/
def Registry.uses (s : Registry M L) (lc : L) : Event M L → Bool
  | .touch lc' => lc' == lc && (s.lifecycles lc).model.isSome
  | .act lc' a => lc' == lc && (s.lifecycles lc).uses a
  | _ => false

/-- The steps that use no model for which an unload of the reaper is pending. -/
def Unused (s : Registry M L) (e : Event M L) : Prop :=
  match s.reaper with
  | .sleeping => True
  | .unloading _ lc id _ => (s.lifecycles lc).pends id = true → s.uses lc e = false

instance (s : Registry M L) (e : Event M L) : Decidable (Unused s e) := by
  unfold Unused
  split <;> infer_instance

/-! ## Pending unloads -/

/-- A call of `unload` that was issued for an idle model and has not started its job.  While it
waits for the lock, the model may go away; once it holds the lock, nobody else can change it. -/
structure Pending (bound : ℚ) (s : State M) (id : ℕ) : Prop where
  waits : ∀ c, s.waiting.get? id = some c → c = .unload ∧ (s.model = none ∨ s.lastUsed ≤ bound)
  queued : ∀ c, s.jobs.get? id = some ⟨c, .queued⟩ →
    s.lock = some id ∧ s.model.isSome = true ∧ s.lastUsed ≤ bound

section Steps

variable {bound : ℚ} {s s' : State M} {id : ℕ}

lemma pends_of_waiting {c : Call} (h : s.waiting.get? id = some c) : s.pends id = true := by
  simp [State.pends, Dict.mem_keys_iff_get?.mpr ⟨c, h⟩]

/-- A step that neither uses the model nor is the caller's own keeps the unload pending. -/
theorem Pending.step {a : Action M} (h : Pending bound s id) (hname : a.callsAs id = false)
    (hu : s.pends id = true → s.uses a = false) (hs : step s a = some s') :
    Pending bound s' id := by
  have hfree : s.lock = none → ∀ c, s.jobs.get? id ≠ some ⟨c, .queued⟩ := by
    intro hlock c hc
    cases hlock.symm.trans (h.queued c hc).1
  have hheld : ∀ i, s.lock = some i → i ≠ id → ∀ c, s.jobs.get? id ≠ some ⟨c, .queued⟩ := by
    intro i hlock hne c hc
    exact hne (Option.some.inj (hlock.symm.trans (h.queued c hc).1))
  have hpop : ∀ {i c}, (s.waiting.pop i).get? id = some c → s.waiting.get? id = some c :=
    fun hc => (Dict.get?_pop_eq_some.mp hc).2
  cases move_of_step hs with
  | tick ht => exact ⟨h.waits, h.queued⟩
  | @call i c hw hj =>
    have hne : id ≠ i := fun heq => Bool.noConfusion (hname.symm.trans (beq_iff_eq.mpr heq.symm))
    refine ⟨fun c hc => h.waits c ?_, h.queued⟩
    rwa [Dict.get?_set_ne _ _ hne] at hc
  | @loaded i rest m hlock hw hm =>
    refine ⟨fun c hc => ?_, fun c hc => absurd hc (hfree hlock c)⟩
    have huse := hu (pends_of_waiting (hpop hc))
    simp [State.uses, hw, hm] at huse
  | @load i rest hlock hw hm =>
    have hne : id ≠ i := by
      rintro rfl
      have hwait : s.waiting.get? id = some .ensureLoaded := Dict.get?_eq_some.mpr (by simp [hw])
      cases (h.waits _ hwait).1
    refine ⟨fun c hc => ⟨(h.waits c (hpop hc)).1, Or.inl hm⟩, fun c hc => ?_⟩
    simp only [State.submit, Dict.get?_set_ne _ _ hne] at hc
    exact absurd hc (hfree hlock c)
  | @unloaded i rest hlock hw hm =>
    exact ⟨fun c hc => h.waits c (hpop hc), fun c hc => absurd hc (hfree hlock c)⟩
  | @unload i rest m hlock hw hm =>
    refine ⟨fun c hc => h.waits c (hpop hc), fun c hc => ?_⟩
    by_cases hne : id = i
    · subst hne
      -- The call takes the lock: the model is loaded, so it has been idle.
      have hwait : s.waiting.get? id = some .unload := Dict.get?_eq_some.mpr (by simp [hw])
      rcases (h.waits _ hwait).2 with hnone | hle
      · cases hnone.symm.trans hm
      · exact ⟨rfl, by simp [State.submit, hm], hle⟩
    · simp only [State.submit, Dict.get?_set_ne _ _ hne] at hc
      exact absurd hc (hfree hlock c)
  | @start i c hjob =>
    refine ⟨h.waits, fun c' hc => ?_⟩
    by_cases hne : id = i
    · subst hne
      cases (Dict.get?_set_self _ _ _).symm.trans hc
    · rw [Dict.get?_set_ne _ _ hne] at hc
      exact h.queued c' hc
  | @finish i c result hjob hlock =>
    refine ⟨h.waits, fun c' hc => ?_⟩
    by_cases hne : id = i
    · subst hne
      cases (Dict.get?_set_self _ _ _).symm.trans hc
    · rw [Dict.get?_set_ne _ _ hne] at hc
      exact h.queued c' hc
  | @forgotten i c result hjob hlock =>
    exact ⟨h.waits, fun c' hc => h.queued c' (Dict.get?_pop_eq_some.mp hc).2⟩
  | @resume i c result hjob hlock =>
    have hgone : ∀ c', (s.jobs.pop i).get? id ≠ some ⟨c', .queued⟩ := fun c' hc => by
      obtain ⟨hne, hc⟩ := Dict.get?_pop_eq_some.mp hc
      exact hheld i hlock hne.symm c' hc
    have huse : ∀ c', s.waiting.get? id = some c' →
        (⟨c, .finished result⟩ : Job M).loaded = none := by
      intro c' hc
      simpa [State.uses, hjob] using hu (pends_of_waiting hc)
    unfold State.resume
    dsimp only
    split
    · exact ⟨fun c' hc => ⟨(h.waits c' hc).1, Or.inl (huse c' hc)⟩,
        fun c' hc => absurd hc (hgone c')⟩
    · exact ⟨fun c' hc => ⟨(h.waits c' hc).1, Or.inl rfl⟩, fun c' hc => absurd hc (hgone c')⟩
    · exact ⟨h.waits, fun c' hc => absurd hc (hgone c')⟩
  | @leave i hw => exact ⟨fun c hc => h.waits c (hpop hc), h.queued⟩
  | @abandon i hw hlock hexec =>
    have hne : i ≠ id := fun heq => Bool.noConfusion (hname.symm.trans (beq_iff_eq.mpr heq))
    exact ⟨h.waits, fun c hc => absurd hc (hheld i hlock hne c)⟩
  | @withdraw i hw hlock hexec =>
    have hne : i ≠ id := fun heq => Bool.noConfusion (hname.symm.trans (beq_iff_eq.mpr heq))
    refine ⟨h.waits, fun c hc => ?_⟩
    exact absurd (Dict.get?_pop_eq_some.mp hc).2 (hheld i hlock hne c)

/-- `touch` keeps the unload pending, unless it makes a loaded model used. -/
lemma Pending.touch (h : Pending bound s id) (hu : s.pends id = true → s.model.isSome = false) :
    Pending bound s.touch id where
  waits c hc := by
    have hnone : s.model = none := by simpa using hu (pends_of_waiting hc)
    exact ⟨(h.waits c hc).1, Or.inl hnone⟩
  queued c hc := by
    have hnone := hu (by simp [State.pends, show s.jobs.get? id = some ⟨c, .queued⟩ from hc])
    cases hnone.symm.trans (h.queued c hc).2.1

/-- The call that the reaper issues for an idle model. -/
lemma pending_of_idle {time : ℚ} {ttl : ℤ} (hidle : s.idle time ttl = true)
    (hs : step s (.call id .unload) = some s') : Pending (time - ttl) s' id := by
  simp only [State.idle, Bool.and_eq_true, decide_eq_true_eq] at hidle
  cases move_of_step hs with
  | call hw hj =>
    refine ⟨fun c hc => ?_, fun c hc => ?_⟩
    · rw [Dict.get?_set_self] at hc
      exact ⟨(Option.some.inj hc).symm, Or.inr (le_sub_comm.mp hidle.2)⟩
    · exact absurd (Dict.mem_keys_iff_get?.mpr ⟨_, hc⟩) hj

end Steps

/-! ## Runs of the registry -/

/-- What the reaper awaits is pending since a sweep that found the model idle. -/
def Registry.Inv (s : Registry M L) : Prop :=
  ∀ time lc id rest, s.reaper = .unloading time lc id rest →
    time ≤ s.now ∧ Pending (time - s.ttl) (s.lifecycles lc) id

section Runs

variable {s s' : Registry M L}

omit [DecidableEq L] in
lemma Registry.Inv.sleeping (h : s.reaper = .sleeping) : s.Inv := by
  intro time lc id rest hr
  cases h.symm.trans hr

/-- The rest of a sweep ends asleep, or with an unload for an idle model. -/
lemma Registry.Inv.scan {time : ℚ} (htime : time ≤ s.now) {id : ℕ} {l : List L}
    (hs : s.scan time id l = some s') : s'.Inv := by
  induction l with
  | nil =>
    obtain rfl := Option.some.inj hs
    exact .sleeping rfl
  | cons lc rest ih =>
    rw [Registry.scan] at hs
    split at hs
    · next hidle =>
      obtain ⟨t, ht, rfl⟩ := Option.map_eq_some_iff.mp hs
      rintro time' lc' id' rest' ⟨⟩
      refine ⟨htime, ?_⟩
      simpa [Registry.update] using pending_of_idle hidle ht
    · exact ih hs

/-- A lifecycle takes a step. -/
lemma Registry.Inv.update (h : s.Inv) {lc : L} {t : State M}
    (ht : ∀ time id rest, s.reaper = .unloading time lc id rest →
      Pending (time - s.ttl) (s.lifecycles lc) id → Pending (time - s.ttl) t id) :
    (s.update lc t).Inv := by
  intro time lc' id rest hr
  obtain ⟨htime, hp⟩ := h time lc' id rest hr
  refine ⟨htime, ?_⟩
  by_cases heq : lc' = lc
  · subst heq
    simpa [Registry.update] using ht time id rest hr hp
  · simpa [Registry.update, heq] using hp

/-- Every step that uses no model of a pending unload keeps the invariant. -/
theorem Registry.Inv.step {e : Event M L} (h : s.Inv) (hg : Unused s e) (hs : s.step e = some s') :
    s'.Inv := by
  have hguard : ∀ {time lc id rest}, s.reaper = .unloading time lc id rest →
      (s.lifecycles lc).pends id = true → s.uses lc e = false := by
    intro time lc id rest hr
    rw [Unused, hr] at hg
    exact hg
  cases e with
  | tick t =>
    obtain ⟨ht, rfl⟩ : s.now ≤ t ∧ _ = s' := by simpa [Registry.step] using hs
    intro time lc id rest hr
    obtain ⟨htime, hp⟩ := h time lc id rest hr
    exact ⟨htime.trans ht, hp.waits, hp.queued⟩
  | touch lc =>
    obtain rfl := Option.some.inj hs
    refine h.update fun time id rest hr hp => hp.touch fun hpend => ?_
    simpa [Registry.uses] using hguard hr hpend
  | act lc a =>
    rw [Registry.step] at hs
    split at hs
    · cases hs
    · next hfree =>
      obtain ⟨t, ht, rfl⟩ := Option.map_eq_some_iff.mp hs
      refine h.update fun time id rest hr hp => hp.step ?_ (fun hpend => ?_) ht
      · simp only [hr, Reaper.awaits, beq_self_eq_true, Bool.true_and, Bool.or_eq_true] at hfree
        exact Bool.eq_false_iff.mpr fun ha => hfree (Or.inr ha)
      · simpa [Registry.uses] using hguard hr hpend
  | sweep id =>
    rw [Registry.step] at hs
    split at hs
    · next hr =>
      split at hs
      · obtain rfl := Option.some.inj hs
        exact h
      · exact .scan le_rfl hs
    · cases hs
  | proceed id =>
    rw [Registry.step] at hs
    split at hs
    · cases hs
    · next time lc i rest hr =>
      split at hs
      · cases hs
      · exact .scan (h time lc i rest hr).1 hs
  | stop =>
    rw [Registry.step] at hs
    split at hs
    · obtain rfl := Option.some.inj hs
      exact h
    · obtain rfl := Option.some.inj hs
      exact .sleeping rfl

end Runs

/-- **In a run in which no model is used while an unload of the reaper is pending for it, the reaper
unloads idle models only.** -/
theorem reaper_starts_idle {s : Registry M L} (h : (registry M L).Reach Unused s) :
    StartsIdle s := by
  have hinv : s.Inv := h.invariant (fun s hi => .sleeping hi.1) fun s e s' hI hg hs => hI.step hg hs
  unfold StartsIdle
  split
  · trivial
  · next time lc id rest hr =>
    intro hstart
    obtain ⟨htime, hp⟩ := hinv time lc id rest hr
    obtain ⟨t, ht⟩ := Option.isSome_iff_exists.mp hstart
    obtain ⟨u, hu, -⟩ : ∃ u, step (s.lifecycles lc) (.start id) = some u ∧ s.update lc u = t := by
      simpa [Registry.step, Action.isTick, Reaper.awaits, hr, Action.callsAs] using ht
    cases move_of_step hu with
    | start hjob =>
      have hle := (hp.queued _ hjob).2.2
      linarith

section Example

/-- A registry of one model, which is unloaded after ten seconds. -/
def sampleRegistry : Registry Unit Unit :=
  ⟨.ofList [(text "m", ())], 10, 0, fun _ => created, .sleeping⟩

/-- The model is loaded. -/
def loading : List (Event Unit Unit) :=
  [.act () (.call 0 .ensureLoaded), .act () .enter, .act () (.start 0),
    .act () (.finish 0 (some (some ()))), .act () (.resume 0)]

/-- After ten seconds the reaper wakes up, and its unload takes the lock. -/
def idling : List (Event Unit Unit) := loading ++ [.tick 10, .sweep 1, .act () .enter]

/-- The unload of an idle model is about to start. -/
theorem idling_starts_idle : ∃ s : Registry Unit Unit,
    (registry Unit Unit).run sampleRegistry idling = some s ∧
      (s.step (.act () (.start 1))).isSome = true ∧ StartsIdle s := by
  have hrun : (((registry Unit Unit).run sampleRegistry idling).map
      fun s => (s.step (.act () (.start 1))).isSome) = some true := by decide +kernel
  obtain ⟨s, hs, hstart⟩ := Option.map_eq_some_iff.mp hrun
  have hinit : (registry Unit Unit).Reach Unused sampleRegistry :=
    .init ⟨rfl, fun _ => ⟨⟨rfl, rfl, rfl, rfl, rfl⟩, rfl⟩⟩
  exact ⟨s, hs, hstart, reaper_starts_idle (hinit.run (by decide +kernel) hs)⟩

/-- When the reaper wakes up, a client is unloading the model and the next one waits to load it.
The unload of the reaper comes after both. -/
def crowding : List (Event Unit Unit) :=
  loading ++ [.tick 10, .act () (.call 1 .unload), .act () .enter, .act () (.start 1),
    .act () (.call 2 .ensureLoaded), .sweep 3, .act () (.finish 1 (some none)), .act () (.resume 1),
    .act () .enter, .act () (.start 2), .act () (.finish 2 (some (some ()))), .act () (.resume 2),
    .act () .enter]

/-- It unloads a model that was loaded at this moment. -/
theorem reaper_unloads_fresh_model :
    ∃ s : Registry Unit Unit, (registry Unit Unit).Reachable s ∧ ¬ StartsIdle s := by
  have hrun : (((registry Unit Unit).run sampleRegistry crowding).map
      fun s => decide (StartsIdle s)) = some false := by decide +kernel
  obtain ⟨s, hs, hstart⟩ := Option.map_eq_some_iff.mp hrun
  have hinit : (registry Unit Unit).Reachable sampleRegistry :=
    .init ⟨rfl, fun _ => ⟨⟨rfl, rfl, rfl, rfl, rfl⟩, rfl⟩⟩
  exact ⟨s, hinit.run hs, of_decide_eq_false hstart⟩

end Example

end Omkit.ModelLifecycle
