import Omkit.ModelLifecycle.Registry

/-!
# Shutting a registry down

`unload_all` stops the reaper, goes through `_models`, and awaits an unload for each model that is
loaded.  It goes through the dictionary itself, so a name that is registered meanwhile ends it with
an exception, as an unload that raises does; then the models that it has not come to stay loaded.
-/

namespace Omkit.ModelLifecycle

open Lib

/-! ## The machine -/

/-- Where `unload_all` stands. -/
inductive Shutdown (L : Type)
  | idle
  /-- It awaits the call `id` of `unload`.  Its iterator, made when the dictionary had `size` items,
  has given the first `index` of them. -/
  | awaiting (index size : ℕ) (lc : L) (id : ℕ)
  | returned
  | raised
deriving DecidableEq

/-- A registry, and its `unload_all`. -/
structure Host (M L : Type) where
  registry : Registry M L
  shutdown : Shutdown L

/-- What may happen next; `next` names the call that `unload_all` may issue. -/
inductive HostEvent (M L : Type)
  /-- A step of the registry that is none of `unload_all`. -/
  | other (e : Event M L)
  | register (name : PyStr) (lc : L)
  | unloadAll (next : ℕ)
  /-- The awaited call takes the lock. -/
  | enter (next : ℕ)
  /-- The awaited call goes on with the result of its job. -/
  | resume (next : ℕ)
  | cancel

variable {M L : Type} [DecidableEq L]

/-- Is it a call of `unload_all`? -/
def HostEvent.starts : HostEvent M L → Bool
  | .unloadAll _ => true
  | _ => false

/-- Does the step belong to the coroutine of the call? -/
def State.isStepOf (s : State M) (id : ℕ) : Action M → Bool
  | .call i _ | .cancel i | .resume i => i == id
  | .enter => s.waiting.items.head?.any fun p => p.1 == id
  | .tick _ | .start _ | .finish _ _ => false

/-- Is it a step of the call that `unload_all` awaits? -/
def Host.owns (s : Host M L) (e : Event M L) : Bool :=
  match s.shutdown, e with
  | .awaiting _ _ lc id, .act lc' a => lc' == lc && (s.registry.lifecycles lc).isStepOf id a
  | _, _ => false

/-- The loop from the item `index` on, up to its next `await`. -/
def Registry.unloadFrom (s : Registry M L) (size next : ℕ) :
    ℕ → List (PyStr × L) → Option (Host M L)
  | _, [] => some ⟨s, .returned⟩
  | index, (_, lc) :: rest =>
    if (s.lifecycles lc).model.isSome then
      (ModelLifecycle.step (s.lifecycles lc) (.call next .unload)).map fun t =>
        ⟨s.update lc t, .awaiting (index + 1) size lc next⟩
    else s.unloadFrom size next (index + 1) rest

/-- The iterator is asked for its item `index`; it raises if the size of the dictionary has
changed. -/
def Registry.unloadNext (s : Registry M L) (index size next : ℕ) : Option (Host M L) :=
  if s.models.items.length = size then
    s.unloadFrom size next index (s.models.items.drop index)
  else some ⟨s, .raised⟩

/-- One step. -/
def Host.step (s : Host M L) : HostEvent M L → Option (Host M L)
  | .other e =>
    if s.owns e then none else (s.registry.step e).map fun r => { s with registry := r }
  | .register name lc =>
    some { s with registry := { s.registry with models := s.registry.models.set name lc } }
  | .unloadAll next => match s.shutdown with
    | .awaiting .. => none
    | .idle | .returned | .raised => (s.registry.step .stop).bind fun r =>
      r.unloadNext 0 r.models.items.length next
  | .enter next => match s.shutdown with
    | .awaiting index size lc id =>
      let lifecycle := s.registry.lifecycles lc
      if lifecycle.waiting.items.head? = some (id, .unload) then
        (ModelLifecycle.step lifecycle .enter).bind fun t =>
          let r := s.registry.update lc t
          -- the call submits its job, or it returns
          if t.lock = some id then some { s with registry := r } else r.unloadNext index size next
      else none
    | .idle | .returned | .raised => none
  | .resume next => match s.shutdown with
    | .awaiting index size lc id =>
      let lifecycle := s.registry.lifecycles lc
      match lifecycle.jobs.get? id with
      | some ⟨.unload, .finished result⟩ =>
        (ModelLifecycle.step lifecycle (.resume id)).bind fun t =>
          let r := s.registry.update lc t
          if result.isSome then r.unloadNext index size next else some ⟨r, .raised⟩
      | _ => none
    | .idle | .returned | .raised => none
  | .cancel => match s.shutdown with
    | .awaiting _ _ lc id => (ModelLifecycle.step (s.registry.lifecycles lc) (.cancel id)).map
        fun t => ⟨s.registry.update lc t, .raised⟩
    | .idle | .returned | .raised => none

/-- A registry whose lifecycles were just created. -/
def host (M L : Type) [DecidableEq L] : Machine (Host M L) (HostEvent M L) where
  init s := (registry M L).init s.registry ∧ s.shutdown = .idle
  step := Host.step

/-! ## What ends it with an exception -/

/-- `unload_all` has not ended yet. -/
def Shutdown.awaits : Shutdown L → Bool
  | .awaiting .. => true
  | .idle | .returned | .raised => false

/-- The job has ended with an exception. -/
def Job.failed (j : Job M) : Bool :=
  match j.thread with
  | .finished none => true
  | .queued | .executing | .finished (some _) => false

/-- A new name is registered while `unload_all` runs, the unload that it awaits raises, or it is
cancelled. -/
def Fatal (s : Host M L) : HostEvent M L → Bool
  | .register name _ => s.shutdown.awaits && decide (name ∉ s.registry.models.keys)
  | .resume _ => match s.shutdown with
    | .awaiting _ _ lc id => ((s.registry.lifecycles lc).jobs.get? id).any Job.failed
    | .idle | .returned | .raised => false
  | .cancel => s.shutdown.awaits
  | .other _ | .unloadAll _ | .enter _ => false

/-- `unload_all` has raised, or will when it goes on. -/
def Doomed (s : Host M L) : Prop :=
  match s.shutdown with
  | .awaiting _ size _ _ => size ≠ s.registry.models.items.length
  | .raised => True
  | .idle | .returned => False

/-- The dictionary has not shrunk. -/
def Grown (s : Host M L) : Prop :=
  match s.shutdown with
  | .awaiting _ size _ _ => size ≤ s.registry.models.items.length
  | .idle | .returned | .raised => True

section Steps

variable {r r' : Registry M L} {s s' : Host M L}

@[simp] lemma update_models (r : Registry M L) (lc : L) (t : State M) :
    (r.update lc t).models = r.models := rfl

lemma scan_models {time : ℚ} {id : ℕ} {l : List L} (hs : r.scan time id l = some r') :
    r'.models = r.models := by
  induction l with
  | nil =>
    obtain rfl := Option.some.inj hs
    rfl
  | cons lc rest ih =>
    rw [Registry.scan] at hs
    split at hs
    · obtain ⟨t, -, rfl⟩ := Option.map_eq_some_iff.mp hs
      rfl
    · exact ih hs

/-- The registry goes on with the same lifecycles. -/
lemma step_models {e : Event M L} (hs : r.step e = some r') : r'.models = r.models := by
  cases e with
  | tick t =>
    rw [Registry.step] at hs
    split_ifs at hs
    obtain rfl := Option.some.inj hs
    rfl
  | touch lc =>
    obtain rfl := Option.some.inj hs
    rfl
  | act lc a =>
    rw [Registry.step] at hs
    split_ifs at hs
    obtain ⟨t, -, rfl⟩ := Option.map_eq_some_iff.mp hs
    rfl
  | sweep id =>
    rw [Registry.step] at hs
    split at hs
    · split_ifs at hs
      · obtain rfl := Option.some.inj hs
        rfl
      · exact scan_models hs
    · cases hs
  | proceed id =>
    rw [Registry.step] at hs
    split at hs
    · cases hs
    · split_ifs at hs
      exact scan_models hs
  | stop =>
    rw [Registry.step] at hs
    split at hs
    · obtain rfl := Option.some.inj hs
      rfl
    · obtain rfl := Option.some.inj hs
      rfl

/-- A loop over an unchanged dictionary does not raise. -/
lemma unloadFrom_spec {size next index : ℕ} {l : List (PyStr × L)}
    (hsize : r.models.items.length = size) (hs : r.unloadFrom size next index l = some s) :
    Grown s ∧ ¬ Doomed s ∧ s.shutdown ≠ .idle := by
  induction l generalizing index with
  | nil =>
    obtain rfl := Option.some.inj hs
    exact ⟨trivial, id, fun h => by cases h⟩
  | cons p rest ih =>
    rw [Registry.unloadFrom] at hs
    split at hs
    · obtain ⟨t, -, rfl⟩ := Option.map_eq_some_iff.mp hs
      exact ⟨hsize.ge, fun h => h hsize.symm, fun h => by cases h⟩
    · exact ih hs

lemma unloadNext_spec {index size next : ℕ} (hs : r.unloadNext index size next = some s) :
    Grown s ∧ (Doomed s ↔ size ≠ r.models.items.length) ∧ s.shutdown ≠ .idle := by
  rw [Registry.unloadNext] at hs
  split at hs
  · next hsize =>
    obtain ⟨hgrown, hfine, hbegun⟩ := unloadFrom_spec hsize hs
    exact ⟨hgrown, iff_of_false hfine fun h => h hsize.symm, hbegun⟩
  · next hsize =>
    obtain rfl := Option.some.inj hs
    exact ⟨trivial, iff_of_true trivial fun h => hsize h.symm, fun h => by cases h⟩

omit [DecidableEq L] in
/-- A registration makes the dictionary longer exactly when the name is new. -/
lemma length_set (d : Dict PyStr L) (name : PyStr) (lc : L) :
    (d.set name lc).items.length = d.items.length + if name ∈ d.keys then 0 else 1 := by
  by_cases hname : name ∈ d.keys <;> simp [Dict.set, hname]

/-- A step that is not the start dooms it exactly when it is fatal. -/
lemma doomed_step {e : HostEvent M L} (hone : e.starts = false) (hgrown : Grown s)
    (hbegun : s.shutdown ≠ .idle) (hs : s.step e = some s') :
    Grown s' ∧ (Doomed s' ↔ Doomed s ∨ Fatal s e = true) ∧ s'.shutdown ≠ .idle := by
  cases e with
  | other e =>
    rw [Host.step] at hs
    split at hs
    · cases hs
    · obtain ⟨r, hr, rfl⟩ := Option.map_eq_some_iff.mp hs
      refine ⟨?_, ?_, hbegun⟩
      · simpa only [Grown, step_models hr] using hgrown
      · simp only [Doomed, step_models hr, Fatal, Bool.false_eq_true, or_false]
  | register name lc =>
    obtain rfl := Option.some.inj hs
    cases hphase : s.shutdown with
    | idle => exact absurd hphase hbegun
    | awaiting index size lc' id =>
      have hle : size ≤ s.registry.models.items.length := by simpa [Grown, hphase] using hgrown
      by_cases hname : name ∈ s.registry.models.keys
      · simp [Grown, Doomed, Fatal, Shutdown.awaits, length_set, hphase, hname, hle]
      · simp only [Grown, Doomed, Fatal, Shutdown.awaits, length_set, hphase, hname]
        refine ⟨?_, ?_, fun h => by cases h⟩
        · simp only [if_false]
          omega
        · simp only [if_false, not_false_eq_true, decide_true, Bool.and_self, or_true, iff_true]
          omega
    | returned => simp [Grown, Doomed, Fatal, Shutdown.awaits, hphase]
    | raised => simp [Grown, Doomed, Fatal, Shutdown.awaits, hphase]
  | unloadAll next => cases hone
  | enter next =>
    cases hphase : s.shutdown with
    | awaiting index size lc id =>
      simp only [Host.step, hphase] at hs
      split at hs
      · obtain ⟨t, ht, hs⟩ := Option.bind_eq_some_iff.mp hs
        split at hs
        · -- it submits its job and waits on
          obtain rfl := Option.some.inj hs
          refine ⟨?_, by simp [Doomed, Fatal, hphase], fun h => by cases h⟩
          simpa [Grown, hphase] using hgrown
        · obtain ⟨hg, hd, hb⟩ := unloadNext_spec hs
          refine ⟨hg, hd.trans ?_, hb⟩
          simp [Doomed, Fatal, hphase]
      · cases hs
    | _ => simp [Host.step, hphase] at hs
  | resume next =>
    cases hphase : s.shutdown with
    | awaiting index size lc id =>
      simp only [Host.step, hphase] at hs
      split at hs
      · next result hjob =>
        obtain ⟨t, ht, hs⟩ := Option.bind_eq_some_iff.mp hs
        cases result with
        | some m =>
          obtain ⟨hg, hd, hb⟩ := unloadNext_spec (by simpa using hs)
          refine ⟨hg, hd.trans ?_, hb⟩
          simp [Doomed, Fatal, hphase, hjob, Job.failed]
        | none =>
          obtain rfl : _ = s' := by simpa using hs
          refine ⟨trivial, iff_of_true trivial (Or.inr ?_), fun h => by cases h⟩
          simp [Fatal, hphase, hjob, Job.failed]
      · cases hs
    | _ => simp [Host.step, hphase] at hs
  | cancel =>
    cases hphase : s.shutdown with
    | awaiting index size lc id =>
      simp only [Host.step, hphase] at hs
      obtain ⟨t, ht, rfl⟩ := Option.map_eq_some_iff.mp hs
      refine ⟨trivial, iff_of_true trivial (Or.inr ?_), fun h => by cases h⟩
      simp [Fatal, Shutdown.awaits, hphase]
    | _ => simp [Host.step, hphase] at hs

/-- A run without another start dooms it exactly when a step of it is fatal. -/
lemma doomed_run {es : List (HostEvent M L)} (hone : ∀ e ∈ es, e.starts = false)
    (hgrown : Grown s) (hbegun : s.shutdown ≠ .idle) (hr : (host M L).run s es = some s') :
    (Doomed s' ↔ Doomed s ∨ ¬ (host M L).Along (fun s e => Fatal s e = false) s es) ∧
      s'.shutdown ≠ .idle := by
  induction es generalizing s with
  | nil =>
    obtain rfl : s = s' := by simpa using hr
    simpa [Machine.Along] using hbegun
  | cons e es ih =>
    obtain ⟨t, ht, hr⟩ := Machine.run_cons.mp hr
    obtain ⟨hg, hd, hb⟩ := doomed_step (hone e List.mem_cons_self) hgrown hbegun ht
    obtain ⟨hd', hb'⟩ := ih (fun e he => hone e (List.mem_cons_of_mem _ he)) hg hb hr
    refine ⟨hd'.trans ?_, hb'⟩
    rw [Machine.along_cons ht, hd, not_and_or, Bool.not_eq_false, or_assoc]

end Steps

/-- **`unload_all` raises exactly if a new name is registered while it runs, also during the last
unload, if an unload that it awaits raises, or if it is cancelled.** -/
theorem unloadAll_raises_iff {s s' : Host M L} {id : ℕ} {es : List (HostEvent M L)}
    (hone : ∀ e ∈ es, e.starts = false)
    (hr : (host M L).run s (.unloadAll id :: es) = some s') (hended : s'.shutdown.awaits = false) :
    s'.shutdown = .raised ↔
      ¬ (host M L).Along (fun s e => Fatal s e = false) s (.unloadAll id :: es) := by
  obtain ⟨t, ht, hr⟩ := Machine.run_cons.mp hr
  have hstart : Grown t ∧ ¬ Doomed t ∧ t.shutdown ≠ .idle := by
    have hnext : ∃ r : Registry M L, r.unloadNext 0 r.models.items.length id = some t := by
      simp only [host, Host.step] at ht
      split at ht
      · cases ht
      all_goals
        obtain ⟨r, -, hr⟩ := Option.bind_eq_some_iff.mp ht
        exact ⟨r, hr⟩
    obtain ⟨r, hr⟩ := hnext
    obtain ⟨hg, hd, hb⟩ := unloadNext_spec hr
    exact ⟨hg, fun h => hd.mp h rfl, hb⟩
  obtain ⟨hg, hd, hb⟩ := hstart
  obtain ⟨hdoom, hbegun⟩ := doomed_run hone hg hb hr
  have hlast : s'.shutdown = .raised ↔ Doomed s' := by
    cases hphase : s'.shutdown with
    | idle => exact absurd hphase hbegun
    | awaiting index size lc i => simp [Shutdown.awaits, hphase] at hended
    | returned => simp [Doomed, hphase]
    | raised => simp [Doomed, hphase]
  rw [hlast, hdoom, Machine.along_cons ht]
  simp [Fatal, hd]

section Example

/-- A registry of two models, both of them loaded. -/
def sampleHost : Host Unit ℕ where
  registry := ⟨.ofList [(text "a", 0), (text "b", 1)], 300, 0,
    fun _ => { created with model := some () }, .sleeping⟩
  shutdown := .idle

/-- The call `id` unloads a model. -/
def unloadOne (lc id next : ℕ) : List (HostEvent Unit ℕ) :=
  [.enter next, .other (.act lc (.start id)), .other (.act lc (.finish id (some none))),
    .resume next]

/-- A third model is registered while the first one is unloaded. -/
def registering : List (HostEvent Unit ℕ) := .register (text "c") 2 :: unloadOne 0 0 1

/-- The second one stays loaded. -/
theorem registering_raises : ∃ s : Host Unit ℕ,
    (host Unit ℕ).run sampleHost (.unloadAll 0 :: registering) = some s ∧
      s.shutdown = .raised ∧ (s.registry.lifecycles 1).model = some () := by
  have hrun : ((host Unit ℕ).run sampleHost (.unloadAll 0 :: registering)).map
      (fun s => (s.shutdown.awaits, (s.registry.lifecycles 1).model)) = some (false, some ()) := by
    decide +kernel
  obtain ⟨s, hs, hend⟩ := Option.map_eq_some_iff.mp hrun
  obtain ⟨hended, hmodel⟩ := Prod.mk.injEq .. ▸ hend
  exact ⟨s, hs, (unloadAll_raises_iff (by decide) hs hended).mpr (by decide +kernel), hmodel⟩

end Example

/-! ## What it has unloaded -/

/-- Does the step set `_model` to a loaded model? -/
def State.loads (s : State M) : Action M → Bool
  | .resume id => (s.jobs.get? id).any fun j => j.loaded.isSome
  | _ => false

/-- The steps that neither load the model nor register it. -/
def Spares (lc : L) (s : Host M L) : HostEvent M L → Bool
  | .other (.act lc' a) => !(lc' == lc && (s.registry.lifecycles lc).loads a)
  | .register _ lc' => lc' != lc
  | _ => true

/-- The model is not loaded, if it was among the items that the iterator has given.  The unload of
the last one may still be under way. -/
def Cleared (lc : L) (s : Host M L) : Prop :=
  match s.shutdown with
  | .awaiting index _ lc' _ => lc' ≠ lc →
    lc ∈ (s.registry.models.items.take index).map Prod.snd → (s.registry.lifecycles lc).model = none
  | .returned =>
    lc ∈ s.registry.models.items.map Prod.snd → (s.registry.lifecycles lc).model = none
  | .idle | .raised => True

section Steps

variable {r r' : Registry M L} {s s' : Host M L} {lc : L}

/-- No step but the end of a load sets `_model`. -/
lemma none_step {t t' : State M} {a : Action M} (hnone : t.model = none) (hload : t.loads a = false)
    (hs : step t a = some t') : t'.model = none := by
  cases move_of_step hs with
  | loaded hlock hw hm => cases hnone.symm.trans hm
  | unload hlock hw hm => cases hnone.symm.trans hm
  | @resume id c result hjob hlock =>
    have hquiet : (⟨c, .finished result⟩ : Job M).loaded = none := by
      simpa [State.loads, hjob] using hload
    unfold State.resume State.returns
    dsimp only
    split
    · exact hquiet
    · rfl
    · exact hnone
  | _ => exact hnone

/-- A call of `unload` that returns when it takes the lock has found the model unloaded. -/
lemma enter_unload {t t' : State M} {id : ℕ} (hhead : t.waiting.items.head? = some (id, .unload))
    (hfree : t'.lock ≠ some id) (hs : step t .enter = some t') : t'.model = none := by
  cases move_of_step hs with
  | loaded hlock hw hm => simp [hw] at hhead
  | load hlock hw hm => simp [hw] at hhead
  | unloaded hlock hw hm => exact hm
  | @unload i rest m hlock hw hm =>
    obtain rfl : i = id := by simpa [hw] using hhead
    exact absurd rfl hfree

lemma resume_unload {t t' : State M} {id : ℕ} {m : Option M}
    (hjob : t.jobs.get? id = some ⟨.unload, .finished (some m)⟩)
    (hs : step t (.resume id) = some t') : t'.model = none := by
  cases move_of_step hs with
  | resume hjob' hlock =>
    cases hjob.symm.trans hjob'
    rfl

lemma update_none {lc' : L} {t : State M} (hnone : lc' ≠ lc → (r.lifecycles lc).model = none)
    (ht : lc' = lc → t.model = none) : ((r.update lc' t).lifecycles lc).model = none := by
  by_cases heq : lc = lc'
  · subst heq
    simpa [Registry.update] using ht rfl
  · simpa [Registry.update, heq] using hnone fun h => heq h.symm

lemma scan_none {time : ℚ} {id : ℕ} {l : List L} (hnone : (r.lifecycles lc).model = none)
    (hs : r.scan time id l = some r') : (r'.lifecycles lc).model = none := by
  induction l with
  | nil =>
    obtain rfl := Option.some.inj hs
    exact hnone
  | cons lc' rest ih =>
    rw [Registry.scan] at hs
    split at hs
    · obtain ⟨t, ht, rfl⟩ := Option.map_eq_some_iff.mp hs
      refine update_none (fun _ => hnone) fun heq => ?_
      exact none_step (heq ▸ hnone) rfl ht
    · exact ih hs

/-- An unloaded model stays so in a registry that goes on without loading it. -/
lemma registry_none_step {e : Event M L} (hnone : (r.lifecycles lc).model = none)
    (hload : ∀ a, e = .act lc a → (r.lifecycles lc).loads a = false) (hs : r.step e = some r') :
    (r'.lifecycles lc).model = none := by
  cases e with
  | tick t =>
    rw [Registry.step] at hs
    split_ifs at hs
    obtain rfl := Option.some.inj hs
    exact hnone
  | touch lc' =>
    obtain rfl := Option.some.inj hs
    refine update_none (fun _ => hnone) fun heq => ?_
    exact heq ▸ hnone
  | act lc' a =>
    rw [Registry.step] at hs
    split_ifs at hs
    obtain ⟨t, ht, rfl⟩ := Option.map_eq_some_iff.mp hs
    refine update_none (fun _ => hnone) ?_
    rintro rfl
    exact none_step hnone (hload a rfl) ht
  | sweep id =>
    rw [Registry.step] at hs
    split at hs
    · split_ifs at hs
      · obtain rfl := Option.some.inj hs
        exact hnone
      · exact scan_none hnone hs
    · cases hs
  | proceed id =>
    rw [Registry.step] at hs
    split at hs
    · cases hs
    · split_ifs at hs
      exact scan_none hnone hs
  | stop =>
    rw [Registry.step] at hs
    split at hs
    · obtain rfl := Option.some.inj hs
      exact hnone
    · next time lc' i rest hr =>
      obtain rfl := Option.some.inj hs
      refine update_none (fun _ => hnone) ?_
      rintro rfl
      -- The call of the reaper is cancelled, if it has not ended.
      cases ht : ModelLifecycle.step (r.lifecycles lc') (.cancel i) with
      | none => exact hnone
      | some t => exact none_step hnone rfl ht

/-- The loop goes on after items that are cleared. -/
lemma unloadFrom_cleared {size next : ℕ} {before l : List (PyStr × L)}
    (hitems : before ++ l = r.models.items)
    (hbefore : lc ∈ before.map Prod.snd → (r.lifecycles lc).model = none)
    (hs : r.unloadFrom size next before.length l = some s) : Cleared lc s := by
  induction l generalizing before with
  | nil =>
    obtain rfl := Option.some.inj hs
    rw [List.append_nil] at hitems
    simpa only [Cleared, ← hitems] using hbefore
  | cons p rest ih =>
    have hnext : (before ++ [p]) ++ rest = r.models.items := by simpa using hitems
    rw [Registry.unloadFrom] at hs
    split at hs
    · obtain ⟨t, ht, rfl⟩ := Option.map_eq_some_iff.mp hs
      -- The call leaves the other models as they are.
      intro hne hmem
      have htake : (r.models.items.take (before.length + 1)).map Prod.snd =
          before.map Prod.snd ++ [p.2] := by
        rw [← hnext, List.take_left' (by simp)]
        simp
      rw [update_models, htake, List.mem_append, List.mem_singleton] at hmem
      refine update_none (fun _ => hbefore (hmem.resolve_right fun h => hne h.symm)) fun h => ?_
      exact absurd h hne
    · next hnone =>
      refine ih hnext ?_ (by simpa using hs)
      rw [List.map_append, List.mem_append, List.map_singleton, List.mem_singleton]
      rintro (hmem | rfl)
      · exact hbefore hmem
      · simpa using hnone

lemma unloadNext_cleared {index size next : ℕ}
    (hbefore : lc ∈ (r.models.items.take index).map Prod.snd → (r.lifecycles lc).model = none)
    (hs : r.unloadNext index size next = some s) : Cleared lc s := by
  rw [Registry.unloadNext] at hs
  split at hs
  · rcases Nat.le_total index r.models.items.length with hindex | hindex
    · have hlength : (r.models.items.take index).length = index :=
        (List.length_take ..).trans (min_eq_left hindex)
      have hfrom : r.unloadFrom size next (r.models.items.take index).length
          (r.models.items.drop index) = some s := by rwa [hlength]
      exact unloadFrom_cleared (List.take_append_drop index _) hbefore hfrom
    · rw [List.drop_eq_nil_of_le hindex] at hs
      obtain rfl := Option.some.inj hs
      rwa [List.take_of_length_le hindex] at hbefore
  · obtain rfl := Option.some.inj hs
    exact trivial

omit [DecidableEq L] in
/-- A registration of another model adds it to no part of the dictionary. -/
lemma mem_take_set {d : Dict PyStr L} {name : PyStr} {lc lc' : L} {index : ℕ} (hne : lc' ≠ lc)
    (hmem : lc ∈ ((d.set name lc').items.take index).map Prod.snd) :
    lc ∈ (d.items.take index).map Prod.snd := by
  obtain ⟨p, hp, rfl⟩ := List.mem_map.mp hmem
  by_cases hname : name ∈ d.keys
  · simp only [Dict.set, hname, if_true, ← List.map_take] at hp
    obtain ⟨q, hq, hqp⟩ := List.mem_map.mp hp
    by_cases heq : q.1 = name
    · rw [if_pos heq] at hqp
      exact absurd (hqp ▸ rfl) hne
    · rw [if_neg heq] at hqp
      exact hqp ▸ List.mem_map_of_mem hq
  · simp only [Dict.set, hname, if_false, List.take_append, List.mem_append] at hp
    rcases hp with hp | hp
    · exact List.mem_map_of_mem hp
    · have heq : p = (name, lc') := by simpa using List.mem_of_mem_take hp
      exact absurd (heq ▸ rfl) hne

lemma cleared_unloadAll {next : ℕ} (hs : s.step (.unloadAll next) = some s') : Cleared lc s' := by
  simp only [Host.step] at hs
  split at hs
  · cases hs
  all_goals
    obtain ⟨r, -, hr⟩ := Option.bind_eq_some_iff.mp hs
    exact unloadNext_cleared (by simp) hr

lemma cleared_step {e : HostEvent M L} (h : Cleared lc s) (hg : Spares lc s e = true)
    (hs : s.step e = some s') : Cleared lc s' := by
  cases e with
  | other e =>
    rw [Host.step] at hs
    split at hs
    · cases hs
    · obtain ⟨r, hr, rfl⟩ := Option.map_eq_some_iff.mp hs
      have hload : ∀ a, e = .act lc a → (s.registry.lifecycles lc).loads a = false := by
        rintro a rfl
        simpa [Spares] using hg
      have hkeep : (s.registry.lifecycles lc).model = none → (r.lifecycles lc).model = none :=
        fun hnone => registry_none_step hnone hload hr
      cases hphase : s.shutdown with
      | awaiting index size lc' id =>
        simp only [Cleared, hphase, step_models hr] at h ⊢
        exact fun hne hmem => hkeep (h hne hmem)
      | returned =>
        simp only [Cleared, hphase, step_models hr] at h ⊢
        exact fun hmem => hkeep (h hmem)
      | idle => simp [Cleared]
      | raised => simp [Cleared]
  | register name lc' =>
    obtain rfl := Option.some.inj hs
    have hne : lc' ≠ lc := by simpa [Spares] using hg
    cases hphase : s.shutdown with
    | awaiting index size lc'' id =>
      simp only [Cleared, hphase] at h ⊢
      exact fun hne' hmem => h hne' (mem_take_set hne hmem)
    | returned =>
      simp only [Cleared, hphase] at h ⊢
      intro hmem
      obtain ⟨p, hp, rfl⟩ := List.mem_map.mp hmem
      rcases Dict.mem_set.mp hp with rfl | ⟨hp, -⟩
      · exact absurd rfl hne
      · exact h (List.mem_map_of_mem hp)
    | idle => simp [Cleared]
    | raised => simp [Cleared]
  | unloadAll next => exact cleared_unloadAll hs
  | enter next =>
    cases hphase : s.shutdown with
    | awaiting index size lc' id =>
      simp only [Host.step, hphase] at hs
      split at hs
      · next hhead =>
        obtain ⟨t, ht, hs⟩ := Option.bind_eq_some_iff.mp hs
        simp only [Cleared, hphase] at h
        split at hs
        · obtain rfl := Option.some.inj hs
          intro hne hmem
          exact update_none (fun _ => h hne hmem) fun heq => absurd heq hne
        · next hfree =>
          refine unloadNext_cleared (fun hmem => ?_) hs
          exact update_none (fun hne => h hne hmem) fun _ => enter_unload hhead hfree ht
      · cases hs
    | _ => simp [Host.step, hphase] at hs
  | resume next =>
    cases hphase : s.shutdown with
    | awaiting index size lc' id =>
      simp only [Host.step, hphase] at hs
      split at hs
      · next result hjob =>
        obtain ⟨t, ht, hs⟩ := Option.bind_eq_some_iff.mp hs
        simp only [Cleared, hphase] at h
        cases result with
        | some m =>
          refine unloadNext_cleared (fun hmem => ?_) (by simpa using hs)
          exact update_none (fun hne => h hne hmem) fun _ => resume_unload hjob ht
        | none =>
          obtain rfl : _ = s' := by simpa using hs
          exact trivial
      · cases hs
    | _ => simp [Host.step, hphase] at hs
  | cancel =>
    cases hphase : s.shutdown with
    | awaiting index size lc' id =>
      simp only [Host.step, hphase] at hs
      obtain ⟨t, ht, rfl⟩ := Option.map_eq_some_iff.mp hs
      exact trivial
    | _ => simp [Host.step, hphase] at hs

lemma cleared_run {es : List (HostEvent M L)} (h : Cleared lc s)
    (hg : (host M L).Along (fun s e => Spares lc s e = true) s es)
    (hr : (host M L).run s es = some s') : Cleared lc s' := by
  induction es generalizing s with
  | nil =>
    obtain rfl : s = s' := by simpa using hr
    exact h
  | cons e es ih =>
    obtain ⟨t, ht, hr⟩ := Machine.run_cons.mp hr
    exact ih (cleared_step h hg.1 ht) (hg.2 t ht) hr

end Steps

/-- **Once `unload_all` has returned, a registered model is not loaded, whatever its other callers
did meanwhile: unless a load of it has ended since the start, or it was registered since.** -/
theorem unloadAll_clears {s s' : Host M L} {lc : L} {id : ℕ} {es : List (HostEvent M L)}
    (hr : (host M L).run s (.unloadAll id :: es) = some s')
    (hg : (host M L).Along (fun s e => Spares lc s e = true) s (.unloadAll id :: es))
    (hended : s'.shutdown = .returned) (hmem : lc ∈ s'.registry.models.items.map Prod.snd) :
    (s'.registry.lifecycles lc).model = none := by
  obtain ⟨t, ht, hr⟩ := Machine.run_cons.mp hr
  have hclear := cleared_run (cleared_unloadAll ht) (hg.2 t ht) hr
  rw [Cleared, hended] at hclear
  exact hclear hmem

section Example

/-- A client is before `unload_all` in the queue of the second model, and the first one loses its
name. -/
def crowded : List (HostEvent Unit ℕ) :=
  .other (.act 1 (.call 7 .unload)) :: .register (text "a") 2 :: unloadOne 0 0 1 ++
    [.other (.act 1 .enter), .other (.act 1 (.start 7)), .other (.act 1 (.finish 7 (some none))),
      .other (.act 1 (.resume 7)), .enter 2]

/-- The call that it awaits finds the second model unloaded. -/
theorem crowded_clears : ∃ s : Host Unit ℕ,
    (host Unit ℕ).run sampleHost (.unloadAll 0 :: crowded) = some s ∧
      s.shutdown = .returned ∧ (s.registry.lifecycles 1).model = none := by
  have hrun : ((host Unit ℕ).run sampleHost (.unloadAll 0 :: crowded)).map (fun s =>
      (s.shutdown, s.registry.models.items.map Prod.snd)) = some (.returned, [2, 1]) := by
    decide +kernel
  obtain ⟨s, hs, hend⟩ := Option.map_eq_some_iff.mp hrun
  obtain ⟨hreturned, hmodels⟩ := Prod.mk.injEq .. ▸ hend
  exact ⟨s, hs, hreturned, unloadAll_clears hs (by decide +kernel) hreturned (by simp [hmodels])⟩

end Example

end Omkit.ModelLifecycle
