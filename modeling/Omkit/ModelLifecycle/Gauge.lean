import Omkit.ModelLifecycle

/-!
# The gauge

Calls of one lifecycle made one after the other.  `MODEL_LOADED` is set after a load and before an
unload, so it is wrong once a load has returned `None` or an unload has raised.
-/

namespace Omkit.ModelLifecycle

open Lib

variable {M : Type}

/-! ## Whole calls -/

/-- A call that nobody else overlaps, with what `_do_load` or `_do_unload` does if it runs: it returns
an object, which may be `None`, or it raises. -/
structure Whole (M : Type) where
  call : Call
  result : Option (Option M)
deriving DecidableEq

/-- Does the call hand a job to the executor? -/
def State.submits (s : State M) : Call → Bool
  | .ensureLoaded => s.model.isNone
  | .unload => s.model.isSome

/-- The state after a call. -/
def State.whole (s : State M) (w : Whole M) : State M :=
  match w.call, s.model, w.result with
  | .ensureLoaded, some _, _ => s.returns
  | .ensureLoaded, none, some m => { s with model := m, gauge := true }.returns
  | .ensureLoaded, none, none => s
  | .unload, none, _ => s
  | .unload, some _, some _ => { s with model := none, lastUsed := 0, gauge := false }
  | .unload, some _, none => { s with gauge := false }

/-- The call raises. -/
def State.Fails (s : State M) (w : Whole M) : Prop := s.submits w.call = true ∧ w.result = none

/-- What a caller and a thread do in a call. -/
def State.actions (s : State M) (id : ℕ) (w : Whole M) : List (Action M) :=
  [.call id w.call, .enter] ++
    if s.submits w.call then [.start id, .finish id w.result, .resume id] else []

/-- Nobody holds the lock or waits for it, and no job is left. -/
structure Idle (s : State M) : Prop where
  lock : s.lock = none
  waiting : s.waiting = .empty
  jobs : s.jobs = .empty

/-- The whole calls are runs of the machine. -/
theorem run_actions {s : State M} (h : Idle s) (id : ℕ) (w : Whole M) :
    machine.run s (s.actions id w) = some (s.whole w) ∧ Idle (s.whole w) := by
  obtain ⟨hlock, hwaiting, hjobs⟩ := h
  obtain ⟨now, model, lastUsed, gauge, lock, waiting, jobs, returned⟩ := s
  obtain ⟨call, result⟩ := w
  dsimp only at hlock hwaiting hjobs
  subst hlock hwaiting hjobs
  have hfirst : (Dict.empty.set id call).items = [(id, call)] := rfl
  have hend : ∀ s' : State M, s'.lock = none → s'.waiting = .empty → s'.jobs = .empty → Idle s' :=
    fun _ hl hw hj => ⟨hl, hw, hj⟩
  cases call with
  | ensureLoaded =>
    cases model with
    | some m =>
      refine ⟨?_, hend _ rfl rfl rfl⟩
      simp [State.actions, State.submits, machine, Machine.run, step, hfirst, State.ensureLoaded,
        State.whole, State.returns]
    | none =>
      cases result with
      | some m =>
        refine ⟨?_, hend _ rfl rfl rfl⟩
        simp [State.actions, State.submits, machine, Machine.run, step, hfirst, State.ensureLoaded,
          State.submit, State.resume, State.whole, State.returns, unloading]
      | none =>
        refine ⟨?_, hend _ rfl rfl rfl⟩
        simp [State.actions, State.submits, machine, Machine.run, step, hfirst, State.ensureLoaded,
          State.submit, State.resume, State.whole]
  | unload =>
    cases model with
    | none =>
      refine ⟨?_, hend _ rfl rfl rfl⟩
      simp [State.actions, State.submits, machine, Machine.run, step, hfirst, State.unload,
        State.whole]
    | some m =>
      cases result with
      | some m =>
        refine ⟨?_, hend _ rfl rfl rfl⟩
        simp [State.actions, State.submits, machine, Machine.run, step, hfirst, State.unload,
          State.submit, State.resume, State.whole]
      | none =>
        refine ⟨?_, hend _ rfl rfl rfl⟩
        simp [State.actions, State.submits, machine, Machine.run, step, hfirst, State.unload,
          State.submit, State.resume, State.whole]

/-- A lifecycle that was just created, and its calls. -/
def calls : Machine (State M) (Whole M) where
  init s := machine.init s ∧ s.gauge = false
  step s w := some (s.whole w)

/-! ## The truth of the gauge -/

/-- If the call returns and has changed the gauge or the model, the gauge is 1 exactly if the model is
loaded; if it raises, it leaves both as they were. -/
def Truthful (s : State M) (w : Whole M) : Prop :=
  (¬ s.Fails w → (s.whole w).gauge ≠ s.gauge ∨ (s.whole w).model ≠ s.model →
    ((s.whole w).gauge = true ↔ (s.whole w).model.isSome = true)) ∧
  (s.Fails w → (s.whole w).gauge = s.gauge ∧ (s.whole w).model = s.model)

/-- A load does not return `None`, and an unload does not raise. -/
def Clean (s : State M) (w : Whole M) : Prop :=
  (w.call = .ensureLoaded → s.model = none → w.result ≠ some none) ∧
  (w.call = .unload → s.model ≠ none → w.result ≠ none)

section Steps

variable {s : State M} {w : Whole M}

/-- While the gauge tells the truth, a call is truthful exactly if it is clean. -/
lemma truthful_iff_clean (h : s.gauge = s.model.isSome) : Truthful s w ↔ Clean s w := by
  obtain ⟨now, model, lastUsed, gauge, lock, waiting, jobs, returned⟩ := s
  obtain ⟨call, result⟩ := w
  dsimp only at h
  subst h
  cases call with
  | ensureLoaded =>
    cases model with
    | some m => simp [Truthful, Clean, State.Fails, State.submits, State.whole, State.returns]
    | none =>
      rcases result with _ | _ | m <;>
        simp [Truthful, Clean, State.Fails, State.submits, State.whole, State.returns]
  | unload =>
    cases model with
    | none => simp [Truthful, Clean, State.Fails, State.submits, State.whole]
    | some m =>
      cases result <;> simp [Truthful, Clean, State.Fails, State.submits, State.whole]

/-- A clean call keeps the gauge true. -/
lemma gauge_whole (h : s.gauge = s.model.isSome) (hclean : Clean s w) :
    (s.whole w).gauge = (s.whole w).model.isSome := by
  obtain ⟨now, model, lastUsed, gauge, lock, waiting, jobs, returned⟩ := s
  obtain ⟨call, result⟩ := w
  dsimp only at h
  subst h
  cases call with
  | ensureLoaded =>
    cases model with
    | some m => simp [State.whole, State.returns]
    | none =>
      rcases result with _ | _ | m
      · simp [State.whole]
      · -- the gauge would be 1 with no model
        exact absurd rfl (hclean.1 rfl rfl)
      · simp [State.whole, State.returns]
  | unload =>
    cases model with
    | none => simp [State.whole]
    | some m =>
      cases result with
      | none =>
        -- the gauge would be 0 with the model kept
        exact absurd rfl (hclean.2 rfl (by simp))
      | some _ => simp [State.whole]

end Steps

/-- **The gauge tells the truth about every call of a sequence exactly if no load returns `None` and
no unload raises.** -/
theorem truthful_along_iff {s : State M} (h : calls.init s) (ws : List (Whole M)) :
    calls.Along Truthful s ws ↔ calls.Along Clean s ws := by
  obtain ⟨⟨hmodel, -⟩, hgauge⟩ := h
  refine Machine.along_iff_along (I := fun s : State M => s.gauge = s.model.isSome)
    (fun s w hs => truthful_iff_clean hs) (fun s w t hs hclean ht => ?_) ?_ ws
  · obtain rfl := Option.some.inj ht
    exact gauge_whole hs hclean
  · rw [hgauge, hmodel]
    rfl

section Example

lemma created_init : calls.init created := ⟨⟨rfl, rfl, rfl, rfl, rfl⟩, rfl⟩

/-- A load that raises, one that succeeds, and an unload. -/
theorem reloaded_truthful : calls.Along Truthful created
    [⟨.ensureLoaded, none⟩, ⟨.ensureLoaded, some (some ())⟩, ⟨.unload, some none⟩] := by
  refine (truthful_along_iff created_init _).mpr ?_
  simp [Machine.Along, calls, Clean, created, State.whole, State.returns]

/-- An unload raises: the model is still loaded, and the gauge is 0. -/
theorem failed_unload_lies : ¬ ∀ (s : State Unit) (ws : List (Whole Unit)), calls.init s →
    calls.Along Truthful s ws := by
  intro hall
  obtain ⟨-, hnext⟩ := hall created [⟨.ensureLoaded, some (some ())⟩, ⟨.unload, none⟩] created_init
  have hkept := ((hnext _ rfl).1.2 ⟨rfl, rfl⟩).1
  simp [created, State.whole, State.returns] at hkept

end Example

end Omkit.ModelLifecycle
