import Mathlib.Logic.Relation

/-!
# Machines and their runs

A machine has initial states and a partial step function: an event names everything that the
environment decides (who moves, what a call answers), so one state and one event have at most
one successor.  Reachability is taken under a guard, a condition on the state before a step and
on its event; the unguarded runs are the ones under the trivial guard.
-/

namespace Omkit.Lib

/-- A state machine: its initial states and its partial step function. -/
structure Machine (σ ε : Type*) where
  /-- The states in which a run may begin. -/
  init : σ → Prop
  /-- The state after an event, if the event is possible. -/
  step : σ → ε → Option σ

namespace Machine

variable {σ ε : Type*} (M : Machine σ ε)

/-- The states reached by runs each of whose steps meets the guard `G`. -/
inductive Reach (G : σ → ε → Prop) : σ → Prop
  | init {s : σ} (h : M.init s) : Reach G s
  | step {s s' : σ} {e : ε} (h : Reach G s) (hg : G s e) (hs : M.step s e = some s') : Reach G s'

/-- The states reached by any run. -/
def Reachable (s : σ) : Prop := M.Reach (fun _ _ => True) s

/-- The state after a list of events. -/
def run (s : σ) : List ε → Option σ
  | [] => some s
  | e :: es => (M.step s e).bind fun s' => run s' es

/-- Every step of the run of a list of events meets `G`. -/
def Along (G : σ → ε → Prop) (s : σ) : List ε → Prop
  | [] => True
  | e :: es => G s e ∧ ∀ t, M.step s e = some t → Along G t es

/-- Every state of the run of a list of events satisfies `P`, the first one included. -/
def Throughout (P : σ → Prop) (s : σ) : List ε → Prop
  | [] => P s
  | e :: es => P s ∧ ∀ t, M.step s e = some t → Throughout P t es

/-- A value that is carried along the run of a list of events, each of which changes it in view of
the state before. -/
def recorded {τ : Type*} (f : σ → ε → τ → τ) (s : σ) : List ε → τ → τ
  | [], x => x
  | e :: es, x => match M.step s e with
    | none => x
    | some t => recorded f t es (f s e x)

variable {M}

/-- The induction rule of guarded runs: what holds initially and is preserved by every step that
meets the guard holds in every state reached. -/
theorem Reach.invariant {G : σ → ε → Prop} {I : σ → Prop} (h₀ : ∀ s, M.init s → I s)
    (hstep : ∀ s e s', I s → G s e → M.step s e = some s' → I s') {s : σ}
    (h : M.Reach G s) : I s := by
  induction h with
  | init hi => exact h₀ _ hi
  | step _ hg hs ih => exact hstep _ _ _ ih hg hs

theorem Reachable.init {s : σ} (h : M.init s) : M.Reachable s := Reach.init h

theorem Reachable.step {s s' : σ} {e : ε} (h : M.Reachable s) (hs : M.step s e = some s') :
    M.Reachable s' := Reach.step h trivial hs

/-- The induction rule of unguarded runs. -/
theorem Reachable.invariant {I : σ → Prop} (h₀ : ∀ s, M.init s → I s)
    (hstep : ∀ s e s', I s → M.step s e = some s' → I s') {s : σ} (h : M.Reachable s) : I s :=
  Reach.invariant h₀ (fun s e s' hI _ hs => hstep s e s' hI hs) h

/-- The guarded runs are runs. -/
theorem Reach.reachable {G : σ → ε → Prop} {s : σ} (h : M.Reach G s) : M.Reachable s :=
  h.invariant (fun _ => Reachable.init) fun _ _ _ ih _ hs => ih.step hs

@[simp] theorem run_nil (s : σ) : M.run s [] = some s := rfl

theorem run_cons {s s' : σ} {e : ε} {es : List ε} :
    M.run s (e :: es) = some s' ↔ ∃ t, M.step s e = some t ∧ M.run t es = some s' := by
  simp [run, Option.bind_eq_some_iff]

theorem run_concat {s s' : σ} {es : List ε} {e : ε} :
    M.run s (es ++ [e]) = some s' ↔ ∃ t, M.run s es = some t ∧ M.step t e = some s' := by
  induction es generalizing s with
  | nil => simp [run]
  | cons e' es ih =>
    rw [List.cons_append, run_cons]
    simp only [ih, run_cons]
    constructor
    · rintro ⟨u, hu, t, ht, hs⟩
      exact ⟨t, ⟨u, hu, ht⟩, hs⟩
    · rintro ⟨t, ⟨u, hu, ht⟩, hs⟩
      exact ⟨u, hu, t, ht, hs⟩

theorem along_cons {G : σ → ε → Prop} {s t : σ} {e : ε} {es : List ε}
    (ht : M.step s e = some t) : M.Along G s (e :: es) ↔ G s e ∧ M.Along G t es := by
  refine and_congr_right fun _ => ⟨fun h => h t ht, fun h u hu => ?_⟩
  exact Option.some.inj (ht.symm.trans hu) ▸ h

/-- A run from a reachable state ends in a reachable state. -/
theorem Reachable.run {es : List ε} {s s' : σ} (h : M.Reachable s)
    (hr : M.run s es = some s') : M.Reachable s' := by
  induction es generalizing s with
  | nil =>
    obtain rfl : s = s' := by simpa using hr
    exact h
  | cons e es ih =>
    obtain ⟨t, ht, hr⟩ := run_cons.mp hr
    exact ih (h.step ht) hr

/-- What holds of a state and the value carried to it, and is preserved by every step, holds at the
end of a run. -/
theorem recorded_invariant {τ : Type*} {f : σ → ε → τ → τ} {I : σ → τ → Prop}
    (hstep : ∀ s e t x, I s x → M.step s e = some t → I t (f s e x)) {s s' : σ} {es : List ε}
    {x : τ} (h : I s x) (hr : M.run s es = some s') : I s' (M.recorded f s es x) := by
  induction es generalizing s x with
  | nil =>
    obtain rfl : s = s' := by simpa using hr
    exact h
  | cons e es ih =>
    obtain ⟨t, ht, hr⟩ := run_cons.mp hr
    rw [recorded, ht]
    exact ih (hstep s e t x h ht) hr

/-- A guarded run from a state that guarded runs reach. -/
theorem Reach.run {G : σ → ε → Prop} {es : List ε} {s s' : σ} (h : M.Reach G s)
    (ha : M.Along G s es) (hr : M.run s es = some s') : M.Reach G s' := by
  induction es generalizing s with
  | nil =>
    obtain rfl : s = s' := by simpa using hr
    exact h
  | cons e es ih =>
    obtain ⟨t, ht, hr⟩ := run_cons.mp hr
    exact ih (h.step ha.1 ht) (ha.2 t ht) hr

instance decidableAlong {G : σ → ε → Prop} [∀ s e, Decidable (G s e)] :
    (s : σ) → (es : List ε) → Decidable (M.Along G s es)
  | _, [] => isTrue trivial
  | s, e :: es =>
    match h : M.step s e with
    | none => decidable_of_iff (G s e) ⟨fun hg => ⟨hg, fun _ ht => nomatch h.symm.trans ht⟩, And.left⟩
    | some t =>
      have : Decidable (M.Along G t es) := decidableAlong t es
      decidable_of_iff (G s e ∧ M.Along G t es)
        ⟨fun hg => ⟨hg.1, fun _ hu => Option.some.inj (h.symm.trans hu) ▸ hg.2⟩,
          fun hg => ⟨hg.1, hg.2 t h⟩⟩

lemma Throughout.head {P : σ → Prop} {s : σ} {es : List ε} (h : M.Throughout P s es) : P s := by
  cases es with
  | nil => exact h
  | cons e es => exact h.1

lemma Throughout.last {P : σ → Prop} {s s' : σ} {es : List ε} (h : M.Throughout P s es)
    (hr : M.run s es = some s') : P s' := by
  induction es generalizing s with
  | nil =>
    obtain rfl : s = s' := by simpa using hr
    exact h
  | cons e es ih =>
    obtain ⟨t, ht, hr⟩ := run_cons.mp hr
    exact ih (h.2 t ht) hr

/-- If a step taken after a guarded run leads to `P` exactly when it meets the guard, then a run
satisfies `P` throughout exactly when all its steps meet the guard. -/
theorem throughout_iff_along {G : σ → ε → Prop} {P : σ → Prop} (h₀ : ∀ s, M.init s → P s)
    (hstep : ∀ s e t, M.Reach G s → P s → M.step s e = some t → (P t ↔ G s e)) {s s' : σ}
    {es : List ε} (hi : M.init s) (hr : M.run s es = some s') :
    M.Throughout P s es ↔ M.Along G s es := by
  have key : ∀ (es : List ε) (s : σ), M.Reach G s → P s → M.run s es = some s' →
      (M.Throughout P s es ↔ M.Along G s es) := by
    intro es
    induction es with
    | nil => exact fun s _ hP _ => iff_of_true hP trivial
    | cons e es ih =>
      intro s hs hP hr
      obtain ⟨t, ht, hr⟩ := run_cons.mp hr
      have hnext : ∀ Q : σ → Prop, (∀ u, M.step s e = some u → Q u) ↔ Q t := fun Q =>
        ⟨fun h => h t ht, fun h u hu => Option.some.inj (ht.symm.trans hu) ▸ h⟩
      simp only [Throughout, Along, hnext, hP, true_and]
      constructor
      · intro h
        have hPt : P t := h.head
        have hg := (hstep s e t hs hP ht).mp hPt
        exact ⟨hg, (ih t (hs.step hg ht) hPt hr).mp h⟩
      · rintro ⟨hg, h⟩
        exact (ih t (hs.step hg ht) ((hstep s e t hs hP ht).mpr hg) hr).mpr h
  exact key es s (.init hi) (h₀ s hi) hr

/-- Two guards hold along the same runs, if they agree in the states that steps within them lead
to. -/
theorem along_iff_along {G H : σ → ε → Prop} {I : σ → Prop}
    (hiff : ∀ s e, I s → (G s e ↔ H s e))
    (hstep : ∀ s e t, I s → H s e → M.step s e = some t → I t) {s : σ} (hs : I s) (es : List ε) :
    M.Along G s es ↔ M.Along H s es := by
  induction es generalizing s with
  | nil => exact Iff.rfl
  | cons e es ih =>
    rw [Along, Along, hiff s e hs]
    refine and_congr_right fun hg => forall₂_congr fun t ht => ?_
    exact ih (hstep s e t hs hg ht)

end Machine
end Omkit.Lib
