import Mathlib.Tactic.Common

/-!
# Coroutines

An asynchronous function runs without interruption between the calls that it makes to code
outside.  A coroutine is the tree of what it does: it reads and writes the state that it shares
with other tasks, it makes a call and goes on with the answer, or it returns.

`advance` runs a coroutine to its next call, `Runs` runs it to its end, and `wp` is the weakest
precondition of a postcondition, over every answer that the outside may give.
-/

namespace Omkit.Lib

/-- A coroutine over the state `σ`, with calls `C` answered in `A`, that returns an `α`. -/
inductive Coro (σ C : Type) (A : C → Type) (α : Type)
  | ret (a : α)
  | get (k : σ → Coro σ C A α)
  | put (s : σ) (k : Coro σ C A α)
  | call (c : C) (k : A c → Coro σ C A α)

namespace Coro

variable {σ C : Type} {A : C → Type} {α β : Type}

/-- The coroutine `x` followed by `f` on its result. -/
def bind (x : Coro σ C A α) (f : α → Coro σ C A β) : Coro σ C A β :=
  match x with
  | ret a => f a
  | get k => get fun s => (k s).bind f
  | put s k => put s (k.bind f)
  | call c k => call c fun a => (k a).bind f

instance : Monad (Coro σ C A) where
  pure := ret
  bind := bind

/-- The shared state. -/
def read : Coro σ C A σ := get ret

/-- Apply a function to the shared state. -/
def modify (f : σ → σ) : Coro σ C A Unit := get fun s => put (f s) (ret ())

/-- Make a call. -/
def ask (c : C) : Coro σ C A (A c) := call c ret

@[simp] lemma pure_eq (a : α) : (pure a : Coro σ C A α) = ret a := rfl
@[simp] lemma bind_eq (x : Coro σ C A α) (f : α → Coro σ C A β) : x >>= f = x.bind f := rfl

/-! ## Running to the next call -/

/-- Where a coroutine stands when it does not run: at its end or in a call. -/
inductive Halt (σ C : Type) (A : C → Type) (α : Type)
  | done (a : α)
  | waiting (c : C) (k : A c → Coro σ C A α)

/-- Run a coroutine to its next call or to its end. -/
def advance : Coro σ C A α → σ → σ × Halt σ C A α
  | ret a, s => (s, .done a)
  | get k, s => advance (k s) s
  | put s k, _ => advance k s
  | call c k, s => (s, .waiting c k)

/-! ## Running to the end -/

variable {ω : Type} {E : ω → (c : C) → A c → Option ω}

/-- The runs of a coroutine to its end, with nobody else at the shared state.  `E w c a` is the
outside after it answers `a` to the call `c`, if it may do so. -/
inductive Runs (E : ω → (c : C) → A c → Option ω) :
    Coro σ C A α → σ → ω → α → σ → ω → Prop
  | ret {a s w} : Runs E (.ret a) s w a s w
  | get {k s w a s' w'} (h : Runs E (k s) s w a s' w') : Runs E (.get k) s w a s' w'
  | put {k s t w a s' w'} (h : Runs E k t w a s' w') : Runs E (.put t k) s w a s' w'
  | call {c k s w b v a s' w'} (hE : E w c b = some v) (h : Runs E (k b) s v a s' w') :
      Runs E (.call c k) s w a s' w'

/-- Run a coroutine to its end with an oracle for the answers. -/
def eval (E : ω → (c : C) → A c → Option ω) (f : ω → (c : C) → A c) :
    Coro σ C A α → σ → ω → Option (α × σ × ω)
  | ret a, s, w => some (a, s, w)
  | get k, s, w => eval E f (k s) s w
  | put s k, _, w => eval E f k s w
  | call c k, s, w => (E w c (f w c)).bind fun v => eval E f (k (f w c)) s v

/-- Run a coroutine to its end with an outside that answers every call. -/
def play (f : ω → (c : C) → A c × ω) : Coro σ C A α → σ → ω → α × σ × ω
  | ret a, s, w => (a, s, w)
  | get k, s, w => play f (k s) s w
  | put s k, _, w => play f k s w
  | call c k, s, w => play f (k (f w c).1) s (f w c).2

/-- The weakest precondition: every run ends in the postcondition. -/
def wp (E : ω → (c : C) → A c → Option ω) (Q : α → σ → ω → Prop) :
    Coro σ C A α → σ → ω → Prop
  | ret a, s, w => Q a s w
  | get k, s, w => wp E Q (k s) s w
  | put s k, _, w => wp E Q k s w
  | call c k, s, w => ∀ b v, E w c b = some v → wp E Q (k b) s v

variable {Q Q' : α → σ → ω → Prop} {s s' : σ} {w w' : ω} {a : α} {x : Coro σ C A α}

@[simp] lemma wp_ret : wp E Q (.ret a) s w ↔ Q a s w := Iff.rfl

@[simp] lemma wp_read {Q : σ → σ → ω → Prop} : wp E Q (read : Coro σ C A σ) s w ↔ Q s s w :=
  Iff.rfl

@[simp] lemma wp_modify {Q : Unit → σ → ω → Prop} {f : σ → σ} :
    wp E Q (modify f : Coro σ C A Unit) s w ↔ Q () (f s) w := Iff.rfl

@[simp] lemma wp_ask {c : C} {Q : A c → σ → ω → Prop} :
    wp E Q (ask c : Coro σ C A (A c)) s w ↔ ∀ b v, E w c b = some v → Q b s v := Iff.rfl

/-- The rule of composition. -/
@[simp] theorem wp_bind {Q : β → σ → ω → Prop} {f : α → Coro σ C A β} :
    wp E Q (x.bind f) s w ↔ wp E (fun a s w => wp E Q (f a) s w) x s w := by
  induction x generalizing s w with
  | ret a => rfl
  | get k ih => exact ih s
  | put t k ih => exact ih
  | call c k ih => exact forall_congr' fun b => forall_congr' fun v => forall_congr' fun _ => ih b

/-- The rule of consequence. -/
theorem wp.mono (h : ∀ a s w, Q a s w → Q' a s w) (hx : wp E Q x s w) : wp E Q' x s w := by
  induction x generalizing s w with
  | ret a => exact h a s w hx
  | get k ih => exact ih s hx
  | put t k ih => exact ih hx
  | call c k ih => exact fun b v hv => ih b (hx b v hv)

/-- A run ends in the postcondition. -/
theorem wp.runs (h : wp E Q x s w) (hr : Runs E x s w a s' w') : Q a s' w' := by
  induction hr with
  | ret => exact h
  | get _ ih => exact ih h
  | put _ ih => exact ih h
  | call hE _ ih => exact ih (h _ _ hE)

/-- What an oracle leads to is a run. -/
theorem runs_of_eval {f : ω → (c : C) → A c} (h : eval E f x s w = some (a, s', w')) :
    Runs E x s w a s' w' := by
  induction x generalizing s w with
  | ret b =>
    simp only [eval, Option.some.injEq, Prod.mk.injEq] at h
    obtain ⟨rfl, rfl, rfl⟩ := h
    exact .ret
  | get k ih => exact .get (ih s h)
  | put t k ih => exact .put (ih h)
  | call c k ih =>
    obtain ⟨v, hv, h⟩ := Option.bind_eq_some_iff.mp h
    exact .call hv (ih _ h)

/-- A coroutine comes to its end with an oracle whose answers the outside may always give. -/
theorem exists_runs (f : ω → (c : C) → A c) (hf : ∀ w c, ∃ v, E w c (f w c) = some v)
    (x : Coro σ C A α) (s : σ) (w : ω) : ∃ a s' w', Runs E x s w a s' w' := by
  induction x generalizing s w with
  | ret a => exact ⟨a, s, w, .ret⟩
  | get k ih =>
    obtain ⟨a, s', w', h⟩ := ih s s w
    exact ⟨a, s', w', .get h⟩
  | put t k ih =>
    obtain ⟨a, s', w', h⟩ := ih t w
    exact ⟨a, s', w', .put h⟩
  | call c k ih =>
    obtain ⟨v, hv⟩ := hf w c
    obtain ⟨a, s', w', h⟩ := ih (f w c) s v
    exact ⟨a, s', w', .call hv h⟩

/-- Every coroutine meets the postcondition that asks for nothing. -/
lemma wp_true : wp E (fun _ _ _ => True) x s w := by
  induction x generalizing s w with
  | ret a => trivial
  | get k ih => exact ih s
  | put t k ih => exact ih
  | call c k ih => exact fun b v _ => ih b

/-- A relation that holds between the outside before and after every answer, and that is reflexive
and transitive, holds between the outside before and after a run. -/
theorem Runs.outside {R : ω → ω → Prop} (hrefl : ∀ w, R w w)
    (htrans : ∀ {u v w}, R u v → R v w → R u w)
    (hstep : ∀ {w c b v}, E w c b = some v → R w v) (hr : Runs E x s w a s' w') : R w w' := by
  induction hr with
  | ret => exact hrefl _
  | get _ ih => exact ih
  | put _ ih => exact ih
  | call hE _ ih => exact htrans (hstep hE) ih

/-! ## Exceptions -/

section Exceptions

variable {ε : Type} {y : ExceptT ε (Coro σ C A) α} {Q : Except ε β → σ → ω → Prop}

/-- The rule of composition, for coroutines that may raise. -/
theorem wp_bindE {f : α → ExceptT ε (Coro σ C A) β} :
    wp E Q (y >>= f).run s w ↔
      wp E (fun r s w => match r with
        | .ok a => wp E Q (f a).run s w
        | .error e => Q (.error e) s w) y.run s w := by
  show wp E Q (bind y.run (ExceptT.bindCont f)) s w ↔ _
  rw [wp_bind]
  have hpost : (fun (r : Except ε α) (s : σ) (w : ω) => wp E Q (ExceptT.bindCont f r) s w) =
      fun r s w => match r with
        | .ok a => wp E Q (f a).run s w
        | .error e => Q (.error e) s w := by
    funext r s w
    cases r <;> rfl
  rw [hpost]

/-- A call in a coroutine that may raise. -/
@[simp] lemma wp_askE {c : C} {Q : Except ε (A c) → σ → ω → Prop} :
    wp E Q (ExceptT.lift (ask c : Coro σ C A (A c)) : ExceptT ε (Coro σ C A) (A c)).run s w ↔
      ∀ b v, E w c b = some v → Q (.ok b) s v := Iff.rfl

end Exceptions

/-- An oracle that leads to a good end shows a run to it. -/
lemma exists_runs_of_eval {f : ω → (c : C) → A c} {p : α × σ × ω → Bool}
    (h : (eval E f x s w).any p = true) :
    ∃ a s' w', Runs E x s w a s' w' ∧ p (a, s', w') = true := by
  cases heval : eval E f x s w with
  | none =>
    rw [heval] at h
    cases h
  | some r =>
    rw [heval] at h
    exact ⟨r.1, r.2.1, r.2.2, runs_of_eval heval, h⟩

/-- The precondition at the next call, or the postcondition if there is none. -/
def Halt.Pre (E : ω → (c : C) → A c → Option ω) (Q : α → σ → ω → Prop) (s : σ) (w : ω) :
    Halt σ C A α → Prop
  | .done a => Q a s w
  | .waiting c k => ∀ b v, E w c b = some v → wp E Q (k b) s v

/-- Running to the next call keeps the precondition. -/
theorem wp.advance (h : wp E Q x s w) : (x.advance s).2.Pre E Q (x.advance s).1 w := by
  induction x generalizing s with
  | ret a => exact h
  | get k ih => exact ih s h
  | put t k ih => exact ih h
  | call c k ih => exact h

/-! ## Playing against a total outside -/

section Play

variable {f : ω → (c : C) → A c × ω}

@[simp] lemma play_read : (read : Coro σ C A σ).play f s w = (s, s, w) := rfl

/-- The rule of composition. -/
lemma play_bind {g : α → Coro σ C A β} : (x.bind g).play f s w =
    (g (x.play f s w).1).play f (x.play f s w).2.1 (x.play f s w).2.2 := by
  induction x generalizing s w with
  | ret a => rfl
  | get k ih => exact ih s
  | put t k ih => exact ih
  | call c k ih => exact ih _

end Play

/-! ## The calls of a coroutine -/

/-- Every call that the coroutine ever makes satisfies `P`, whatever it is answered and whatever it
reads. -/
def Only (P : C → Prop) : Coro σ C A α → Prop
  | ret _ => True
  | get k => ∀ s, Only P (k s)
  | put _ k => Only P k
  | call c k => P c ∧ ∀ b, Only P (k b)

section Only

variable {P : C → Prop}

@[simp] lemma only_ret : Only P (.ret a : Coro σ C A α) := trivial

@[simp] lemma only_read : Only P (read : Coro σ C A σ) := fun _ => trivial

@[simp] lemma only_modify {f : σ → σ} : Only P (modify f : Coro σ C A Unit) := fun _ => trivial

@[simp] lemma only_ask {c : C} : Only P (ask c : Coro σ C A (A c)) ↔ P c :=
  ⟨fun h => h.1, fun h => ⟨h, fun _ => trivial⟩⟩

/-- The rule of composition. -/
theorem Only.bind {f : α → Coro σ C A β} (hx : Only P x) (hf : ∀ a, Only P (f a)) :
    Only P (x.bind f) := by
  induction x with
  | ret a => exact hf a
  | get k ih => exact fun s => ih s (hx s)
  | put t k ih => exact ih hx
  | call c k ih => exact ⟨hx.1, fun b => ih b (hx.2 b)⟩

/-- What a coroutine waits for is one of its calls. -/
theorem Only.advance (h : Only P x) {c : C} {k : A c → Coro σ C A α}
    (hw : (x.advance s).2 = .waiting c k) : P c ∧ ∀ b, Only P (k b) := by
  induction x generalizing s with
  | ret a => cases hw
  | get k' ih => exact ih s (h s) hw
  | put t k' ih => exact ih h hw
  | call c' k' ih =>
    cases hw
    exact h

end Only

lemma bind_assoc {γ : Type} {g : α → Coro σ C A β} {h : β → Coro σ C A γ} :
    (x.bind g).bind h = x.bind fun a => (g a).bind h := by
  induction x with
  | ret a => rfl
  | get k ih => exact congrArg get (funext ih)
  | put t k ih => exact congrArg (put t) ih
  | call c k ih => exact congrArg (call c) (funext ih)

end Coro
end Omkit.Lib
