import Omkit.Lib.Machine
import Mathlib.Data.List.Nodup
import Mathlib.Data.Prod.Basic

/-!
# Scoped variables

Tasks whose code sets variables for a block and resets them when the block ends.  Setting a variable
gives a token with its old value, and a block keeps its tokens until its end; it ends normally or by
an exception.  The code of a task is any transition system, so blocks may be nested to any depth and
loops may open any number of them.  Each task has variables of its own.

Which blocks are open is told by the statements that a task has run, apart from its tokens.
-/

namespace Omkit.Lib

/-- What it takes to undo a `set`. -/
structure Token (ν α : Type*) where
  var : ν
  old : α

namespace Vars

variable {ν α : Type*} [DecidableEq ν]

/-- `var.set(v)`. -/
def set (c : ν → α) (x : ν) (v : α) : (ν → α) × Token ν α := (Function.update c x v, ⟨x, c x⟩)

/-- `var.reset(token)`. -/
def reset (c : ν → α) (t : Token ν α) : ν → α := Function.update c t.var t.old

/-- Set some variables in turn. -/
def setAll (c : ν → α) : List (ν × α) → (ν → α) × List (Token ν α)
  | [] => (c, [])
  | (x, v) :: l =>
    let (c', token) := set c x v
    let (c'', tokens) := setAll c' l
    (c'', token :: tokens)

/-- Reset some variables in turn. -/
def resetAll (c : ν → α) (tokens : List (Token ν α)) : ν → α := tokens.foldl reset c

variable {c : ν → α} {x : ν} {v : α} {l : List (ν × α)}

lemma setAll_cons : setAll c ((x, v) :: l) =
    ((setAll (Function.update c x v) l).1, ⟨x, c x⟩ :: (setAll (Function.update c x v) l).2) := rfl

lemma map_var_setAll (c : ν → α) (l : List (ν × α)) :
    (setAll c l).2.map Token.var = l.map Prod.fst := by
  induction l generalizing c with
  | nil => rfl
  | cons p l ih =>
    obtain ⟨x, v⟩ := p
    rw [setAll_cons, List.map_cons, ih, List.map_cons]

/-- Resetting other variables commutes with a change of one. -/
lemma resetAll_update {tokens : List (Token ν α)} (h : x ∉ tokens.map Token.var) :
    resetAll (Function.update c x v) tokens = Function.update (resetAll c tokens) x v := by
  induction tokens generalizing c with
  | nil => rfl
  | cons t tokens ih =>
    simp only [List.map_cons, List.mem_cons, not_or] at h
    show resetAll (reset (Function.update c x v) t) tokens =
      Function.update (resetAll (reset c t) tokens) x v
    rw [reset, Function.update_comm h.1, ih h.2]
    rfl

/-- **Resetting with the tokens of a block gives the variables back as they were**, in the order in
which they were set, if no variable was set twice. -/
theorem resetAll_setAll (h : (l.map Prod.fst).Nodup) :
    resetAll (setAll c l).1 (setAll c l).2 = c := by
  induction l generalizing c with
  | nil => rfl
  | cons p l ih =>
    obtain ⟨x, v⟩ := p
    rw [List.map_cons, List.nodup_cons] at h
    have hx : x ∉ (setAll (Function.update c x v) l).2.map Token.var := by
      rw [map_var_setAll]
      exact h.1
    show resetAll (Function.update (setAll (Function.update c x v) l).1 x (c x))
      (setAll (Function.update c x v) l).2 = c
    rw [resetAll_update hx, ih h.2]
    simp

end Vars

/-! ## Code in blocks -/

/-- What the code of a task does next, with continuations in `K` and answers of the outside in
`A`. -/
inductive Instr (ν α A K : Type*)
  /-- A statement that leaves the variables alone. -/
  | act (k : A → K)
  /-- A block sets variables around `body`; the code goes on with `ok` or, after an exception, with
  `err`. -/
  | enter (bindings : List (ν × α)) (body ok err : K)
  /-- The end of a block, or of the task. -/
  | ret
  | raise

/-- An open block: what it has set, its tokens, the variables at its start, and its
continuations. -/
structure Frame (ν α K : Type*) where
  bindings : List (ν × α)
  tokens : List (Token ν α)
  start : ν → α
  ok : K
  err : K

/-- Where the code of a task stands. -/
inductive Status (K : Type*)
  | running (k : K)
  | returned
  | failed

/-- A task: its variables, its code, and its open blocks, innermost first. -/
structure Task (ν α K : Type*) where
  vars : ν → α
  status : Status K
  frames : List (Frame ν α K)

variable {ν α A K ι : Type*} [DecidableEq ν]

namespace Task

/-- The innermost block ends, and its variables are reset; or the task ends. -/
def leave (t : Task ν α K) (next : Frame ν α K → K) (done : Status K) : Task ν α K :=
  match t.frames with
  | [] => { t with status := done }
  | f :: frames => ⟨Vars.resetAll t.vars f.tokens, .running (next f), frames⟩

/-- A block begins. -/
def enter (t : Task ν α K) (bindings : List (ν × α)) (body ok err : K) : Task ν α K where
  vars := (Vars.setAll t.vars bindings).1
  status := .running body
  frames := ⟨bindings, (Vars.setAll t.vars bindings).2, t.vars, ok, err⟩ :: t.frames

/-- One step of a task; `none` is an exception that the statement raises. -/
def step (code : K → (ν → α) → Instr ν α A K) (t : Task ν α K) (a : Option A) :
    Option (Task ν α K) :=
  match t.status with
  | .running k => match a with
    | none => some (t.leave Frame.err .failed)
    | some a => match code k t.vars with
      | .act f => some { t with status := .running (f a) }
      | .enter bindings body ok err => some (t.enter bindings body ok err)
      | .ret => some (t.leave Frame.ok .returned)
      | .raise => some (t.leave Frame.err .failed)
  | _ => none

/-- The open blocks explain the variables: each has set its own on top of those at its start. -/
def Nested (base : ν → α) : List (Frame ν α K) → (ν → α) → Prop
  | [], c => c = base
  | f :: frames, c => (f.bindings.map Prod.fst).Nodup ∧
      Vars.setAll f.start f.bindings = (c, f.tokens) ∧ Nested base frames f.start

variable {base : ν → α} {f : Frame ν α K} {frames : List (Frame ν α K)} {c : ν → α}
  {t t' : Task ν α K}

/-- The end of a block gives the variables back as they were at its start. -/
lemma Nested.reset (h : Nested base (f :: frames) c) :
    Vars.resetAll c f.tokens = f.start ∧ Nested base frames f.start := by
  obtain ⟨hnodup, hset, hrest⟩ := h
  have hback := Vars.resetAll_setAll (c := f.start) hnodup
  rw [hset] at hback
  exact ⟨hback, hrest⟩

lemma nested_leave (h : Nested base t.frames t.vars) (next : Frame ν α K → K) (done : Status K) :
    Nested base (t.leave next done).frames (t.leave next done).vars := by
  unfold leave
  cases hf : t.frames with
  | nil => simpa [hf] using h
  | cons f frames =>
    rw [hf] at h
    obtain ⟨hreset, hrest⟩ := h.reset
    show Nested base frames (Vars.resetAll t.vars f.tokens)
    rw [hreset]
    exact hrest

lemma nested_enter (h : Nested base t.frames t.vars) {bindings : List (ν × α)}
    (hnodup : (bindings.map Prod.fst).Nodup) (body ok err : K) :
    Nested base (t.enter bindings body ok err).frames (t.enter bindings body ok err).vars :=
  ⟨hnodup, rfl, h⟩

/-- No block of the code sets a variable twice. -/
def NoRepeat (code : K → (ν → α) → Instr ν α A K) : Prop :=
  ∀ k c bindings body ok err, code k c = .enter bindings body ok err →
    (bindings.map Prod.fst).Nodup

/-- **What a step of a task can do**: it ends a block or the task, it leaves variables and blocks
alone, or it begins a block of the code. -/
lemma step_cases {code : K → (ν → α) → Instr ν α A K} {a : Option A}
    (hs : t.step code a = some t') :
    (∃ next done, t' = t.leave next done) ∨ (∃ k, t' = { t with status := .running k }) ∨
      ∃ k bindings body ok err, code k t.vars = .enter bindings body ok err ∧
        t' = t.enter bindings body ok err := by
  unfold step at hs
  split at hs
  · next k _ =>
    split at hs
    · obtain rfl := Option.some.inj hs
      exact Or.inl ⟨_, _, rfl⟩
    · split at hs
      · obtain rfl := Option.some.inj hs
        exact Or.inr (Or.inl ⟨_, rfl⟩)
      · next hinstr =>
        obtain rfl := Option.some.inj hs
        exact Or.inr (Or.inr ⟨k, _, _, _, _, hinstr, rfl⟩)
      · obtain rfl := Option.some.inj hs
        exact Or.inl ⟨_, _, rfl⟩
      · obtain rfl := Option.some.inj hs
        exact Or.inl ⟨_, _, rfl⟩
  · cases hs

/-- **Every step of a task keeps its variables explained by its open blocks.** -/
lemma nested_step {code : K → (ν → α) → Instr ν α A K} (hcode : NoRepeat code)
    (h : Nested base t.frames t.vars) {a : Option A} (hs : t.step code a = some t') :
    Nested base t'.frames t'.vars := by
  obtain ⟨next, done, rfl⟩ | ⟨k, rfl⟩ | ⟨k, bindings, body, ok, err, hinstr, rfl⟩ := step_cases hs
  · exact nested_leave h next done
  · exact h
  · exact nested_enter h (hcode _ _ _ _ _ _ hinstr) body ok err

/-! ### The blocks that a task has opened -/

/-- What a statement does to the open blocks of its task. -/
inductive Shift (β : Type*)
  | stay
  | opens (b : β)
  | closes

variable {β : Type*}

/-- The open blocks after a step, each with the variables at its start: an exception ends the
innermost one, and otherwise the statement decides. -/
def follow (shift : K → (ν → α) → Shift β) (t : Task ν α K) (a : Option A)
    (blocks : List (β × (ν → α))) : List (β × (ν → α)) :=
  match t.status with
  | .running k => match a with
    | none => blocks.tail
    | some _ => match shift k t.vars with
      | .stay => blocks
      | .opens b => (b, t.vars) :: blocks
      | .closes => blocks.tail
  | _ => blocks

/-- The code does what its statements say, where a block sets what `bindings` has for it. -/
def Performs (code : K → (ν → α) → Instr ν α A K) (shift : K → (ν → α) → Shift β)
    (bindings : β → List (ν × α)) : Prop :=
  ∀ k c, match code k c with
    | .act _ => shift k c = .stay
    | .enter l _ _ _ => ∃ b, shift k c = .opens b ∧ l = bindings b
    | .ret | .raise => shift k c = .closes

/-- The frames of a task are those of its open blocks. -/
def Matches (bindings : β → List (ν × α)) : List (β × (ν → α)) → List (Frame ν α K) → Prop :=
  List.Forall₂ fun b f => f.bindings = bindings b.1 ∧ f.start = b.2

variable {code : K → (ν → α) → Instr ν α A K} {shift : K → (ν → α) → Shift β}
  {bindings : β → List (ν × α)} {blocks : List (β × (ν → α))} {a : Option A}

omit [DecidableEq ν] in
lemma Performs.noRepeat (h : Performs code shift bindings)
    (hb : ∀ b, ((bindings b).map Prod.fst).Nodup) : NoRepeat code := by
  intro k c l body ok err hinstr
  have hk := h k c
  rw [hinstr] at hk
  obtain ⟨b, -, rfl⟩ := hk
  exact hb b

lemma matches_leave (h : Matches bindings blocks t.frames) (next : Frame ν α K → K)
    (done : Status K) : Matches bindings blocks.tail (t.leave next done).frames := by
  unfold leave
  cases hf : t.frames with
  | nil =>
    rw [hf] at h
    cases h
    exact .nil
  | cons f frames =>
    rw [hf] at h
    cases h with
    | cons _ hrest => exact hrest

/-- **Every step keeps the frames of a task those of its open blocks.** -/
lemma matches_step (hcode : Performs code shift bindings) (h : Matches bindings blocks t.frames)
    (hs : t.step code a = some t') : Matches bindings (t.follow shift a blocks) t'.frames := by
  unfold step at hs
  unfold follow
  split at hs
  · next k _ =>
    split at hs
    · obtain rfl := Option.some.inj hs
      exact matches_leave h _ _
    · have hk := hcode k t.vars
      split at hs
      · next hinstr =>
        rw [hinstr] at hk
        obtain rfl := Option.some.inj hs
        simp only [hk]
        exact h
      · next hinstr =>
        rw [hinstr] at hk
        obtain ⟨b, hshift, rfl⟩ := hk
        obtain rfl := Option.some.inj hs
        simp only [hshift]
        exact .cons ⟨rfl, rfl⟩ h
      · next hinstr =>
        rw [hinstr] at hk
        obtain rfl := Option.some.inj hs
        simp only [hk]
        exact matches_leave h _ _
      · next hinstr =>
        rw [hinstr] at hk
        obtain rfl := Option.some.inj hs
        simp only [hk]
        exact matches_leave h _ _
  · cases hs

/-- **A step after which the innermost block is no longer open gives the variables back as they were
at its start.** -/
lemma vars_of_close {base : ν → α} {b : β} {start : ν → α}
    (hnested : Nested base t.frames t.vars) (h : Matches bindings ((b, start) :: blocks) t.frames)
    (hs : t.step code a = some t') (h' : Matches bindings blocks t'.frames) : t'.vars = start := by
  cases hf : t.frames with
  | nil =>
    rw [hf] at h
    cases h
  | cons f frames =>
    rw [hf] at h hnested
    obtain ⟨⟨-, hstart⟩, hrest⟩ := List.forall₂_cons.mp h
    -- a step that keeps or opens a block has other frames
    have hlength : t'.frames.length < t.frames.length := by
      rw [hf, ← h'.length_eq, hrest.length_eq]
      exact Nat.lt_succ_self _
    obtain ⟨next, done, rfl⟩ | ⟨k, rfl⟩ | ⟨k, l, body, ok, err, hinstr, rfl⟩ := step_cases hs
    · rw [leave, hf]
      exact hnested.reset.1.trans hstart
    · exact absurd hlength (Nat.lt_irrefl _)
    · simp only [enter, List.length_cons] at hlength
      omega

end Task

variable [DecidableEq ι]

/-- Any number of tasks, each with code and variables of its own, in any interleaving. -/
def tasks (code : ι → K → (ν → α) → Instr ν α A K) (base : ι → ν → α) (main : ι → K) :
    Machine (ι → Task ν α K) (ι × Option A) where
  init s := s = fun i => ⟨base i, .running (main i), []⟩
  step s e := ((s e.1).step (code e.1) e.2).map fun t => Function.update s e.1 t

variable {code : ι → K → (ν → α) → Instr ν α A K} {base : ι → ν → α} {main : ι → K}

/-- A step of the tasks is a step of one of them. -/
lemma tasks_step {s s' : ι → Task ν α K} {i : ι} {a : Option A}
    (h : (tasks code base main).step s (i, a) = some s') :
    ∃ t, (s i).step (code i) a = some t ∧ s' = Function.update s i t := by
  obtain ⟨t, ht, rfl⟩ := Option.map_eq_some_iff.mp h
  exact ⟨t, ht, rfl⟩

/-- What holds of every task at its start, and is preserved by its steps, holds of every task in
every reachable state. -/
theorem forall_task_of_reachable {I : ι → Task ν α K → Prop}
    (h₀ : ∀ i, I i ⟨base i, .running (main i), []⟩)
    (hstep : ∀ i t a t', I i t → t.step (code i) a = some t' → I i t') {s : ι → Task ν α K}
    (h : (tasks code base main).Reachable s) (i : ι) : I i (s i) := by
  refine h.invariant (I := fun s => ∀ i, I i (s i)) ?_ ?_ i
  · rintro s rfl i
    exact h₀ i
  · rintro s ⟨j, a⟩ s' hI hs i
    obtain ⟨t, ht, rfl⟩ := tasks_step hs
    by_cases hi : i = j
    · subst hi
      rw [Function.update_self]
      exact hstep i _ a t (hI i) ht
    · rw [Function.update_of_ne hi]
      exact hI i

/-- **In every reachable state the variables of each task are explained by its open blocks.** -/
theorem nested_of_reachable (hcode : ∀ i, Task.NoRepeat (code i)) {s : ι → Task ν α K}
    (h : (tasks code base main).Reachable s) (i : ι) :
    Task.Nested (base i) (s i).frames (s i).vars :=
  forall_task_of_reachable (I := fun i t => Task.Nested (base i) t.frames t.vars) (fun _ => rfl)
    (fun i _ _ _ hI ht => Task.nested_step (hcode i) hI ht) h i

/-- The open blocks of one of the tasks after a step of any of them. -/
def follow {β : Type*} (shift : K → (ν → α) → Task.Shift β) (i : ι) (s : ι → Task ν α K)
    (e : ι × Option A) (blocks : List (β × (ν → α))) : List (β × (ν → α)) :=
  if e.1 = i then (s i).follow shift e.2 blocks else blocks

variable {β : Type*} {bindings : β → List (ν × α)} {blocks : List (β × (ν → α))}

/-- A step of any task keeps the frames of a task those of its open blocks. -/
lemma matches_follow {i : ι} {shift : K → (ν → α) → Task.Shift β}
    (hcode : Task.Performs (code i) shift bindings) {s s' : ι → Task ν α K} {e : ι × Option A}
    (h : Task.Matches bindings blocks (s i).frames) (hs : (tasks code base main).step s e = some s') :
    Task.Matches bindings (follow shift i s e blocks) (s' i).frames := by
  obtain ⟨j, a⟩ := e
  obtain ⟨t, ht, rfl⟩ := tasks_step hs
  rw [follow]
  by_cases hi : j = i
  · subst hi
    rw [Function.update_self, if_pos rfl]
    exact Task.matches_step hcode h ht
  · rw [Function.update_of_ne (Ne.symm hi), if_neg hi]
    exact h

/-- A step of any task after which the innermost block of a task is no longer open gives its
variables back as they were at the start of the block. -/
lemma vars_of_closed {i : ι} {c : ν → α} {s s' : ι → Task ν α K} {e : ι × Option A} {b : β}
    {start : ν → α} (hnested : Task.Nested c (s i).frames (s i).vars)
    (h : Task.Matches bindings ((b, start) :: blocks) (s i).frames)
    (hs : (tasks code base main).step s e = some s')
    (h' : Task.Matches bindings blocks (s' i).frames) : (s' i).vars = start := by
  obtain ⟨j, a⟩ := e
  obtain ⟨t, ht, rfl⟩ := tasks_step hs
  by_cases hi : j = i
  · subst hi
    rw [Function.update_self] at h' ⊢
    exact Task.vars_of_close hnested h ht h'
  · -- another task moves, and the frames are as many as before
    rw [Function.update_of_ne (Ne.symm hi)] at h'
    have hlength := h.length_eq.trans h'.length_eq.symm
    simp at hlength

end Omkit.Lib
