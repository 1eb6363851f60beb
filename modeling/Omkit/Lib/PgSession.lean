import Mathlib.Logic.Function.Basic
import Mathlib.Data.List.Basic

/-!
# Session parameters under transactions

A connection to a database has named parameters.  `SET` changes one for the session, `SET LOCAL`
until the transaction ends; both are undone when the transaction, or the savepoint inside it,
rolls back.  A session therefore keeps, for each block that is open, the parameters as they were
at its start.
-/

namespace Omkit.Lib

/-- The parameters of a session at one moment. -/
structure Params (ν α : Type*) where
  /-- The values that stay when the transaction commits. -/
  session : ν → α
  /-- The values of `SET LOCAL`, which end with the transaction. -/
  inTxn : ν → Option α

/-- A session: its parameters, and those at the start of each open block, innermost first.  The
last open block is the transaction, the others are savepoints. -/
structure PgSession (ν α : Type*) extends Params ν α where
  saved : List (Params ν α)

/-- A statement, as far as parameters and blocks are concerned. -/
inductive Cmd (ν α : Type*)
  | begin
  | commit
  | rollback
  | set (p : ν) (v : α)
  | setLocal (p : ν) (v : α)
  /-- Any other statement. -/
  | query

namespace Cmd

variable {ν α : Type*}

/-- Does the statement write the parameter? -/
def writes [DecidableEq ν] (p : ν) : Cmd ν α → Bool
  | set q _ | setLocal q _ => p = q
  | _ => false

/-- Does the statement open and close no block? -/
def flat : Cmd ν α → Bool
  | begin | commit | rollback => false
  | _ => true

end Cmd

/-- How a transaction ends: it commits, or it rolls back after some of its statements. -/
inductive Outcome
  | commit
  | abort (k : ℕ)
deriving DecidableEq

namespace PgSession

variable {ν α : Type*}

/-- The value of a parameter. -/
def current (s : PgSession ν α) (p : ν) : α := (s.inTxn p).getD (s.session p)

/-- A session as it starts. -/
def fresh (v : ν → α) : PgSession ν α := ⟨⟨v, fun _ => none⟩, []⟩

variable [DecidableEq ν]

/-- The session after a statement. -/
def exec (s : PgSession ν α) : Cmd ν α → PgSession ν α
  | .begin => { s with saved := s.toParams :: s.saved }
  | .commit => match s.saved with
    | [] => s
    | [_] => { s with inTxn := fun _ => none, saved := [] }
    | _ :: f :: rest => { s with saved := f :: rest }
  | .rollback => match s.saved with
    | [] => s
    | f :: rest => ⟨f, rest⟩
  | .set p v =>
    { s with session := Function.update s.session p v, inTxn := Function.update s.inTxn p none }
  | .setLocal p v => match s.saved with
    | [] => s
    | _ :: _ => { s with inTxn := Function.update s.inTxn p (some v) }
  | .query => s

/-- The session after a list of statements. -/
def execAll (s : PgSession ν α) (cs : List (Cmd ν α)) : PgSession ν α := cs.foldl exec s

/-- The session after a transaction block around some statements. -/
def transaction (body : List (Cmd ν α)) (o : Outcome) (s : PgSession ν α) : PgSession ν α :=
  match o with
  | .commit => ((s.exec .begin).execAll body).exec .commit
  | .abort k => ((s.exec .begin).execAll (body.take k)).exec .rollback

/-- The session after its open blocks are rolled back. -/
def abort (s : PgSession ν α) : PgSession ν α :=
  match s.saved.getLast? with
  | none => s
  | some f => ⟨f, []⟩

/-- The session after `RESET ALL` outside a transaction: every parameter but those that `keep`
exempts has its first value again. -/
def resetAll (v : ν → α) (keep : ν → Bool) (s : PgSession ν α) : PgSession ν α :=
  { s with session := fun p => if keep p then s.session p else v p }

/-! ## Parameters that a list of statements leaves alone -/

/-- The parameter `p` has the value `v`, in the session and at the start of every open block, and
no `SET LOCAL` hides it. -/
structure Holds (s : PgSession ν α) (p : ν) (v : α) : Prop where
  session : s.session p = v
  inTxn : s.inTxn p = none
  saved : ∀ f ∈ s.saved, f.session p = v ∧ f.inTxn p = none

variable {s : PgSession ν α} {p : ν} {v : α}

omit [DecidableEq ν] in
lemma Holds.current (h : s.Holds p v) : s.current p = v := by
  simp [PgSession.current, h.inTxn, h.session]

/-- A statement that does not write a parameter leaves it as it is. -/
lemma Holds.exec (h : s.Holds p v) {c : Cmd ν α} (hc : c.writes p = false) :
    (s.exec c).Holds p v := by
  cases c with
  | begin =>
    refine ⟨h.session, h.inTxn, fun f hf => ?_⟩
    rcases List.mem_cons.mp hf with rfl | hf
    · exact ⟨h.session, h.inTxn⟩
    · exact h.saved f hf
  | commit =>
    -- outside a transaction, the outermost level, or a savepoint
    rcases hs : s.saved with _ | ⟨f, _ | ⟨g, rest⟩⟩
    · simpa [PgSession.exec, hs] using h
    · exact ⟨by simp [PgSession.exec, hs, h.session], by simp [PgSession.exec, hs],
        by simp [PgSession.exec, hs]⟩
    · refine ⟨by simp [PgSession.exec, hs, h.session], by simp [PgSession.exec, hs, h.inTxn], ?_⟩
      intro x hx
      exact h.saved x (by
        rw [hs]
        exact List.mem_cons_of_mem _ (by simpa [PgSession.exec, hs] using hx))
  | rollback =>
    rcases hs : s.saved with _ | ⟨f, rest⟩
    · simpa [PgSession.exec, hs] using h
    · have hf := h.saved f (by simp [hs])
      refine ⟨by simp [PgSession.exec, hs, hf.1], by simp [PgSession.exec, hs, hf.2], ?_⟩
      intro x hx
      exact h.saved x (by
        rw [hs]
        exact List.mem_cons_of_mem _ (by simpa [PgSession.exec, hs] using hx))
  | set q w =>
    have hq : p ≠ q := by simpa [Cmd.writes] using hc
    exact ⟨by simp [PgSession.exec, hq, h.session], by simp [PgSession.exec, hq, h.inTxn],
      h.saved⟩
  | setLocal q w =>
    have hq : p ≠ q := by simpa [Cmd.writes] using hc
    rcases hs : s.saved with _ | ⟨f, rest⟩
    · simpa [PgSession.exec, hs] using h
    · refine ⟨by simp [PgSession.exec, hs, h.session], by simp [PgSession.exec, hs, hq, h.inTxn],
        ?_⟩
      simpa [PgSession.exec, hs] using h.saved
  | query => exact h

lemma Holds.execAll {cs : List (Cmd ν α)} (h : s.Holds p v)
    (hc : ∀ c ∈ cs, c.writes p = false) : (s.execAll cs).Holds p v := by
  induction cs generalizing s with
  | nil => exact h
  | cons c cs ih =>
    exact ih (h.exec (hc c (by simp))) fun d hd => hc d (List.mem_cons_of_mem _ hd)

omit [DecidableEq ν] in
lemma Holds.abort (h : s.Holds p v) : s.abort.Holds p v := by
  unfold PgSession.abort
  cases hs : s.saved.getLast? with
  | none => exact h
  | some f =>
    have hf := h.saved f (List.mem_of_getLast? hs)
    exact ⟨hf.1, hf.2, by simp⟩

omit [DecidableEq ν] in
lemma Holds.resetAll {w : ν → α} {keep : ν → Bool} (h : s.Holds p v) (hp : keep p = true) :
    (s.resetAll w keep).Holds p v :=
  ⟨by simp [PgSession.resetAll, hp, h.session], h.inTxn, h.saved⟩

omit [DecidableEq ν] in
@[simp] lemma abort_saved (s : PgSession ν α) : s.abort.saved = [] := by
  unfold abort
  cases hs : s.saved.getLast? with
  | none => simpa using hs
  | some f => rfl

/-! ## Transactions without savepoints -/

omit [DecidableEq ν] in
@[simp] lemma resetAll_saved (w : ν → α) (keep : ν → Bool) (s : PgSession ν α) :
    (s.resetAll w keep).saved = s.saved := rfl

lemma exec_saved_of_flat {c : Cmd ν α} (hc : c.flat = true) : (s.exec c).saved = s.saved := by
  cases c with
  | begin | commit | rollback => simp [Cmd.flat] at hc
  | set q w => rfl
  | setLocal q w => cases hs : s.saved <;> simp [exec, hs]
  | query => rfl

lemma execAll_saved_of_flat {cs : List (Cmd ν α)} (hc : ∀ c ∈ cs, c.flat = true) :
    (s.execAll cs).saved = s.saved := by
  induction cs generalizing s with
  | nil => rfl
  | cons c cs ih =>
    have h := ih (s := s.exec c) fun d hd => hc d (List.mem_cons_of_mem _ hd)
    exact h.trans (exec_saved_of_flat (hc c (by simp)))

/-- The value of `SET LOCAL` that a statement does not write. -/
lemma exec_inTxn_of_not_writes {c : Cmd ν α} (hf : c.flat = true) (hc : c.writes p = false) :
    (s.exec c).inTxn p = s.inTxn p := by
  cases c with
  | begin | commit | rollback => simp [Cmd.flat] at hf
  | set q w =>
    have hq : p ≠ q := by simpa [Cmd.writes] using hc
    simp [exec, hq]
  | setLocal q w =>
    have hq : p ≠ q := by simpa [Cmd.writes] using hc
    cases hs : s.saved <;> simp [exec, hs, hq]
  | query => rfl

/-- A transaction that rolls back leaves no trace. -/
theorem transaction_abort {body : List (Cmd ν α)} (hb : ∀ c ∈ body, c.flat = true) (k : ℕ)
    (s : PgSession ν α) : transaction body (.abort k) s = s := by
  have htake : ∀ c ∈ body.take k, c.flat = true := fun c hc => hb c (List.mem_of_mem_take hc)
  have hsaved : ((s.exec .begin).execAll (body.take k)).saved = s.toParams :: s.saved :=
    execAll_saved_of_flat htake
  rw [transaction]
  generalize (s.exec .begin).execAll (body.take k) = t at hsaved ⊢
  simp [exec, hsaved]

lemma exec_session_of_not_writes {c : Cmd ν α} (hf : c.flat = true) (hc : c.writes p = false) :
    (s.exec c).session p = s.session p := by
  cases c with
  | begin | commit | rollback => simp [Cmd.flat] at hf
  | set q w =>
    have hq : p ≠ q := by simpa [Cmd.writes] using hc
    simp [exec, hq]
  | setLocal q w => cases hs : s.saved <;> simp [exec, hs]
  | query => rfl

/-- The values of a session that no statement of a list writes. -/
lemma execAll_session_of_not_writes {cs : List (Cmd ν α)} (hf : ∀ c ∈ cs, c.flat = true)
    (hc : ∀ c ∈ cs, c.writes p = false) : (s.execAll cs).session p = s.session p := by
  induction cs generalizing s with
  | nil => rfl
  | cons c cs ih =>
    have h := ih (s := s.exec c) (fun d hd => hf d (List.mem_cons_of_mem _ hd))
      fun d hd => hc d (List.mem_cons_of_mem _ hd)
    exact h.trans (exec_session_of_not_writes (hf c (by simp)) (hc c (by simp)))

/-- An outermost transaction that sets a parameter and commits leaves it set, whatever its later
statements do to other parameters. -/
theorem transaction_commit_set {w : α} {body : List (Cmd ν α)} (hs : s.saved = [])
    (hf : ∀ c ∈ body, c.flat = true) (hc : ∀ c ∈ body, c.writes p = false) :
    (transaction (.set p w :: body) .commit s).Holds p w ∧
      (transaction (.set p w :: body) .commit s).saved = [] := by
  have hall : ((s.exec .begin).execAll (.set p w :: body)).saved = [s.toParams] := by
    have h := execAll_saved_of_flat (s := (s.exec .begin).exec (.set p w)) hf
    rw [execAll, List.foldl_cons]
    refine h.trans ?_
    simp [exec, hs]
  have hval : ((s.exec .begin).execAll (.set p w :: body)).session p = w := by
    have h := execAll_session_of_not_writes (s := (s.exec .begin).exec (.set p w)) hf hc
    rw [execAll, List.foldl_cons]
    refine h.trans ?_
    simp [exec]
  rw [transaction]
  generalize (s.exec .begin).execAll (.set p w :: body) = t at hall hval ⊢
  have hcommit : t.exec .commit = ⟨⟨t.session, fun _ => none⟩, []⟩ := by simp [exec, hall]
  rw [hcommit]
  exact ⟨⟨hval, rfl, by simp⟩, rfl⟩

/-! ## Parameters that only `SET LOCAL` writes -/

/-- Outside transactions the parameter `p` has the value `v`, and the values that `SET LOCAL` has
given it satisfy `P`. -/
structure Local (s : PgSession ν α) (p : ν) (v : α) (P : α → Prop) : Prop where
  session : s.session p = v
  inTxn : ∀ w, s.inTxn p = some w → P w
  saved : ∀ f ∈ s.saved, f.session p = v ∧ ∀ w, f.inTxn p = some w → P w
  /-- No `SET LOCAL` outlives its transaction. -/
  idle : s.saved = [] → s.inTxn p = none
  outermost : ∀ f, s.saved.getLast? = some f → f.inTxn p = none

variable {P Q : α → Prop}

omit [DecidableEq ν] in
lemma Local.current (h : s.Local p v P) : s.current p = v ∨ P (s.current p) := by
  rw [PgSession.current]
  cases hw : s.inTxn p with
  | none => exact Or.inl h.session
  | some w => exact Or.inr (h.inTxn w hw)

omit [DecidableEq ν] in
lemma Local.current_of_idle (h : s.Local p v P) (hs : s.saved = []) : s.current p = v := by
  rw [PgSession.current, h.idle hs]
  exact h.session

omit [DecidableEq ν] in
lemma Local.mono (h : s.Local p v P) (hPQ : ∀ w, P w → Q w) : s.Local p v Q where
  session := h.session
  inTxn w hw := hPQ w (h.inTxn w hw)
  saved f hf := ⟨(h.saved f hf).1, fun w hw => hPQ w ((h.saved f hf).2 w hw)⟩
  idle := h.idle
  outermost := h.outermost

omit [DecidableEq ν] in
/-- Between transactions no value is left that could satisfy anything. -/
lemma Local.of_idle (h : s.Local p v P) (hs : s.saved = []) : s.Local p v Q where
  session := h.session
  inTxn w hw := by cases (h.idle hs).symm.trans hw
  saved f hf := by
    rw [hs] at hf
    cases hf
  idle := h.idle
  outermost := h.outermost

omit [DecidableEq ν] in
lemma local_fresh (w : ν → α) (p : ν) (P : α → Prop) : (fresh w).Local p (w p) P where
  session := rfl
  inTxn w hw := by cases hw
  saved f hf := by cases hf
  idle _ := rfl
  outermost f hf := by cases hf

lemma Local.begin (h : s.Local p v P) : (s.exec .begin).Local p v P where
  session := h.session
  inTxn := h.inTxn
  saved f hf := by
    rcases List.mem_cons.mp hf with rfl | hf
    · exact ⟨h.session, h.inTxn⟩
    · exact h.saved f hf
  idle hs := by cases hs
  outermost f hf := by
    rcases hsaved : s.saved with _ | ⟨g, rest⟩
    · have hparams : s.toParams = f := by simpa [exec, hsaved] using hf
      exact hparams ▸ h.idle hsaved
    · refine h.outermost f ?_
      simpa [exec, hsaved] using hf

lemma Local.commit (h : s.Local p v P) : (s.exec .commit).Local p v P := by
  rcases hs : s.saved with _ | ⟨f, _ | ⟨g, rest⟩⟩
  · simpa [exec, hs] using h
  · have hexec : s.exec .commit = ⟨⟨s.session, fun _ => none⟩, []⟩ := by simp [exec, hs]
    rw [hexec]
    exact ⟨h.session, fun w hw => (by cases hw), List.forall_mem_nil _, fun _ => rfl,
      fun f hf => (by cases hf)⟩
  · have hexec : s.exec .commit = ⟨s.toParams, g :: rest⟩ := by simp [exec, hs]
    rw [hexec]
    refine ⟨h.session, h.inTxn, fun x hx => h.saved x ?_, fun hn => (List.cons_ne_nil _ _ hn).elim,
      fun x hx => ?_⟩
    · rw [hs]
      exact List.mem_cons_of_mem _ hx
    · refine h.outermost x ?_
      rw [hs]
      simpa using hx

lemma Local.rollback (h : s.Local p v P) : (s.exec .rollback).Local p v P := by
  rcases hs : s.saved with _ | ⟨f, rest⟩
  · simpa [exec, hs] using h
  · have hexec : s.exec .rollback = ⟨f, rest⟩ := by simp [exec, hs]
    have hf := h.saved f (hs ▸ List.mem_cons_self)
    rw [hexec]
    refine ⟨hf.1, hf.2, fun x hx => h.saved x ?_, ?_, fun x hx => ?_⟩
    · rw [hs]
      exact List.mem_cons_of_mem _ hx
    · rintro rfl
      exact h.outermost f (by simp [hs])
    · refine h.outermost x ?_
      rcases rest with _ | ⟨g, rest⟩
      · cases hx
      · rw [hs]
        simpa using hx

lemma Local.setLocal (h : s.Local p v P) {w : α} (hw : P w) :
    (s.exec (.setLocal p w)).Local p v P := by
  rcases hs : s.saved with _ | ⟨f, rest⟩
  · simpa [exec, hs] using h
  · have hexec : s.exec (.setLocal p w) =
        ⟨⟨s.session, Function.update s.inTxn p (some w)⟩, f :: rest⟩ := by simp [exec, hs]
    rw [hexec]
    refine ⟨h.session, fun x hx => ?_, fun g hg => h.saved g (hs ▸ hg),
      fun hn => (List.cons_ne_nil _ _ hn).elim, fun g hg => h.outermost g (hs ▸ hg)⟩
    obtain rfl : w = x := by simpa using hx
    exact hw

/-- A statement that neither writes the parameter nor opens or closes a block. -/
lemma Local.other (h : s.Local p v P) {c : Cmd ν α} (hf : c.flat = true)
    (hc : c.writes p = false) : (s.exec c).Local p v P := by
  have hsaved := exec_saved_of_flat (s := s) hf
  have hinTxn := exec_inTxn_of_not_writes (s := s) hf hc
  exact ⟨(exec_session_of_not_writes hf hc).trans h.session, by rw [hinTxn]; exact h.inTxn,
    by rw [hsaved]; exact h.saved, by rw [hsaved, hinTxn]; exact h.idle,
    by rw [hsaved]; exact h.outermost⟩

omit [DecidableEq ν] in
lemma Local.abort (h : s.Local p v P) : s.abort.Local p v Q := by
  unfold PgSession.abort
  cases hs : s.saved.getLast? with
  | none => exact h.of_idle (List.getLast?_eq_none_iff.mp hs)
  | some f =>
    have hnone := h.outermost f hs
    refine ⟨(h.saved f (List.mem_of_getLast? hs)).1, fun w hw => ?_, List.forall_mem_nil _,
      fun _ => hnone, fun g hg => (by cases hg)⟩
    cases hnone.symm.trans hw

omit [DecidableEq ν] in
lemma Local.resetAll {w : ν → α} (h : s.Local p (w p) P) (keep : ν → Bool) :
    (s.resetAll w keep).Local p (w p) P where
  session := by
    rw [PgSession.resetAll]
    dsimp only
    split
    · exact h.session
    · rfl
  inTxn := h.inTxn
  saved := h.saved
  idle := h.idle
  outermost := h.outermost

end PgSession
end Omkit.Lib
