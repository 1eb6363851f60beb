import Omkit.Resilience.Breaker

/-!
# Reads of the state

Calls made one after the other, with reads of `state` between and during them.  A read is the look
at an open circuit that `_open_observed` waits for: a call that comes after the window is admitted
if somebody has looked since the opening, and otherwise it is itself that look and is rejected.
-/

namespace Omkit.Resilience

/-! ## Timed histories -/

/-- How the coroutine of a call ends. -/
inductive Outcome
  | returned
  | raised
  | cancelled
deriving DecidableEq

/-- What happens to the breaker. -/
inductive Happening
  | read (t : ℚ)
  /-- A call arrives; its coroutine, if it runs, ends at `finish`, and the state is read meanwhile. -/
  | call (arrival : ℚ) (meanwhile : List ℚ) (finish : ℚ) (outcome : Outcome)

/-- Reads of the state at some times. -/
def Breaker.reads (b : Breaker) (ts : List ℚ) : Breaker := ts.foldl Breaker.readState b

/-- Does a call that arrives at a time run its coroutine? -/
def Breaker.admits (b : Breaker) (t : ℚ) : Bool := (b.readState t).status ≠ .opened

/-- What a call records. -/
def Breaker.record (b : Breaker) (t : ℚ) : Outcome → Breaker
  | .returned => b.recordSuccess
  | .raised => b.recordFailure t
  | .cancelled => b

/-- The breaker after an event. -/
def Happening.after (b : Breaker) : Happening → Breaker
  | .read t => b.readState t
  | .call arrival meanwhile finish outcome =>
    let b' := (b.readState arrival).reads meanwhile
    if b.admits arrival then b'.record finish outcome else b'

/-- Which calls of a history are admitted. -/
def admissions (b : Breaker) : List Happening → List Bool
  | [] => []
  | .read t :: h => admissions (b.readState t) h
  | .call arrival meanwhile finish outcome :: h =>
    b.admits arrival :: admissions (Happening.after b (.call arrival meanwhile finish outcome)) h

/-- The times of an event, in order. -/
def Happening.times : Happening → List ℚ
  | .read t => [t]
  | .call arrival meanwhile finish _ => arrival :: meanwhile ++ [finish]

/-- Nothing happens before what precedes it. -/
def Timed (h : List Happening) : Prop := (h.flatMap Happening.times).Pairwise (· ≤ ·)

instance (h : List Happening) : Decidable (Timed h) := inferInstanceAs (Decidable (List.Pairwise _ _))

/-- A history with more reads. -/
inductive Watched : List Happening → List Happening → Prop
  | nil : Watched [] []
  | extra {h h' : List Happening} (t : ℚ) (hw : Watched h h') : Watched h (.read t :: h')
  | read {h h' : List Happening} (t : ℚ) (hw : Watched h h') :
      Watched (.read t :: h) (.read t :: h')
  | call {h h' : List Happening} (arrival finish : ℚ) (outcome : Outcome)
      {meanwhile meanwhile' : List ℚ} (hsub : meanwhile.Sublist meanwhile') (hw : Watched h h') :
      Watched (.call arrival meanwhile finish outcome :: h)
        (.call arrival meanwhile' finish outcome :: h')

/-- The window of an open circuit is over, and nobody has looked at it since it opened. -/
def Breaker.Overdue (b : Breaker) (t : ℚ) : Prop :=
  b.status = .opened ∧ b.openObserved = false ∧ b.resetTimeout ≤ t - b.openedAt

/-- No call is the first look at a circuit after its window. -/
def NoneOverdue (b : Breaker) : List Happening → Prop
  | [] => True
  | .read t :: h => NoneOverdue (b.readState t) h
  | .call arrival meanwhile finish outcome :: h => ¬ b.Overdue arrival ∧
    NoneOverdue (Happening.after b (.call arrival meanwhile finish outcome)) h

namespace Breaker

variable {b : Breaker} {now t : ℚ}

/-- What a read does: nothing, or it turns the breaker half open, or it is noted. -/
lemma readState_cases (b : Breaker) (t : ℚ) :
    (b.status ≠ .opened ∧ b.readState t = b) ∨
    (b.status = .opened ∧ b.openObserved = true ∧ b.resetTimeout ≤ t - b.openedAt ∧
      b.readState t = { b with status := .halfOpen }) ∨
    (b.status = .opened ∧ (b.openObserved = true → t - b.openedAt < b.resetTimeout) ∧
      b.readState t = { b with openObserved := true }) := by
  unfold readState
  split
  · next ho =>
    split
    · next hover => exact Or.inr (Or.inl ⟨ho, hover.1, hover.2, rfl⟩)
    · next hnot =>
      refine Or.inr (Or.inr ⟨ho, fun hobs => ?_, rfl⟩)
      by_contra hge
      exact hnot ⟨hobs, not_lt.mp hge⟩
  · next hne => exact Or.inl ⟨hne, rfl⟩

lemma reads_of_ne (hne : b.status ≠ .opened) (ts : List ℚ) : b.reads ts = b := by
  induction ts with
  | nil => rfl
  | cons t ts ih =>
    have hread : b.readState t = b := by rw [readState, if_neg hne]
    rw [reads, List.foldl_cons, hread]
    exact ih

lemma admits_iff : b.admits t = true ↔
    (b.status = .opened → b.openObserved = true ∧ b.resetTimeout ≤ t - b.openedAt) := by
  rw [admits, decide_eq_true_eq, ne_eq, readState_opened, not_and]
  simp only [Classical.not_imp, not_lt]

end Breaker

/-! ## One more look -/

/-- A breaker and the same one after more reads: an open circuit may have been looked at, and it may
have turned half open when its window was over. -/
structure Similar (now : ℚ) (b b' : Breaker) : Prop where
  failMax : b'.failMax = b.failMax
  resetTimeout : b'.resetTimeout = b.resetTimeout
  failures : b'.failures = b.failures
  openedAt : b'.openedAt = b.openedAt
  status : (b'.status = b.status ∧
      (b.status = .opened → b.openObserved = true → b'.openObserved = true)) ∨
    (b.status = .opened ∧ b'.status = .halfOpen ∧ b.resetTimeout ≤ now - b.openedAt)

namespace Similar

variable {b b' : Breaker} {now t : ℚ}

lemma refl (now : ℚ) (b : Breaker) : Similar now b b :=
  ⟨rfl, rfl, rfl, rfl, Or.inl ⟨rfl, fun _ => id⟩⟩

lemma later (h : Similar now b b') (ht : now ≤ t) : Similar t b b' where
  __ := h
  status := h.status.imp_right fun ⟨ho, hh, hover⟩ => ⟨ho, hh, by linarith⟩

/-- A read that only the watched breaker gets. -/
lemma extra (h : Similar t b b') : Similar t b (b'.readState t) := by
  rcases b'.readState_cases t with ⟨-, hread⟩ | ⟨ho, -, hover, hread⟩ | ⟨ho, -, hread⟩ <;> rw [hread]
  · exact h
  · rcases h.status with ⟨hst, -⟩ | ⟨-, hh, -⟩
    · refine ⟨h.failMax, h.resetTimeout, h.failures, h.openedAt, Or.inr ⟨hst ▸ ho, rfl, ?_⟩⟩
      rwa [← h.resetTimeout, ← h.openedAt]
    · exact absurd (ho.symm.trans hh) (by decide)
  · rcases h.status with ⟨hst, -⟩ | ⟨-, hh, -⟩
    · exact ⟨h.failMax, h.resetTimeout, h.failures, h.openedAt, Or.inl ⟨hst, fun _ _ => rfl⟩⟩
    · exact absurd (ho.symm.trans hh) (by decide)

/-- A read that both get. -/
lemma read (h : Similar t b b') : Similar t (b.readState t) (b'.readState t) := by
  rcases b.readState_cases t with ⟨hne, hread⟩ | ⟨ho, hobs, hover, hread⟩ | ⟨ho, hwin, hread⟩ <;>
    rw [hread]
  · exact h.extra
  · -- the window is over for the watched breaker too
    have hhalf : (b'.readState t).status = .halfOpen := by
      rcases h.status with ⟨hst, himp⟩ | ⟨-, hh, -⟩
      · have hover' : b'.openObserved ∧ t - b'.openedAt ≥ b'.resetTimeout := by
          rw [h.resetTimeout, h.openedAt]
          exact ⟨himp ho hobs, hover⟩
        rw [Breaker.readState, if_pos (hst.trans ho), if_pos hover']
      · rw [Breaker.readState, if_neg (by simp [hh]), hh]
    have hx := h.extra
    exact ⟨hx.failMax, hx.resetTimeout, hx.failures, hx.openedAt,
      Or.inl ⟨hhalf, fun hopen => absurd hopen (by simp)⟩⟩
  · rcases b'.readState_cases t with ⟨hne', hread'⟩ | ⟨ho', -, hover', hread'⟩ | ⟨ho', -, hread'⟩ <;>
      rw [hread']
    · rcases h.status with ⟨hst, -⟩ | ⟨-, hh, hover⟩
      · exact absurd (hst.trans ho) hne'
      · exact ⟨h.failMax, h.resetTimeout, h.failures, h.openedAt, Or.inr ⟨ho, hh, hover⟩⟩
    · rw [h.resetTimeout, h.openedAt] at hover'
      exact ⟨h.failMax, h.resetTimeout, h.failures, h.openedAt, Or.inr ⟨ho, rfl, hover'⟩⟩
    · exact ⟨h.failMax, h.resetTimeout, h.failures, h.openedAt,
        Or.inl ⟨ho'.trans ho.symm, fun _ _ => rfl⟩⟩

/-- The reads during a call, and more reads. -/
lemma reads (h : Similar now b b') {ts ts' : List ℚ} (hsub : ts.Sublist ts') {last : ℚ}
    (hts : (now :: ts' ++ [last]).Pairwise (· ≤ ·)) : Similar last (b.reads ts) (b'.reads ts') := by
  induction hsub generalizing now b b' with
  | slnil => exact h.later (by simpa using hts)
  | cons t _ ih =>
    rw [List.cons_append, List.cons_append, List.pairwise_cons] at hts
    exact ih (h.later (hts.1 t (by simp))).extra hts.2
  | cons_cons t _ ih =>
    rw [List.cons_append, List.cons_append, List.pairwise_cons] at hts
    exact ih (h.later (hts.1 t (by simp))).read hts.2

/-- A call that is not the first look at a circuit after its window is answered alike. -/
lemma admits (h : Similar t b b') (hno : ¬ b.Overdue t) : b'.admits t = b.admits t := by
  rw [Bool.eq_iff_iff, Breaker.admits_iff, Breaker.admits_iff, h.resetTimeout, h.openedAt]
  -- an answer that differs needs a circuit that is open, unseen and past its window
  rcases h.status with ⟨hst, himp⟩ | ⟨ho, hh, hover⟩
  · rw [hst]
    refine forall_congr' fun ho => ⟨fun ⟨_, hover⟩ => ?_, fun ⟨hobs, hover⟩ => ⟨himp ho hobs, hover⟩⟩
    by_contra hunseen
    exact hno ⟨ho, by simpa [hover] using hunseen, hover⟩
  · refine iff_of_true (fun hopen => absurd (hh.symm.trans hopen) (by decide)) fun _ => ?_
    by_contra hunseen
    exact hno ⟨ho, by simpa [hover] using hunseen, hover⟩

/-- The outcome of a call whose coroutine has run. -/
lemma record (h : Similar now b b') (hne : b.status ≠ .opened) (t : ℚ) (o : Outcome) :
    Similar t (b.record t o) (b'.record t o) := by
  have hst : b'.status = b.status := by
    rcases h.status with ⟨hst, -⟩ | ⟨ho, -⟩
    · exact hst
    · exact absurd ho hne
  cases o with
  | returned =>
    exact ⟨h.failMax, h.resetTimeout, rfl, h.openedAt, Or.inl ⟨rfl, fun hopen => nomatch hopen⟩⟩
  | raised =>
    have hopens : b'.opens = b.opens := by simp [Breaker.opens, h.failMax, h.failures]
    simp only [Breaker.record, Breaker.recordFailure, hopens]
    split
    · exact ⟨h.failMax, h.resetTimeout, by simp [h.failures], rfl,
        Or.inl ⟨rfl, fun _ hobs => nomatch hobs⟩⟩
    · exact ⟨h.failMax, h.resetTimeout, by simp [h.failures], h.openedAt,
        Or.inl ⟨hst, fun hopen => absurd hopen hne⟩⟩
  | cancelled =>
    exact ⟨h.failMax, h.resetTimeout, h.failures, h.openedAt,
      Or.inl ⟨hst, fun hopen => absurd hopen hne⟩⟩

end Similar

/-! ## Histories -/

/-- A history in which nothing happens before `now`. -/
def TimedFrom (now : ℚ) (h : List Happening) : Prop :=
  (now :: h.flatMap Happening.times).Pairwise (· ≤ ·)

variable {b b' : Breaker} {now t : ℚ} {h h' : List Happening}

lemma timedFrom_read : TimedFrom now (.read t :: h) ↔ now ≤ t ∧ TimedFrom t h := by
  simp only [TimedFrom, List.flatMap_cons, Happening.times, List.singleton_append,
    List.pairwise_cons, List.mem_cons, forall_eq_or_imp]
  constructor
  · rintro ⟨⟨hle, -⟩, hrest⟩
    exact ⟨hle, hrest⟩
  · rintro ⟨hle, hall, hrest⟩
    exact ⟨⟨hle, fun u hu => hle.trans (hall u hu)⟩, hall, hrest⟩

lemma timedFrom_call {arrival finish : ℚ} {meanwhile : List ℚ} {o : Outcome} :
    TimedFrom now (.call arrival meanwhile finish o :: h) ↔
      now ≤ arrival ∧ (arrival :: meanwhile ++ [finish]).Pairwise (· ≤ ·) ∧ TimedFrom finish h := by
  have hlist : now :: (Happening.call arrival meanwhile finish o :: h).flatMap Happening.times =
      (now :: arrival :: meanwhile) ++ finish :: h.flatMap Happening.times := by
    simp [Happening.times]
  rw [TimedFrom, hlist, TimedFrom, List.pairwise_append, List.pairwise_append,
    List.pairwise_cons (a := now)]
  simp only [List.mem_cons, List.not_mem_nil, or_false, List.pairwise_singleton, forall_eq, true_and]
  constructor
  · rintro ⟨⟨hnow, hmean⟩, hrest, hcross⟩
    exact ⟨hnow _ (Or.inl rfl), ⟨hmean, fun u hu => hcross u (Or.inr hu) _ (Or.inl rfl)⟩, hrest⟩
  · rintro ⟨hnow, ⟨hmean, hlast⟩, hrest⟩
    have harrive : ∀ u, u = arrival ∨ u ∈ meanwhile → now ≤ u := by
      rintro u (rfl | hu)
      · exact hnow
      · exact hnow.trans ((List.pairwise_cons.mp hmean).1 u hu)
    have hfinish : ∀ u, u = finish ∨ u ∈ h.flatMap Happening.times → finish ≤ u := by
      rintro u (rfl | hu)
      · exact le_rfl
      · exact (List.pairwise_cons.mp hrest).1 u hu
    refine ⟨⟨harrive, hmean⟩, hrest, ?_⟩
    rintro u (rfl | hu) v hv
    · exact (hnow.trans (hlast _ (Or.inl rfl))).trans (hfinish v hv)
    · exact (hlast u hu).trans (hfinish v hv)

lemma exists_timedFrom (ht : Timed h) : ∃ now, TimedFrom now h := by
  unfold Timed at ht
  unfold TimedFrom
  generalize h.flatMap Happening.times = ts at ht ⊢
  cases ts with
  | nil => exact ⟨0, by simp⟩
  | cons t ts => exact ⟨t, List.pairwise_cons.mpr ⟨by simpa using (List.pairwise_cons.mp ht).1, ht⟩⟩

lemma TimedFrom.timed (ht : TimedFrom now h) : Timed h := (List.pairwise_cons.mp ht).2

/-- The answers to the calls do not depend on further reads, if no call is the first look at a
circuit after its window. -/
lemma Similar.admissions (hs : Similar now b b') (hw : Watched h h') (ht : TimedFrom now h')
    (hno : NoneOverdue b h) : admissions b' h' = admissions b h := by
  induction hw generalizing now b b' with
  | nil => rfl
  | extra t _ ih =>
    obtain ⟨hle, ht⟩ := timedFrom_read.mp ht
    exact ih (hs.later hle).extra ht hno
  | read t _ ih =>
    obtain ⟨hle, ht⟩ := timedFrom_read.mp ht
    exact ih (hs.later hle).read ht hno
  | @call h h' arrival finish o meanwhile meanwhile' hsub _ ih =>
    obtain ⟨hle, hmean, ht⟩ := timedFrom_call.mp ht
    obtain ⟨hfirst, hno⟩ := hno
    have harrival := hs.later hle
    have hadmits := harrival.admits hfirst
    have hreads := harrival.read.reads hsub hmean
    have hafter : Similar finish (Happening.after b (.call arrival meanwhile finish o))
        (Happening.after b' (.call arrival meanwhile' finish o)) := by
      simp only [Happening.after, hadmits]
      split
      · next hin =>
        -- the circuit is not open while the coroutine runs
        have hne : (b.readState arrival).status ≠ .opened := by simpa [Breaker.admits] using hin
        refine hreads.record ?_ finish o
        rwa [Breaker.reads_of_ne hne]
      · exact hreads
    rw [Resilience.admissions, Resilience.admissions, hadmits, ih hafter ht hno]

lemma Watched.refl (h : List Happening) : Watched h h := by
  induction h with
  | nil => exact .nil
  | cons e h ih =>
    cases e with
    | read t => exact .read t ih
    | call arrival meanwhile finish o => exact .call arrival finish o (.refl _) ih

/-- The call that is the first look at a circuit after its window is admitted if somebody looks just
before it. -/
lemma exists_watched (ht : TimedFrom now h) (hno : ¬ NoneOverdue b h) :
    ∃ h', Watched h h' ∧ TimedFrom now h' ∧ admissions b h' ≠ admissions b h := by
  induction h generalizing now b with
  | nil => exact absurd trivial hno
  | cons e h ih =>
    cases e with
    | read t =>
      obtain ⟨hle, ht⟩ := timedFrom_read.mp ht
      obtain ⟨h', hw, ht', hne⟩ := ih ht hno
      exact ⟨.read t :: h', .read t hw, timedFrom_read.mpr ⟨hle, ht'⟩, hne⟩
    | call arrival meanwhile finish o =>
      obtain ⟨hle, hmean, hrest⟩ := timedFrom_call.mp ht
      by_cases hover : b.Overdue arrival
      · -- a read at the time of the call is the look that the circuit waits for
        obtain ⟨ho, hobs, hwin⟩ := hover
        have hread : b.readState arrival = { b with openObserved := true } := by
          simp [Breaker.readState, ho, hobs]
        have hrejects : b.admits arrival = false := by simp [Breaker.admits, hread, ho]
        have hadmits : (b.readState arrival).admits arrival = true :=
          Breaker.admits_iff.mpr fun _ => by simpa [hread] using hwin
        refine ⟨.read arrival :: .call arrival meanwhile finish o :: h, .extra _ (.refl _),
          timedFrom_read.mpr ⟨hle, timedFrom_call.mpr ⟨le_rfl, hmean, hrest⟩⟩, fun heq => ?_⟩
        have hhead := (List.cons.inj heq).1
        exact absurd ((hadmits.symm.trans hhead).trans hrejects) (by decide)
      · obtain ⟨h', hw, ht', hne⟩ := ih hrest fun hall => hno ⟨hover, hall⟩
        refine ⟨.call arrival meanwhile finish o :: h', .call _ _ _ (.refl _) hw,
          timedFrom_call.mpr ⟨hle, hmean, ht'⟩, fun heq => hne (List.cons.inj heq).2⟩

/-- After the window of an opening, a call is admitted exactly if somebody has looked since. -/
lemma Breaker.admits_reads_iff (hopens : b.opens = true) {t₀ : ℚ} (ht : b.resetTimeout ≤ t - t₀)
    (ts : List ℚ) : ((b.recordFailure t₀).reads ts).admits t = true ↔ ts ≠ [] := by
  have hopened : b.recordFailure t₀ = { b with
      failures := b.failures + 1, status := .opened, openedAt := t₀, openObserved := false } := by
    rw [Breaker.recordFailure]
    exact if_pos hopens
  cases ts with
  | nil => simp [hopened, Breaker.reads, Breaker.admits, Breaker.readState]
  | cons t₁ ts =>
    refine iff_of_true ?_ (List.cons_ne_nil _ _)
    -- the first read is noted, and no later one forgets it
    have hkept : ∀ (ts : List ℚ) (c : Breaker), c.resetTimeout = b.resetTimeout →
        c.openedAt = t₀ → (c.status = .opened → c.openObserved = true) →
        (c.reads ts).admits t = true := by
      intro ts
      induction ts with
      | nil =>
        intro c hreset hat hobs
        exact Breaker.admits_iff.mpr fun ho => ⟨hobs ho, hreset ▸ hat ▸ ht⟩
      | cons u ts ih =>
        intro c hreset hat hobs
        refine ih (c.readState u) (by simp [hreset]) (by simp [hat]) fun ho => ?_
        rcases c.readState_cases u with ⟨-, hread⟩ | ⟨-, -, -, hread⟩ | ⟨-, -, hread⟩
        · rw [hread] at ho ⊢
          exact hobs ho
        · simp [hread] at ho
        · rw [hread]
    refine hkept ts _ (by simp [hopened]) (by simp [hopened]) fun _ => ?_
    simp [hopened, Breaker.readState]

/-- **Watching the breaker does not change it, except for the first look at an open circuit**: no
further reads change which calls are admitted exactly if no call is the first look at a circuit after
its window, and after its window a call is admitted exactly if somebody has looked since the
opening. -/
theorem watching_harmless_iff (failMax : ℤ) (resetTimeout : ℚ) (ht : Timed h) :
    ((∀ h', Watched h h' → Timed h' →
        admissions (.new failMax resetTimeout) h' = admissions (.new failMax resetTimeout) h) ↔
      NoneOverdue (.new failMax resetTimeout) h) ∧
    ∀ (b : Breaker) (t₀ t : ℚ) (ts : List ℚ), b.opens = true → b.resetTimeout ≤ t - t₀ →
      (((b.recordFailure t₀).reads ts).admits t = true ↔ ts ≠ []) := by
  refine ⟨⟨fun hall => ?_, fun hno h' hw ht' => ?_⟩, fun b t₀ t ts ho hwin =>
    Breaker.admits_reads_iff ho hwin ts⟩
  · by_contra hno
    obtain ⟨now, hnow⟩ := exists_timedFrom ht
    obtain ⟨h', hw, ht', hne⟩ := exists_watched hnow hno
    exact hne (hall h' hw ht'.timed)
  · obtain ⟨now, hnow⟩ := exists_timedFrom ht'
    exact (Similar.refl now _).admissions hw hnow hno

section Example

/-- A failure opens the circuit, a call in the window is rejected, and a call after it is admitted. -/
def knocked : List Happening := [.call 0 [] 0 .raised, .call 30 [] 30 .returned,
  .call 60 [] 61 .returned]

/-- `knocked` with a look at the open circuit and another one after its window. -/
def knockedWatched : List Happening := [.call 0 [] 0 .raised, .read 10, .call 30 [] 30 .returned,
  .read 60, .call 60 [] 61 .returned]

theorem knocked_harmless :
    admissions (.new 1 60) knockedWatched = admissions (.new 1 60) knocked := by
  have hnone : NoneOverdue (.new 1 60) knocked := by
    simp only [knocked, NoneOverdue, Breaker.Overdue]
    decide +kernel
  have hwatched : Watched knocked knockedWatched :=
    .call _ _ _ (.refl _) (.extra _ (.call _ _ _ (.refl _) (.extra _ (.refl _))))
  exact (watching_harmless_iff 1 60 (by decide +kernel)).1.mpr hnone _ hwatched (by decide +kernel)

/-- One read lets a call in that would have been rejected. -/
theorem one_look_admits : ¬ ∀ (failMax : ℤ) (resetTimeout : ℚ) (h h' : List Happening),
    0 < resetTimeout → Timed h → Timed h' → Watched h h' →
    admissions (.new failMax resetTimeout) h' = admissions (.new failMax resetTimeout) h := by
  intro hall
  have hsame := hall 1 60 [.call 0 [] 0 .raised, .call 60 [] 60 .returned]
    [.call 0 [] 0 .raised, .read 1, .call 60 [] 60 .returned] (by norm_num) (by decide +kernel)
    (by decide +kernel) (.call _ _ _ (.refl _) (.extra _ (.refl _)))
  exact absurd hsame (by decide +kernel)

end Example

end Omkit.Resilience
