import Omkit.Eventbus.Order

/-!
# Replicas of a consumer

Several subscribers that share a consumer name and a topic share one offset.  A poll writes the id
of the last row that it handled, whatever the offset is by then: it decreases the offset exactly
when another replica has written a greater one since the `SELECT` of the poll.
-/

namespace Omkit.Eventbus

open Lib

section Replicas

variable {F : Type} [JsonRuntime F] [Postgres F] {ι : Type} [DecidableEq ι]

/-- The step does not decrease the offset of the pair. -/
def NoDecrease (bus : ι → Subscriber) (key : PyStr × PyStr) (s : State ι F) (a : Action ι F) :
    Prop :=
  ∀ t, step bus s a = some t → ∀ last, s.offsets.get? key = some last →
    ∃ last', t.offsets.get? key = some last' ∧ last ≤ last'

omit [JsonRuntime F] [Postgres F] in
/-- Does a poll of `i` write the offset of the pair when it ends? -/
def Writes (bus : ι → Subscriber) (key : PyStr × PyStr) (i : ι) (p : Poll F) : Prop :=
  (bus i).key = key ∧ p.todo = [] ∧ p.lastId ≠ 0

omit [JsonRuntime F] [Postgres F] in
/-- The greatest offset written for the pair since the last `SELECT` of each subscriber, after a
step. -/
def watch (bus : ι → Subscriber) (key : PyStr × PyStr) (s : State ι F) (written : ι → ℕ) :
    Action ι F → ι → ℕ
  | .select i => Function.update written i 0
  | .finish i true => match s.phase i with
    | .polling p =>
      if (bus i).key = key ∧ p.todo = [] ∧ p.lastId ≠ 0 then fun j => max (written j) p.lastId
      else written
    | _ => written
  | _ => written

/-- No poll of the run writes its offset after a greater one has been written since its
`SELECT`. -/
def InTurn (bus : ι → Subscriber) (key : PyStr × PyStr) :
    (ι → ℕ) → State ι F → List (Action ι F) → Prop
  | _, _, [] => True
  | written, s, a :: es =>
    (∀ i p, a = .finish i true → s.phase i = .polling p → Writes bus key i p →
      written i ≤ p.lastId) ∧
    ∀ t, step bus s a = some t → InTurn bus key (watch bus key s written a) t es

/-- While a subscriber of the pair polls, the offset is the one that it has read, or the greatest
that has been written since. -/
def Watched (bus : ι → Subscriber) (key : PyStr × PyStr) (written : ι → ℕ) (s : State ι F) : Prop :=
  ∀ i p n, (bus i).key = key → s.phase i = .polling p → p.since = some n →
    s.offsets.get? key = some (if written i = 0 then n else written i)

variable {bus : ι → Subscriber} {key : PyStr × PyStr} {written : ι → ℕ} {s s' : State ι F}
  {a : Action ι F}

/-- Does the step not write an offset after a greater one? -/
def isInTurn (bus : ι → Subscriber) (key : PyStr × PyStr) (written : ι → ℕ) (s : State ι F) :
    Action ι F → Bool
  | .finish i true => match s.phase i with
    | .polling p => (bus i).key ≠ key || p.todo.length ≠ 0 || p.lastId = 0 || written i ≤ p.lastId
    | _ => true
  | _ => true

/-- `InTurn`, evaluated. -/
def inTurn (bus : ι → Subscriber) (key : PyStr × PyStr) :
    (ι → ℕ) → State ι F → List (Action ι F) → Bool
  | _, _, [] => true
  | written, s, a :: es => isInTurn bus key written s a &&
    (step bus s a).all fun t => inTurn bus key (watch bus key s written a) t es

lemma inTurn_of_eq_true {es : List (Action ι F)} (h : inTurn bus key written s es = true) :
    InTurn bus key written s es := by
  induction es generalizing written s with
  | nil => trivial
  | cons a es ih =>
    rw [inTurn, Bool.and_eq_true] at h
    obtain ⟨hfirst, hrest⟩ := h
    refine ⟨?_, fun t ht => ih ?_⟩
    · rintro i p rfl hp ⟨hk, htodo, hlast⟩
      simpa [isInTurn, hp, hk, htodo, hlast] using hfirst
    · rw [ht] at hrest
      exact hrest

omit [JsonRuntime F] [Postgres F] in
lemma watch_of_writes {i : ι} {p : Poll F} (hp : s.phase i = .polling p)
    (hw : Writes bus key i p) :
    watch bus key s written (.finish i true) = fun j => max (written j) p.lastId := by
  simp only [watch, hp]
  exact if_pos hw

omit [JsonRuntime F] [Postgres F] in
/-- A poll of another pair, or one that has handled nothing, is not watched. -/
lemma watch_of_not_writes {i : ι} (h : ∀ p, s.phase i = .polling p → ¬ Writes bus key i p) :
    watch bus key s written (.finish i true) = written := by
  cases hp : s.phase i with
  | polling p =>
    simp only [watch, hp]
    exact if_neg (h p hp)
  | _ => simp only [watch, hp]

omit [JsonRuntime F] [Postgres F] in
/-- A step that changes the phase of `i` alone, and neither the offset nor what is watched. -/
lemma Watched.goto (h : Watched bus key written s) {t : State ι F} {i : ι} {q : Phase F}
    (ht : t.phase = s.phase) (ho : t.offsets.get? key = s.offsets.get? key)
    (hq : ∀ p, q = .polling p → ∃ p', s.phase i = .polling p' ∧ p.since = p'.since) :
    Watched bus key written (t.goto i q) := by
  intro j p n hkey hp hsince
  rw [goto_offsets, ho]
  by_cases hj : j = i
  · subst hj
    obtain ⟨p', hp', heq⟩ := hq p (by simpa using hp)
    exact h j p' n hkey hp' (heq ▸ hsince)
  · rw [goto_phase_ne t q hj, ht] at hp
    exact h j p n hkey hp hsince

omit [Postgres F] in
/-- A poll that writes takes every other poll of the pair to what it has written. -/
lemma Watched.updated (h : Watched bus key written s) (hI : Inv bus s) {i : ι} {p : Poll F}
    (hp : s.phase i = .polling p) (hw : Writes bus key i p)
    (hle : ∀ last, s.offsets.get? key = some last → last ≤ p.lastId) :
    Watched bus key (fun j => max (written j) p.lastId)
      ({ s with offsets := updateOffset (bus i) p.lastId s.offsets }.goto i .idle) := by
  obtain ⟨hkey, -, hl⟩ := hw
  have hoff : ∃ last, s.offsets.get? key = some last :=
    Option.ne_none_iff_exists'.mp (hkey ▸ hI.offset i (by simp [hp]))
  obtain ⟨last, hlast⟩ := hoff
  intro j q n hj hq hsince
  have hji : j ≠ i := by
    rintro rfl
    simp at hq
  have hold := h j q n hj (by rwa [goto_phase_ne _ _ hji] at hq) hsince
  -- what was written before is the offset, and it is not above what is written now
  have hmax : max (written j) p.lastId = p.lastId := by
    have hcur : last = if written j = 0 then n else written j :=
      Option.some.inj (hlast.symm.trans hold)
    have := hle last hlast
    split_ifs at hcur <;> omega
  show _ = some (if max (written j) p.lastId = 0 then n else max (written j) p.lastId)
  rw [goto_offsets, get?_updateOffset, if_pos hkey.symm, hlast, hmax, if_neg hl]
  rfl

/-- A step that does not decrease the offset keeps what is known of it. -/
lemma Watched.move (h : Watched bus key written s) (hI : Inv bus s) (hm : Move bus s a s')
    (hstep : step bus s a = some s') (hle : NoDecrease bus key s a) :
    Watched bus key (watch bus key s written a) s' := by
  cases hm with
  | insert hv => exact h
  | commit hr => exact h
  | rollback => exact h
  | @subscribe i hp =>
    intro j p n hj hq hsince
    by_cases hji : j = i
    · subst hji
      simp at hq
    · -- the pair of a poll has an offset already
      rw [goto_phase_ne _ _ hji] at hq
      have hold := h j p n hj hq hsince
      show _ = some (if written j = 0 then n else written j)
      rw [goto_offsets, get?_insertOffset, ← hold]
      split_ifs
      · rw [hold]
        rfl
      · rfl
  | @select i last hp hl =>
    intro j p n hj hq hsince
    by_cases hji : j = i
    · subst hji
      rw [goto_phase_self] at hq
      obtain rfl := Phase.polling.inj hq
      rw [goto_offsets, ← hj, hl]
      simpa [watch] using hsince
    · rw [goto_phase_ne s _ hji] at hq
      simpa [watch, hji] using h j p n hj hq hsince
  | unparsed hp => exact h.goto rfl rfl (by simp)
  | @handled i p r todo e hp ht he =>
    refine Watched.goto (t := s.record i e true) h rfl rfl ?_
    rintro _ ⟨⟩
    exact ⟨p, hp, rfl⟩
  | raised hp ht he => exact Watched.goto (t := s.record _ _ _) h rfl rfl (by simp)
  | @updated i p hp ht hl =>
    by_cases hkey : (bus i).key = key
    · have hw : Writes bus key i p := ⟨hkey, ht, hl⟩
      rw [watch_of_writes hp hw]
      refine h.updated hI hp hw fun last hlast => ?_
      obtain ⟨last', hlast', hle'⟩ := hle _ hstep last hlast
      rw [goto_offsets, get?_updateOffset, if_pos hkey.symm, hlast] at hlast'
      obtain rfl : p.lastId = last' := Option.some.inj hlast'
      exact hle'
    · rw [watch_of_not_writes fun q _ hw => hkey hw.1]
      refine Watched.goto (t := { s with offsets := updateOffset (bus i) p.lastId s.offsets }) h rfl
        ?_ (by simp)
      rw [get?_updateOffset, if_neg (Ne.symm hkey)]
  | @unwritten i ok p hp ht hl =>
    have hwatch : watch bus key s written (.finish i ok) = written := by
      cases ok with
      | false => rfl
      | true =>
        refine watch_of_not_writes fun q hq hw => hw.2.2 ?_
        obtain rfl := Phase.polling.inj (hp.symm.trans hq)
        simpa using hl
    rw [hwatch]
    exact h.goto rfl rfl (by simp)
  | abandon hp => exact h.goto rfl rfl (by simp)
  | stop => exact h.goto rfl rfl (by simp)

/-- A step decreases the offset exactly when it writes one below what has been written since its
`SELECT`. -/
lemma noDecrease_iff (h : Watched bus key written s) (hI : Inv bus s)
    (hstep : step bus s a = some s') :
    NoDecrease bus key s a ↔ ∀ i p, a = .finish i true → s.phase i = .polling p →
      Writes bus key i p → written i ≤ p.lastId := by
  have hm := move_of_step hstep
  constructor
  · -- the offset is the greatest one written since the `SELECT`, or the one it has read
    rintro hle i p rfl hp ⟨hkey, ht, hl⟩
    obtain ⟨n, -, hsince, -, -, -, hlt⟩ := (hI.poll i p hp).written hl
    have hold := h i p n hkey hp hsince
    obtain ⟨last', hlast', hle'⟩ := hle s' hstep _ hold
    have hnew : s'.offsets.get? key = some p.lastId := by
      have hs' : step bus s (.finish i true) =
          some ({ s with offsets := updateOffset (bus i) p.lastId s.offsets }.goto i .idle) := by
        simp [step, hp, finish, ht, hl]
      obtain rfl := Option.some.inj (hs'.symm.trans hstep)
      rw [goto_offsets, get?_updateOffset, if_pos hkey.symm, hold]
      rfl
    obtain rfl : p.lastId = last' := Option.some.inj (hnew.symm.trans hlast')
    split_ifs at hle' with h0
    · omega
    · exact hle'
  · intro hg t ht last hlast
    obtain rfl := Option.some.inj (hstep.symm.trans ht)
    rcases offsets_move hm key with ⟨i, p, rfl, hkey, hp, htodo, hl, hoff⟩ |
      ⟨i, -, -, hnone, -⟩ | hoff
    · obtain ⟨n, -, hsince, -, -, -, hlt⟩ := (hI.poll i p hp).written hl
      have hold := h i p n hkey hp hsince
      have hle := hg i p rfl hp ⟨hkey, htodo, hl⟩
      have hcur : last = if written i = 0 then n else written i :=
        Option.some.inj (hlast.symm.trans hold)
      refine ⟨p.lastId, by rw [hoff, hlast]; rfl, ?_⟩
      split_ifs at hcur <;> omega
    · cases hnone.symm.trans hlast
    · exact ⟨last, hoff.trans hlast, le_rfl⟩

/-- **The offset of a pair never decreases in a run of its replicas exactly when no poll of the run
writes its offset after a greater one has been written since its `SELECT`.** -/
theorem noDecrease_along_iff (key : PyStr × PyStr) (hinit : (machine (F := F) bus).init s)
    {es : List (Action ι F)} (hrun : (machine bus).run s es = some s') :
    (machine bus).Along (NoDecrease bus key) s es ↔ InTurn bus key (fun _ => 0) s es := by
  have main : ∀ (es : List (Action ι F)) (written : ι → ℕ) (s : State ι F), Inv bus s →
      Watched bus key written s → (machine bus).run s es = some s' →
      ((machine bus).Along (NoDecrease bus key) s es ↔ InTurn bus key written s es) := by
    intro es
    induction es with
    | nil => exact fun _ _ _ _ _ => Iff.rfl
    | cons a es ih =>
      intro written s hI hw hrun
      obtain ⟨t, ht, hrun⟩ := Machine.run_cons.mp hrun
      have hm := move_of_step ht
      have hnext : ∀ Q : State ι F → Prop, (∀ u, step bus s a = some u → Q u) ↔ Q t := fun Q =>
        ⟨fun h => h t ht, fun h u hu => Option.some.inj (ht.symm.trans hu) ▸ h⟩
      show (NoDecrease bus key s a ∧ ∀ u, step bus s a = some u → _) ↔ _ ∧ _
      rw [hnext, hnext, ← noDecrease_iff hw hI ht]
      exact and_congr_right fun hle => ih _ t (hI.move hm) (hw.move hI hm ht hle) hrun
  obtain rfl := hinit
  exact main es _ _ Inv.initial (by simp [Watched, State.initial]) hrun

end Replicas

section Example

/-- Two replicas of a worker that handle one event a poll. -/
def replicas : Bool → Subscriber := fun _ => ⟨text "worker", text "jobs", 1⟩

/-- Two events are published, and both replicas select the first. -/
def bothSelect : List (Action Bool Empty) :=
  [.subscribe true, .subscribe false, .insert (.publish (text "jobs") (.obj [])) 0,
    .insert (.publish (text "jobs") (.obj [])) 0, .commit 1, .commit 2, .select true,
    .select false]

/-- The one handles both events while the other is at the first. -/
def lateRun : List (Action Bool Empty) :=
  bothSelect ++ [.deliver false true, .finish false true, .select false, .deliver false true,
    .finish false true, .deliver true true]

/-- The slow replica takes the offset back from `2` to `1`. -/
theorem late_replica_rewinds :
    ∃ s t, (machine replicas).run State.initial lateRun = some s ∧
      step replicas s (.finish true true) = some t ∧
      s.offsets.get? (text "worker", text "jobs") = some 2 ∧
      t.offsets.get? (text "worker", text "jobs") = some 1 ∧
      ¬ NoDecrease replicas (text "worker", text "jobs") s (.finish true true) := by
  have hoff : ((machine replicas).run State.initial lateRun).bind (fun s =>
      (step replicas s (.finish true true)).map fun t =>
        (s.offsets.get? (text "worker", text "jobs"),
          t.offsets.get? (text "worker", text "jobs"))) =
      some (some 2, some 1) := by
    decide +kernel
  obtain ⟨s, hs, hoff⟩ := Option.bind_eq_some_iff.mp hoff
  obtain ⟨t, ht, hoff⟩ := Option.map_eq_some_iff.mp hoff
  obtain ⟨h2, h1⟩ := Prod.mk.inj hoff
  refine ⟨s, t, hs, ht, h2, h1, fun hle => ?_⟩
  obtain ⟨last', hlast', hle'⟩ := hle t ht 2 h2
  obtain rfl : 1 = last' := Option.some.inj (h1.symm.trans hlast')
  omega

/-- Both replicas handle the first event, and each writes its offset. -/
def turnRun : List (Action Bool Empty) :=
  bothSelect ++ [.deliver false true, .finish false true, .deliver true true, .finish true true]

theorem turnRun_noDecrease :
    ∃ s, (machine replicas).run State.initial turnRun = some s ∧
      s.offsets.get? (text "worker", text "jobs") = some 1 ∧
      (machine replicas).Along (NoDecrease replicas (text "worker", text "jobs")) State.initial
        turnRun := by
  have hoff : ((machine replicas).run State.initial turnRun).map (fun s =>
      s.offsets.get? (text "worker", text "jobs")) = some (some 1) := by
    decide +kernel
  obtain ⟨s, hrun, hs⟩ := Option.map_eq_some_iff.mp hoff
  refine ⟨s, hrun, hs, (noDecrease_along_iff _ rfl hrun).mpr (inTurn_of_eq_true ?_)⟩
  decide +kernel

end Example

end Omkit.Eventbus
