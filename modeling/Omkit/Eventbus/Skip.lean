import Omkit.Eventbus.Offsets

/-!
# When an event is skipped

The offset of a subscriber is one number, and it stands for all the ids up to it.  Ids are taken
before the rows that carry them become visible, so an event is skipped exactly when it becomes
visible below an offset that is already written, or when an offset is written above an event that
became visible after the `SELECT` of the poll that writes it.
-/

namespace Omkit.Eventbus

open Lib

section Skip

variable {F : Type} [JsonRuntime F] {ι : Type}

/-- Every committed event of the topic of `me` with an id up to its offset has been handled. -/
def NoSkip (bus : ι → Subscriber) (me : ι) (s : State ι F) : Prop :=
  ∀ last, s.offsets.get? (bus me).key = some last →
    ∀ r ∈ s.events, r.topic = (bus me).topic → r.id ≤ last → Handled s.log me r

/-- The steps that respect the order of ids: a row of the topic commits above the offset, and an
offset is written only if no row of the topic up to it became visible after the `SELECT`. -/
def InOrder (bus : ι → Subscriber) (me : ι) (s : State ι F) : Action ι F → Prop
  | .commit id => ∀ r ∈ s.pending, r.id = id → r.topic = (bus me).topic →
      ∀ last, s.offsets.get? (bus me).key = some last → last < r.id
  | .finish i true => i = me → ∀ p, s.phase me = .polling p → p.todo = [] →
      ∀ r ∈ s.events, r.topic = (bus me).topic → r.id ≤ p.lastId → r ∈ p.seen
  | _ => True

/-- While `me` polls, its offset is the one that the poll has read. -/
def Since (bus : ι → Subscriber) (me : ι) (s : State ι F) : Prop :=
  ∀ p, s.phase me = .polling p → s.offsets.get? (bus me).key = p.since

variable {bus : ι → Subscriber} {me : ι} {s s' : State ι F}

lemma Inv.events_nodup (hI : Inv bus s) : (s.events.map Row.id).Nodup :=
  hI.nodup.sublist ((List.sublist_append_right _ _).map _)

/-- A handled row is a committed one: another row with its id is the same row. -/
lemma Handled.mem_events (hI : Inv bus s) {r : Row F} (hr : r ∈ s.pending ++ s.events)
    (h : Handled s.log me r) : r ∈ s.events := by
  obtain ⟨e, he, hm⟩ := h
  obtain ⟨x, hx, hxe⟩ := hI.logged _ hm
  have hid : x.id = r.id := (event_id hxe).symm.trans (event_id he)
  rwa [← List.inj_on_of_nodup_map hI.nodup (List.mem_append_right _ hx) hr hid]

/-- A row that is handled during a poll was seen by its `SELECT`. -/
lemma Handled.mem_seen (hI : Inv bus s) {p : Poll F} (hp : s.phase me = .polling p) {r : Row F}
    (hr : r ∈ s.events) (h : Handled s.log me r) : r ∈ p.seen := by
  obtain ⟨e, he, hm⟩ := h
  obtain ⟨x, hx, hxe⟩ := (hI.poll me p hp).called _ hm rfl
  have hid : x.id = r.id := (event_id hxe).symm.trans (event_id he)
  rwa [← List.inj_on_of_nodup_map hI.events_nodup ((hI.poll me p hp).seen.subset hx) hr hid]

/-- `NoSkip` depends on the events, on one offset and on the log. -/
lemma NoSkip.mono (h : NoSkip bus me s) (he : s'.events = s.events)
    (ho : s'.offsets.get? (bus me).key = s.offsets.get? (bus me).key) (hl : s.log ⊆ s'.log) :
    NoSkip bus me s' := by
  intro last hlast r hr ht hle
  rw [he] at hr
  rw [ho] at hlast
  exact (h last hlast r hr ht hle).mono hl

/-- A row that commits is skipped exactly when it commits at or below the offset. -/
lemma noSkip_commit (hI : Inv bus s) (h : NoSkip bus me s) {r : Row F} (hr : r ∈ s.pending) :
    NoSkip bus me { s with pending := s.pending.filter fun r' => r'.id ≠ r.id,
                           events := s.events ++ [r] } ↔
      InOrder bus me s (.commit r.id) := by
  have hpend : (s.pending.map Row.id).Nodup :=
    hI.nodup.sublist ((List.sublist_append_left _ _).map _)
  constructor
  · intro h' x hx hid ht last hlast
    obtain rfl := List.inj_on_of_nodup_map hpend hx hr hid
    by_contra hle
    have hh : Handled s.log me x := h' last hlast x (by simp) ht (not_lt.mp hle)
    -- a handled row is committed, and the ids of the table and of the open rows are disjoint
    have hmem := hh.mem_events hI (List.mem_append_left _ hr)
    have hdisj := (List.nodup_append.mp (List.map_append ▸ hI.nodup)).2.2
    exact hdisj x.id (List.mem_map_of_mem hr) x.id (List.mem_map_of_mem hmem) rfl
  · intro hg last hlast x hx ht hle
    rcases List.mem_append.mp hx with hx | hx
    · exact h last hlast x hx ht hle
    · obtain rfl := List.mem_singleton.mp hx
      exact absurd (hg x hr rfl ht last hlast) (not_lt.mpr hle)

/-- A poll that writes an offset skips nothing exactly when nothing of the topic up to that offset
became visible after its `SELECT`. -/
lemma noSkip_updated [DecidableEq ι] (hI : Inv bus s) (hs : Since bus me s)
    (h : NoSkip bus me s) {p : Poll F} (hp : s.phase me = .polling p) (ht : p.todo = [])
    (hl : p.lastId ≠ 0) :
    NoSkip bus me ({ s with offsets := updateOffset (bus me) p.lastId s.offsets }.goto me .idle) ↔
      InOrder bus me s (.finish me true) := by
  have hpoll := hI.poll me p hp
  obtain ⟨done, hb, hd, hlast⟩ := hpoll.batch
  rw [ht, List.append_nil] at hb
  obtain ⟨x, hx, hxid⟩ := exists_of_lastOf_ne_zero (hlast ▸ hl)
  -- the poll had an offset, since it selected a row
  obtain ⟨last, hsince⟩ : ∃ last, p.since = some last := by
    cases hsince : p.since with
    | none => simp [← hb, hsince, selectRows] at hx
    | some last => exact ⟨last, rfl⟩
  have hoff : (updateOffset (bus me) p.lastId s.offsets).get? (bus me).key = some p.lastId := by
    rw [get?_updateOffset, if_pos rfl, hs p hp, hsince]
    rfl
  constructor
  · intro h' _ q hq _ r hr htop hle
    obtain rfl : p = q := Phase.polling.inj (hp.symm.trans hq)
    exact (h' p.lastId hoff r hr htop hle).mem_seen hI hp hr
  · intro hg n hn r hr htop hle
    obtain rfl : p.lastId = n := Option.some.inj (hoff.symm.trans hn)
    have hseen := hg rfl p hp ht r hr htop hle
    by_cases hbelow : r.id ≤ last
    · exact h last ((hs p hp).trans hsince) r hr htop hbelow
    · -- a row of the topic above the old offset and up to the new one is in the batch
      have hnodup : (p.seen.map Row.id).Nodup :=
        hI.events_nodup.sublist (hpoll.seen.sublist.map _)
      rw [hsince] at hb
      have hmem := selectRows_closed (b := bus me) hnodup hseen htop (not_le.mp hbelow)
        (hb ▸ hx) (by omega)
      exact hd r (hb ▸ hmem)

end Skip

section Runs

variable {F : Type} [JsonRuntime F] [Postgres F] {ι : Type} [DecidableEq ι]
  {bus : ι → Subscriber} {me : ι} {s s' : State ι F}

/-- The offset of a subscriber that shares it with nobody is written by its own polls only. -/
lemma Since.move (hsolo : ∀ i, (bus i).key = (bus me).key → i = me) (h : Since bus me s)
    {a : Action ι F} (hm : Move bus s a s') : Since bus me s' := by
  have hgoto : ∀ {t : State ι F} {i : ι} {q : Phase F}, Since bus me t → (∀ p, q ≠ .polling p) →
      Since bus me (t.goto i q) := by
    intro t i q ht hq p hp
    by_cases hi : me = i
    · subst hi
      exact absurd (by simpa using hp) (hq p)
    · exact ht p (by rwa [goto_phase_ne t q hi] at hp)
  -- only `subscribe` and `UPDATE` write offsets, and those of others are under other keys
  cases hm with
  | insert hv => exact h
  | commit hr => exact h
  | rollback => exact h
  | @subscribe i hp =>
    intro p hq
    by_cases hi : me = i
    · subst hi
      simp at hq
    · have hkey : (bus me).key ≠ (bus i).key := fun hk => hi (hsolo i hk.symm).symm
      rw [goto_phase_ne _ _ hi] at hq
      simpa [get?_insertOffset, hkey] using h p hq
  | @select i last hp hl =>
    intro p hq
    by_cases hi : me = i
    · subst hi
      rw [goto_phase_self] at hq
      obtain rfl := Phase.polling.inj hq
      exact hl
    · exact h p (by rwa [goto_phase_ne s _ hi] at hq)
  | unparsed hp => exact hgoto h (by simp)
  | @handled i p r todo e hp ht he =>
    intro q hq
    by_cases hi : me = i
    · subst hi
      rw [goto_phase_self] at hq
      obtain rfl := Phase.polling.inj hq
      exact h p hp
    · exact h q (by rwa [goto_phase_ne _ _ hi] at hq)
  | raised hp ht he => exact hgoto (t := s.record _ _ _) h (by simp)
  | @updated i p hp ht hl =>
    intro q hq
    by_cases hi : me = i
    · subst hi
      simp at hq
    · have hkey : (bus me).key ≠ (bus i).key := fun hk => hi (hsolo i hk.symm).symm
      rw [goto_phase_ne _ _ hi] at hq
      simpa [get?_updateOffset, hkey] using h q hq
  | unwritten hp => exact hgoto h (by simp)
  | abandon hp => exact hgoto h (by simp)
  | stop => exact hgoto h (by simp)

/-- One step from a state where nothing is skipped: nothing is skipped after it exactly when it
respects the order of ids. -/
lemma noSkip_move (hsolo : ∀ i, (bus i).key = (bus me).key → i = me) (hI : Inv bus s)
    (hs : Since bus me s) (h : NoSkip bus me s) {a : Action ι F} (hm : Move bus s a s') :
    NoSkip bus me s' ↔ InOrder bus me s a := by
  cases hm with
  | insert hv => exact iff_of_true (h.mono rfl rfl (List.Subset.refl _)) trivial
  | commit hr => exact noSkip_commit hI h hr
  | rollback => exact iff_of_true (h.mono rfl rfl (List.Subset.refl _)) trivial
  | @subscribe i hp =>
    refine iff_of_true ?_ trivial
    intro last hlast r hr ht hle
    rw [goto_offsets, get?_insertOffset] at hlast
    cases hold : s.offsets.get? (bus me).key with
    | some n => exact h last (by split_ifs at hlast <;> simp_all) r hr ht hle
    | none =>
      -- a new offset is `0`, below every id
      have hpos := (hI.bound r (List.mem_append_right _ hr)).1
      split_ifs at hlast <;> simp_all
      omega
  | select hp hl => exact iff_of_true (h.mono rfl rfl (List.Subset.refl _)) trivial
  | unparsed hp => exact iff_of_true (h.mono rfl rfl (List.Subset.refl _)) trivial
  | handled hp ht he =>
    exact iff_of_true (h.mono rfl rfl (List.subset_append_left _ _)) trivial
  | raised hp ht he =>
    exact iff_of_true (h.mono rfl rfl (List.subset_append_left _ _)) trivial
  | @updated i p hp ht hl =>
    by_cases hi : i = me
    · subst hi
      exact noSkip_updated hI hs h hp ht hl
    · have hkey : (bus me).key ≠ (bus i).key := fun hk => hi (hsolo i hk.symm)
      refine iff_of_true (h.mono rfl ?_ (List.Subset.refl _)) (fun he => absurd he hi)
      simp [get?_updateOffset, hkey]
  | @unwritten i ok p hp ht hl =>
    refine iff_of_true (h.mono rfl rfl (List.Subset.refl _)) ?_
    cases ok with
    | false => trivial
    | true =>
      -- no row was handled, and no id is `0`
      rintro rfl q hq - r hr - hle
      obtain rfl : p = q := Phase.polling.inj (hp.symm.trans hq)
      have hpos := (hI.bound r (List.mem_append_right _ hr)).1
      have hzero : p.lastId = 0 := by simpa using hl
      omega
  | abandon hp => exact iff_of_true (h.mono rfl rfl (List.Subset.refl _)) trivial
  | stop => exact iff_of_true (h.mono rfl rfl (List.Subset.refl _)) trivial

/-- **A subscriber skips no event in a run exactly when the run respects the order of ids**: every
row of its topic commits above its offset, and no poll writes an offset above a row that became
visible after the `SELECT` of the poll. -/
theorem noSkip_throughout_iff (hsolo : ∀ i, (bus i).key = (bus me).key → i = me)
    (hinit : (machine (F := F) bus).init s) {es : List (Action ι F)}
    (hrun : (machine bus).run s es = some s') :
    (machine bus).Throughout (NoSkip bus me) s es ↔ (machine bus).Along (InOrder bus me) s es := by
  have hinv : ∀ t : State ι F, (machine bus).Reach (InOrder bus me) t →
      Inv bus t ∧ Since bus me t := by
    intro t ht
    refine Machine.Reach.invariant (I := fun t => Inv bus t ∧ Since bus me t) ?_ ?_ ht
    · rintro _ rfl
      exact ⟨Inv.initial, by simp [Since, State.initial]⟩
    · intro t a t' h _ hstep
      have hm := move_of_step hstep
      exact ⟨h.1.move hm, h.2.move hsolo hm⟩
  refine Machine.throughout_iff_along ?_ ?_ hinit hrun
  · rintro _ rfl last hlast
    simp [State.initial] at hlast
  · intro t a t' ht hP hstep
    obtain ⟨hI, hs⟩ := hinv t ht
    exact noSkip_move hsolo hI hs hP (move_of_step hstep)

end Runs

section Example

/-- A subscriber of its own. -/
def worker : Unit → Subscriber := fun _ => ⟨text "worker", text "jobs", 100⟩

/-- Two publishers take the ids `1` and `2`, and the second commits first. -/
def overtaking : List (Action Unit Empty) :=
  [.subscribe (), .insert (.publish (text "jobs") (.obj [])) 0,
    .insert (.publish (text "jobs") (.obj [])) 0, .commit 2, .select (), .deliver () true,
    .finish () true, .commit 1]

/-- What a run leaves: the visible ids with their topics, the offset, and the ids handled. -/
def remains (s : State Unit Empty) : List (ℕ × PyStr) × Option ℕ × List ℕ :=
  (s.events.map fun r => (r.id, r.topic), s.offsets.get? (worker ()).key,
    s.log.map fun h => h.event.id)

lemma overtaking_remains :
    ((machine worker).run State.initial overtaking).map remains =
      some ([(2, text "jobs"), (1, text "jobs")], some 2, [2]) := by
  decide

/-- A run in which an event is skipped: it became visible below the offset. -/
theorem overtaken_event_is_skipped :
    ¬ ∀ (es : List (Action Unit Empty)) (s : State Unit Empty),
      (machine worker).run State.initial es = some s → NoSkip worker () s := by
  intro hall
  obtain ⟨s, hrun, hrem⟩ := Option.map_eq_some_iff.mp overtaking_remains
  simp only [remains, Prod.mk.injEq] at hrem
  obtain ⟨hids, hoff, hlog⟩ := hrem
  have hmem : (1, text "jobs") ∈ s.events.map fun r => (r.id, r.topic) := by simp [hids]
  obtain ⟨r, hr, hrow⟩ := List.mem_map.mp hmem
  obtain ⟨hid, htopic⟩ := Prod.mk.inj hrow
  obtain ⟨e, he, hdone⟩ := hall _ s hrun 2 hoff r hr htopic (by omega)
  have hone : e.id ∈ s.log.map fun h => h.event.id := List.mem_map.mpr ⟨_, hdone, rfl⟩
  rw [event_id he, hid, hlog] at hone
  simp at hone

/-- The events of one publisher after the other. -/
def successive : List (Action Unit Empty) :=
  [.subscribe (), .insert (.publish (text "jobs") (.obj [])) 0, .commit 1, .select (),
    .deliver () true, .insert (.publish (text "jobs") (.obj [])) 0, .finish () true, .commit 2,
    .select (), .deliver () true, .finish () true]

theorem successive_skips_nothing :
    ∃ s, (machine worker).run State.initial successive = some s ∧
      ((machine worker).Throughout (NoSkip worker ()) State.initial successive ↔
        (machine worker).Along (InOrder worker ()) State.initial successive) := by
  cases hrun : (machine worker).run State.initial successive with
  | none =>
    have hsome : ((machine worker).run State.initial successive).isSome = true := by decide
    simp [hrun] at hsome
  | some s => exact ⟨s, rfl, noSkip_throughout_iff (fun _ _ => rfl) rfl hrun⟩

end Example

end Omkit.Eventbus
