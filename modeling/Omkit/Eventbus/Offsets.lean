import Omkit.Eventbus.Postgres
import Mathlib.Tactic

/-!
# The invariant of the Postgres event bus

What a step of the bus can do (`Move`), and the invariant `Inv` of the tables and of the polls
under way, for any number of publishers and subscribers.
-/

namespace Omkit.Eventbus

open Lib

/-! ## The rows of a poll -/

section Select

variable {F : Type} {b : Subscriber} {events : List (Row F)} {last : Option ℕ}

/-- The rows from which a poll takes its batch. -/
def eligible (b : Subscriber) (last : ℕ) (events : List (Row F)) : List (Row F) :=
  (events.filter fun r => r.topic = b.topic ∧ last < r.id).insertionSort fun r r' => r.id ≤ r'.id

lemma mem_eligible {last : ℕ} {r : Row F} :
    r ∈ eligible b last events ↔ r ∈ events ∧ r.topic = b.topic ∧ last < r.id := by
  simp [eligible, List.mem_insertionSort]

lemma mem_of_mem_selectRows {r : Row F} (h : r ∈ selectRows b last events) :
    r ∈ events ∧ r.topic = b.topic := by
  cases last with
  | none => simp [selectRows] at h
  | some last =>
    have hr := mem_eligible.mp (List.mem_of_mem_take h)
    exact ⟨hr.1, hr.2.1⟩

lemma eligible_pairwise {last : ℕ} (hn : (events.map Row.id).Nodup) :
    (eligible b last events).Pairwise fun r r' => r.id < r'.id := by
  have hperm := List.perm_insertionSort (fun r r' : Row F => r.id ≤ r'.id)
    (events.filter fun r => r.topic = b.topic ∧ last < r.id)
  have hids : ((eligible b last events).map Row.id).Nodup := by
    refine ((hperm.map Row.id).nodup_iff).mpr ?_
    exact hn.sublist (List.filter_sublist.map _)
  have hle : (eligible b last events).Pairwise fun r r' => r.id ≤ r'.id :=
    List.pairwise_insertionSort _ _
  have hne : (eligible b last events).Pairwise fun r r' => r.id ≠ r'.id := by
    simpa [List.Nodup, List.pairwise_map] using hids
  exact (hle.and hne).imp fun h => lt_of_le_of_ne h.1 h.2

/-- A batch is closed downwards: it holds every row of the topic above the offset whose id is at
most that of one of its rows. -/
lemma selectRows_closed {last : ℕ} (hn : (events.map Row.id).Nodup) {r x : Row F}
    (hr : r ∈ events) (ht : r.topic = b.topic) (hl : last < r.id)
    (hx : x ∈ selectRows b (some last) events) (hrx : r.id ≤ x.id) :
    r ∈ selectRows b (some last) events := by
  have hmem : r ∈ eligible b last events := mem_eligible.mpr ⟨hr, ht, hl⟩
  have hp : (eligible b last events).Pairwise fun r r' => r.id < r'.id := eligible_pairwise hn
  rw [← List.take_append_drop b.batch (eligible b last events)] at hmem hp
  rcases List.mem_append.mp hmem with htake | hdrop
  · exact htake
  · -- a row after the batch has a greater id than all of the batch
    have hlt := (List.pairwise_append.mp hp).2.2 x hx r hdrop
    omega

end Select

/-- The id of the last row, and `0` if there is none. -/
def lastOf {F : Type} (rows : List (Row F)) : ℕ := (rows.getLast?.map Row.id).getD 0

@[simp] lemma lastOf_nil {F : Type} : lastOf ([] : List (Row F)) = 0 := rfl

@[simp] lemma lastOf_concat {F : Type} (rows : List (Row F)) (r : Row F) :
    lastOf (rows ++ [r]) = r.id := by
  simp [lastOf]

lemma exists_of_lastOf_ne_zero {F : Type} {rows : List (Row F)} (h : lastOf rows ≠ 0) :
    ∃ r ∈ rows, r.id = lastOf rows := by
  rcases List.eq_nil_or_concat rows with rfl | ⟨l, r, rfl⟩
  · exact absurd lastOf_nil h
  · exact ⟨r, by simp, by simp⟩

/-! ## The writes to the tables -/

section Tables

variable {F : Type}

lemma get?_insertOffset (b : Subscriber) (d : Dict (PyStr × PyStr) ℕ) (k : PyStr × PyStr) :
    (insertOffset b d).get? k = if k = b.key then some ((d.get? k).getD 0) else d.get? k := by
  unfold insertOffset
  by_cases hk : k = b.key
  · subst hk
    cases h : d.get? b.key with
    | none => simp
    | some n => simp [h]
  · rw [if_neg hk]
    split_ifs with h
    · exact d.get?_set_ne _ hk
    · rfl

lemma get?_updateOffset (b : Subscriber) (n : ℕ) (d : Dict (PyStr × PyStr) ℕ)
    (k : PyStr × PyStr) :
    (updateOffset b n d).get? k = if k = b.key then (d.get? k).map fun _ => n else d.get? k := by
  unfold updateOffset
  by_cases hk : k = b.key
  · subst hk
    cases h : d.get? b.key <;> simp [h]
  · rw [if_neg hk]
    split_ifs with h
    · rfl
    · exact d.get?_set_ne _ hk

/-- A row that commits moves from the open transactions to the table. -/
lemma perm_commit {l m : List (Row F)} {r : Row F} (hn : ((l ++ m).map Row.id).Nodup)
    (h : r ∈ l) : ((l.filter fun r' => r'.id ≠ r.id) ++ (m ++ [r])).Perm (l ++ m) := by
  have hl : (l.map Row.id).Nodup := hn.sublist ((List.sublist_append_left l m).map _)
  have hfilter : ((l.filter fun r' => r'.id ≠ r.id) ++ [r]).Perm l := by
    rw [List.perm_ext_iff_of_nodup _ hl.of_map]
    · intro x
      simp only [List.mem_append, List.mem_filter, List.mem_singleton, decide_eq_true_eq]
      constructor
      · rintro (hx | rfl)
        · exact hx.1
        · exact h
      · intro hx
        by_cases hid : x.id = r.id
        · exact Or.inr (List.inj_on_of_nodup_map hl hx h hid)
        · exact Or.inl ⟨hx, hid⟩
    · rw [List.nodup_append]
      refine ⟨hl.of_map.sublist List.filter_sublist, by simp, ?_⟩
      intro x hx y hy hxy
      obtain rfl := List.mem_singleton.mp hy
      simp [hxy] at hx
  calc (l.filter fun r' => r'.id ≠ r.id) ++ (m ++ [r])
      _ = ((l.filter fun r' => r'.id ≠ r.id) ++ m) ++ [r] := (List.append_assoc _ _ _).symm
      List.Perm _ (((l.filter fun r' => r'.id ≠ r.id) ++ [r]) ++ m) := by
        rw [List.append_assoc, List.append_assoc]
        exact (List.perm_append_comm).append_left _
      List.Perm _ (l ++ m) := hfilter.append_right m

end Tables

/-! ## The invariant of the tables and of the polls -/

section Invariant

variable {F : Type} [JsonRuntime F] {ι : Type}

/-- The handler of `i` has completed for the row. -/
def Handled (log : List (Handling ι F)) (i : ι) (r : Row F) : Prop :=
  ∃ e, r.event = .ok e ∧ ⟨i, e, true⟩ ∈ log

/-- What holds of a poll of `i` under way. -/
structure PollInv (b : Subscriber) (events : List (Row F)) (log : List (Handling ι F)) (i : ι)
    (p : Poll F) : Prop where
  seen : p.seen <+: events
  /-- The rows before `todo` are handled, and `last_id` is the id of the last of them. -/
  batch : ∃ done, selectRows b p.since p.seen = done ++ p.todo ∧ (∀ r ∈ done, Handled log i r) ∧
    p.lastId = lastOf done
  /-- The handler of `i` was only called on events that this poll could see. -/
  called : ∀ h ∈ log, h.subscriber = i → ∃ r ∈ p.seen, r.event = .ok h.event

/-- The invariant of the bus. -/
structure Inv (bus : ι → Subscriber) (s : State ι F) : Prop where
  nodup : ((s.pending ++ s.events).map Row.id).Nodup
  bound : ∀ r ∈ s.pending ++ s.events, 0 < r.id ∧ r.id < s.nextId
  nextId_pos : 0 < s.nextId
  logged : ∀ h ∈ s.log, ∃ r ∈ s.events, r.event = .ok h.event
  poll : ∀ i p, s.phase i = .polling p → PollInv (bus i) s.events s.log i p
  offset : ∀ i, s.phase i ≠ .stopped → s.offsets.get? (bus i).key ≠ none

lemma event_id {r : Row F} {e : Event F} (h : r.event = .ok e) : e.id = r.id := by
  unfold Row.event at h
  cases hp : parsePayload r.payload with
  | error err => simp [hp, bind, Except.bind] at h
  | ok v =>
    obtain rfl : _ = e := by simpa [hp, bind, Except.bind, pure, Except.pure] using h
    rfl

lemma Handled.mono {log log' : List (Handling ι F)} {i : ι} {r : Row F} (hl : log ⊆ log')
    (h : Handled log i r) : Handled log' i r := by
  obtain ⟨e, he, hm⟩ := h
  exact ⟨e, he, hl hm⟩

/-- A poll is not disturbed by what others do. -/
lemma PollInv.mono {b : Subscriber} {events events' : List (Row F)}
    {log log' : List (Handling ι F)} {i : ι} {p : Poll F} (he : events <+: events')
    (hl : log ⊆ log') (hnew : ∀ h ∈ log', h.subscriber = i → h ∈ log)
    (h : PollInv b events log i p) : PollInv b events' log' i p := by
  obtain ⟨done, hb, hd, hlast⟩ := h.batch
  exact ⟨h.seen.trans he, ⟨done, hb, fun r hr => (hd r hr).mono hl, hlast⟩,
    fun c hc hi => h.called c (hnew c hc hi) hi⟩

/-- The row that a poll hands to the handler next is one that it saw. -/
lemma PollInv.head_seen {b : Subscriber} {events : List (Row F)} {log : List (Handling ι F)}
    {i : ι} {p : Poll F} {r : Row F} {todo : List (Row F)} (h : PollInv b events log i p)
    (ht : p.todo = r :: todo) : r ∈ p.seen := by
  obtain ⟨done, hb, -, -⟩ := h.batch
  exact (mem_of_mem_selectRows (hb ▸ by simp [ht] : r ∈ selectRows b p.since p.seen)).1

variable {bus : ι → Subscriber} {s : State ι F}

lemma Inv.initial : Inv bus (State.initial : State ι F) where
  nodup := by simp [State.initial]
  bound := by simp [State.initial]
  nextId_pos := by simp [State.initial]
  logged := by simp [State.initial]
  poll := by simp [State.initial]
  offset := by simp [State.initial]

/-- A poll that begins. -/
lemma Inv.pollInv_select (hI : Inv bus s) (i : ι) (last : Option ℕ) :
    PollInv (bus i) s.events s.log i ⟨last, s.events, selectRows (bus i) last s.events, 0⟩ :=
  ⟨List.prefix_rfl, ⟨[], by simp⟩, fun c hc _ => hI.logged c hc⟩

/-- The invariant when offsets are written. -/
lemma Inv.withOffsets (hI : Inv bus s) {d : Dict (PyStr × PyStr) ℕ}
    (hd : ∀ k, s.offsets.get? k ≠ none → d.get? k ≠ none) :
    Inv bus { s with offsets := d } where
  nodup := hI.nodup
  bound := hI.bound
  nextId_pos := hI.nextId_pos
  logged := hI.logged
  poll := hI.poll
  offset i hi := hd _ (hI.offset i hi)

/-- The invariant after a handler call. -/
lemma Inv.record (hI : Inv bus s) {i : ι} {p : Poll F} {r : Row F} {todo : List (Row F)}
    {e : Event F} (h : s.phase i = .polling p) (ht : p.todo = r :: todo) (he : r.event = .ok e)
    (ok : Bool) : Inv bus (s.record i e ok) where
  nodup := hI.nodup
  bound := hI.bound
  nextId_pos := hI.nextId_pos
  logged c hc := by
    rcases List.mem_append.mp hc with hc | hc
    · exact hI.logged c hc
    · obtain rfl := List.mem_singleton.mp hc
      exact ⟨r, (hI.poll i p h).seen.subset ((hI.poll i p h).head_seen ht), he⟩
  poll j q hq := by
    have hinv := hI.poll j q hq
    have hsub : s.log ⊆ (s.record i e ok).log := List.subset_append_left _ _
    obtain ⟨done, hb, hd, hlast⟩ := hinv.batch
    refine ⟨hinv.seen, ⟨done, hb, fun r hr => (hd r hr).mono hsub, hlast⟩, ?_⟩
    intro c hc hcj
    rcases List.mem_append.mp hc with hc | hc
    · exact hinv.called c hc hcj
    · obtain rfl := List.mem_singleton.mp hc
      -- the new call is one of `j`, so `j` is `i`
      obtain rfl : i = j := hcj
      obtain rfl : p = q := Phase.polling.inj (h.symm.trans hq)
      exact ⟨r, hinv.head_seen ht, he⟩
  offset := hI.offset

variable [DecidableEq ι]

/-- The invariant when one subscriber moves to another phase. -/
lemma Inv.goto (hI : Inv bus s) {i : ι} {q : Phase F}
    (hq : ∀ p, q = .polling p → PollInv (bus i) s.events s.log i p)
    (hoff : q ≠ .stopped → s.offsets.get? (bus i).key ≠ none) : Inv bus (s.goto i q) where
  nodup := hI.nodup
  bound := hI.bound
  nextId_pos := hI.nextId_pos
  logged := hI.logged
  poll j p hp := by
    by_cases hj : j = i
    · subst hj
      exact hq p (by simpa using hp)
    · exact hI.poll j p (by rwa [goto_phase_ne s q hj] at hp)
  offset j hj := by
    by_cases hji : j = i
    · subst hji
      exact hoff (by simpa using hj)
    · exact hI.offset j (by rwa [goto_phase_ne s q hji] at hj)

/-- The invariant when a subscriber leaves a poll. -/
lemma Inv.leave (hI : Inv bus s) {i : ι} {p : Poll F} (h : s.phase i = .polling p) :
    Inv bus (s.goto i .idle) :=
  hI.goto (by simp) fun _ => hI.offset i (by simp [h])

lemma Inv.handled (hI : Inv bus s) {i : ι} {p : Poll F} {r : Row F} {todo : List (Row F)}
    {e : Event F} (h : s.phase i = .polling p) (ht : p.todo = r :: todo) (he : r.event = .ok e) :
    Inv bus ((s.record i e true).goto i (.polling { p with todo, lastId := r.id })) := by
  have hrec := hI.record h ht he true
  refine hrec.goto ?_ fun _ => hI.offset i (by simp [h])
  rintro _ ⟨⟩
  have hinv := hrec.poll i p h
  obtain ⟨done, hb, hd, -⟩ := hinv.batch
  refine ⟨hinv.seen, ⟨done ++ [r], by simp [hb, ht], ?_, by simp⟩, hinv.called⟩
  intro x hx
  rcases List.mem_append.mp hx with hx | hx
  · exact hd x hx
  · obtain rfl := List.mem_singleton.mp hx
    exact ⟨e, he, by simp [State.record]⟩

end Invariant

/-! ## What a step can do -/

section Moves

variable {F : Type} [JsonRuntime F] [Postgres F] {ι : Type} [DecidableEq ι]

/-- The steps of the bus, one constructor for each thing that can happen. -/
inductive Move (bus : ι → Subscriber) (s : State ι F) : Action ι F → State ι F → Prop
  | insert {c now v} (h : c.insert = some v) : Move bus s (.insert c now)
      { s with nextId := s.nextId + 1, pending := s.pending ++ [Row.ofInsert s.nextId v now] }
  | commit {r} (h : r ∈ s.pending) : Move bus s (.commit r.id)
      { s with pending := s.pending.filter fun r' => r'.id ≠ r.id, events := s.events ++ [r] }
  | rollback {id} : Move bus s (.rollback id)
      { s with pending := s.pending.filter fun r => r.id ≠ id }
  | subscribe {i} (h : s.phase i = .stopped) : Move bus s (.subscribe i)
      ({ s with offsets := insertOffset (bus i) s.offsets }.goto i .idle)
  | select {i last} (h : s.phase i = .idle) (hl : s.offsets.get? (bus i).key = last) :
      Move bus s (.select i)
        (s.goto i (.polling ⟨last, s.events, selectRows (bus i) last s.events, 0⟩))
  | unparsed {i ok p} (h : s.phase i = .polling p) : Move bus s (.deliver i ok) (s.goto i .idle)
  | handled {i p r todo e} (h : s.phase i = .polling p) (ht : p.todo = r :: todo)
      (he : r.event = .ok e) : Move bus s (.deliver i true)
        ((s.record i e true).goto i (.polling { p with todo, lastId := r.id }))
  | raised {i p r todo e} (h : s.phase i = .polling p) (ht : p.todo = r :: todo)
      (he : r.event = .ok e) : Move bus s (.deliver i false)
        ((s.record i e false).goto i .idle)
  | updated {i p} (h : s.phase i = .polling p) (ht : p.todo = []) (hl : p.lastId ≠ 0) :
      Move bus s (.finish i true)
        ({ s with offsets := updateOffset (bus i) p.lastId s.offsets }.goto i .idle)
  | unwritten {i ok p} (h : s.phase i = .polling p) (ht : p.todo = [])
      (hl : p.lastId = 0 ∨ ok = false) : Move bus s (.finish i ok) (s.goto i .idle)
  | abandon {i p} (h : s.phase i = .polling p) : Move bus s (.abandon i) (s.goto i .idle)
  | stop {i} : Move bus s (.stop i) (s.goto i .stopped)

variable {bus : ι → Subscriber} {s s' : State ι F}

lemma move_of_step {a : Action ι F} (h : step bus s a = some s') : Move bus s a s' := by
  cases a with
  | insert c now =>
    obtain ⟨v, hv, rfl⟩ := Option.map_eq_some_iff.mp h
    exact .insert hv
  | commit id =>
    obtain ⟨r, hr, rfl⟩ := Option.map_eq_some_iff.mp h
    obtain rfl : r.id = id := by simpa using List.find?_some hr
    exact .commit (List.mem_of_find?_eq_some hr)
  | rollback id =>
    obtain rfl := Option.some.inj h
    exact .rollback
  | subscribe i =>
    cases hp : s.phase i with
    | stopped =>
      obtain rfl : _ = s' := by simpa [step, hp] using h
      exact .subscribe hp
    | idle => simp [step, hp] at h
    | polling p => simp [step, hp] at h
  | select i =>
    cases hp : s.phase i with
    | idle =>
      obtain rfl : _ = s' := by simpa [step, hp] using h
      exact .select hp rfl
    | stopped => simp [step, hp] at h
    | polling p => simp [step, hp] at h
  | deliver i ok =>
    cases hp : s.phase i with
    | stopped => simp [step, hp] at h
    | idle => simp [step, hp] at h
    | polling p =>
      simp only [step, hp, deliver] at h
      cases ht : p.todo with
      | nil => simp [ht] at h
      | cons r todo =>
        cases he : r.event with
        | error err =>
          obtain rfl : _ = s' := by simpa [ht, he] using h
          exact .unparsed hp
        | ok e =>
          cases ok with
          | true =>
            obtain rfl : _ = s' := by simpa [ht, he] using h
            exact .handled hp ht he
          | false =>
            obtain rfl : _ = s' := by simpa [ht, he] using h
            exact .raised hp ht he
  | finish i ok =>
    cases hp : s.phase i with
    | stopped => simp [step, hp] at h
    | idle => simp [step, hp] at h
    | polling p =>
      simp only [step, hp, finish] at h
      cases ht : p.todo with
      | cons r todo => simp [ht] at h
      | nil =>
        simp only [ht] at h
        split_ifs at h with hc
        · obtain rfl := Option.some.inj h
          obtain ⟨hl, rfl⟩ := hc
          exact .updated hp ht hl
        · obtain rfl := Option.some.inj h
          refine .unwritten hp ht ?_
          by_contra hno
          push Not at hno
          exact hc ⟨hno.1, by simpa using hno.2⟩
  | abandon i =>
    cases hp : s.phase i with
    | polling p =>
      obtain rfl : _ = s' := by simpa [step, hp] using h
      exact .abandon hp
    | stopped => simp [step, hp] at h
    | idle => simp [step, hp] at h
  | stop i =>
    obtain rfl := Option.some.inj h
    exact .stop

/-- **Every step of the bus keeps its invariant.** -/
theorem Inv.move {a : Action ι F} (hI : Inv bus s) (h : Move bus s a s') : Inv bus s' := by
  cases h with
  | @insert c now v hv =>
    refine ⟨?_, ?_, by simp, hI.logged, hI.poll, hI.offset⟩
    · have hperm : (s.pending ++ [Row.ofInsert s.nextId v now] ++ s.events).Perm
          (Row.ofInsert s.nextId v now :: (s.pending ++ s.events)) := by
        rw [List.append_assoc]
        exact List.perm_middle
      rw [(hperm.map Row.id).nodup_iff, List.map_cons, List.nodup_cons]
      refine ⟨?_, hI.nodup⟩
      intro hmem
      obtain ⟨r, hr, hid⟩ := List.mem_map.mp hmem
      have hlt := (hI.bound r hr).2
      have hnew : (Row.ofInsert s.nextId v now).id = s.nextId := rfl
      omega
    · intro r hr
      simp only [List.mem_append, List.mem_singleton, or_assoc] at hr
      rcases hr with hr | rfl | hr
      · have := hI.bound r (List.mem_append_left _ hr)
        simp only
        omega
      · exact ⟨hI.nextId_pos, Nat.lt_succ_self _⟩
      · have := hI.bound r (List.mem_append_right _ hr)
        simp only
        omega
  | @commit r hr =>
    have hperm := perm_commit hI.nodup hr
    refine ⟨?_, ?_, hI.nextId_pos, ?_, fun i p hp => ?_, hI.offset⟩
    · exact ((hperm.map Row.id).nodup_iff).mpr hI.nodup
    · exact fun x hx => hI.bound x (hperm.mem_iff.mp hx)
    · intro c hc
      obtain ⟨x, hx, he⟩ := hI.logged c hc
      exact ⟨x, List.mem_append_left _ hx, he⟩
    · exact (hI.poll i p hp).mono (List.prefix_append _ _) (List.Subset.refl _) fun _ h _ => h
  | @rollback id =>
    have hsub : ((s.pending.filter fun r => r.id ≠ id) ++ s.events).Sublist
        (s.pending ++ s.events) := List.filter_sublist.append_right _
    refine ⟨hI.nodup.sublist (hsub.map _), fun r hr => hI.bound r (hsub.subset hr),
      hI.nextId_pos, hI.logged, hI.poll, hI.offset⟩
  | @subscribe i hp =>
    have hoff : Inv bus { s with offsets := insertOffset (bus i) s.offsets } := by
      refine hI.withOffsets fun k hk => ?_
      rw [get?_insertOffset]
      split_ifs <;> simp [hk]
    exact hoff.goto (by simp) fun _ => by simp [get?_insertOffset]
  | @select i last hp hl =>
    exact hI.goto (fun _ hq => Phase.polling.inj hq ▸ hI.pollInv_select i last)
      fun _ => hI.offset i (by simp [hp])
  | unparsed hp => exact hI.leave hp
  | handled hp ht he => exact hI.handled hp ht he
  | raised hp ht he => exact (hI.record hp ht he false).leave hp
  | @updated i p hp ht hl =>
    have hoff : Inv bus { s with offsets := updateOffset (bus i) p.lastId s.offsets } := by
      refine hI.withOffsets fun k hk => ?_
      rw [get?_updateOffset]
      split_ifs <;> simp [hk]
    exact hoff.leave hp
  | unwritten hp => exact hI.leave hp
  | abandon hp => exact hI.leave hp
  | stop => exact hI.goto (by simp) (by simp)

end Moves

end Omkit.Eventbus
