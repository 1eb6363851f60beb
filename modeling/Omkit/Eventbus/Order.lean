import Omkit.Eventbus.Skip

/-!
# Delivery in order

What one subscriber gets when the rows of its topic become visible in the order of their ids: its
handler meets the events in that order, each until it completes, and the offset follows it.
-/

namespace Omkit.Eventbus

open Lib

section Offsets

variable {F : Type} [JsonRuntime F] [Postgres F] {ι : Type} [DecidableEq ι]
  {bus : ι → Subscriber} {s s' : State ι F} {a : Action ι F}

/-- The offset of a pair is written by the polls of the subscribers of that pair; it begins at `0`
with a call of `subscribe`; and no other step changes it. -/
lemma offsets_move (hm : Move bus s a s') (k : PyStr × PyStr) :
    (∃ i p, a = .finish i true ∧ (bus i).key = k ∧ s.phase i = .polling p ∧ p.todo = [] ∧
      p.lastId ≠ 0 ∧ s'.offsets.get? k = (s.offsets.get? k).map fun _ => p.lastId) ∨
    (∃ i, a = .subscribe i ∧ (bus i).key = k ∧ s.offsets.get? k = none ∧
      s'.offsets.get? k = some 0) ∨
    s'.offsets.get? k = s.offsets.get? k := by
  cases hm with
  | @subscribe i hp =>
    rw [goto_offsets, get?_insertOffset]
    by_cases hk : k = (bus i).key
    · rw [if_pos hk]
      cases hold : s.offsets.get? k with
      | none => exact Or.inr (Or.inl ⟨i, rfl, hk.symm, rfl, rfl⟩)
      | some n => exact Or.inr (Or.inr rfl)
    · exact Or.inr (Or.inr (if_neg hk))
  | @updated i p hp ht hl =>
    rw [goto_offsets, get?_updateOffset]
    by_cases hk : k = (bus i).key
    · exact Or.inl ⟨i, p, rfl, hk.symm, hp, ht, hl, if_pos hk⟩
    · exact Or.inr (Or.inr (if_neg hk))
  | _ => exact Or.inr (Or.inr rfl)

end Offsets

/-! ## The order of the rows -/

section Order

variable {F : Type} [JsonRuntime F] {ι : Type}

/-- The offset that a poll writes is the id of a row that it handled, and it is above the offset
that the poll has read. -/
lemma PollInv.written {b : Subscriber} {events : List (Row F)} {log : List (Handling ι F)} {i : ι}
    {p : Poll F} (h : PollInv b events log i p) (hl : p.lastId ≠ 0) :
    ∃ last r, p.since = some last ∧ r ∈ p.seen ∧ r.topic = b.topic ∧ r.id = p.lastId ∧
      last < p.lastId := by
  obtain ⟨done, hb, -, hlast⟩ := h.batch
  obtain ⟨r, hr, hid⟩ := exists_of_lastOf_ne_zero (hlast ▸ hl)
  have hmem : r ∈ selectRows b p.since p.seen := hb ▸ List.mem_append_left _ hr
  cases hsince : p.since with
  | none => simp [hsince, selectRows] at hmem
  | some last =>
    rw [hsince] at hmem
    obtain ⟨hseen, htopic, habove⟩ := mem_eligible.mp (List.mem_of_mem_take hmem)
    exact ⟨last, r, rfl, hseen, htopic, hid.trans hlast.symm, by omega⟩

/-- The rows of the topic of `me` become visible in the order of their ids. -/
def VisibleInOrder (bus : ι → Subscriber) (me : ι) (s : State ι F) : Action ι F → Prop
  | .commit id => ∀ r ∈ s.pending, r.id = id → r.topic = (bus me).topic →
      ∀ x ∈ s.events, x.topic = (bus me).topic → x.id < r.id
  | _ => True

/-- The handler of `me` has completed for the events of its topic with an id below `n`. -/
def HandledBelow (bus : ι → Subscriber) (me : ι) (s : State ι F) (log : List (Handling ι F))
    (n : ℕ) : Prop :=
  ∀ r ∈ s.events, r.topic = (bus me).topic → r.id < n → Handled log me r

/-- Every call of the handler of `me` came after it had completed for the events before. -/
def CalledInOrder (bus : ι → Subscriber) (me : ι) (s : State ι F) : Prop :=
  ∀ before h after, s.log = before ++ h :: after → h.subscriber = me →
    HandledBelow bus me s before h.event.id

/-- What the order of the rows comes to, in the tables and in the history of `me`. -/
structure Ordered (bus : ι → Subscriber) (me : ι) (s : State ι F) : Prop where
  sorted : s.events.Pairwise fun r r' =>
    r.topic = (bus me).topic → r'.topic = (bus me).topic → r.id < r'.id
  /-- The offset is `0` or the id of an event of the topic. -/
  offset : ∀ last, s.offsets.get? (bus me).key = some last →
    last = 0 ∨ ∃ r ∈ s.events, r.topic = (bus me).topic ∧ r.id = last
  /-- The handler is called on events of the topic. -/
  topic : ∀ h ∈ s.log, h.subscriber = me →
    ∃ r ∈ s.events, r.topic = (bus me).topic ∧ r.id = h.event.id
  called : CalledInOrder bus me s

variable {bus : ι → Subscriber} {me : ι} {s s' : State ι F}

/-- What a poll has seen is closed downwards: the rows that became visible since have greater
ids. -/
lemma Ordered.mem_seen (h : Ordered bus me s) {p : Poll F} (hseen : p.seen <+: s.events)
    {r x : Row F} (hr : r ∈ s.events) (hrt : r.topic = (bus me).topic) (hx : x ∈ p.seen)
    (hxt : x.topic = (bus me).topic) (hle : r.id ≤ x.id) : r ∈ p.seen := by
  obtain ⟨rest, hrest⟩ := hseen
  have hsorted := h.sorted
  rw [← hrest] at hr hsorted
  rcases List.mem_append.mp hr with hr | hr
  · exact hr
  · have hlt := (List.pairwise_append.mp hsorted).2.2 x hx r hr hxt hrt
    omega

/-- Rows that become visible in order respect the order of ids. -/
lemma Ordered.inOrder (h : Ordered bus me s) (hI : Inv bus s) {a : Action ι F}
    (hg : VisibleInOrder bus me s a) : InOrder bus me s a := by
  cases a with
  | commit id =>
    intro r hr hid ht last hlast
    rcases h.offset last hlast with rfl | ⟨x, hx, hxt, rfl⟩
    · exact (hI.bound r (List.mem_append_left _ hr)).1
    · exact hg r hr hid ht x hx hxt
  | finish i ok =>
    cases ok with
    | false => trivial
    | true =>
      rintro rfl p hp - r hr ht hle
      have hpos := (hI.bound r (List.mem_append_right _ hr)).1
      have hpoll := hI.poll i p hp
      obtain ⟨done, hb, -, hlast⟩ := hpoll.batch
      obtain ⟨x, hx, hxid⟩ := @exists_of_lastOf_ne_zero _ done (by omega)
      have hmem : x ∈ selectRows (bus i) p.since p.seen := hb ▸ List.mem_append_left _ hx
      obtain ⟨hxseen, hxt⟩ := mem_of_mem_selectRows hmem
      exact h.mem_seen hpoll.seen hr ht hxseen hxt (by omega)
  | _ => trivial

/-- When a poll comes to a row, the events of the topic below it are handled: those up to the old
offset, and those of the batch before the row. -/
lemma Ordered.next (h : Ordered bus me s) (hI : Inv bus s) (hs : Since bus me s)
    (hskip : NoSkip bus me s) {p : Poll F} (hp : s.phase me = .polling p) {r : Row F}
    {todo : List (Row F)} (ht : p.todo = r :: todo) : HandledBelow bus me s s.log r.id := by
  intro x hx hxt hlt
  have hpoll := hI.poll me p hp
  obtain ⟨done, hb, hd, -⟩ := hpoll.batch
  rw [ht] at hb
  have hr : r ∈ selectRows (bus me) p.since p.seen := by simp [hb]
  obtain ⟨hrseen, hrt⟩ := mem_of_mem_selectRows hr
  have hxseen := h.mem_seen hpoll.seen hx hxt hrseen hrt hlt.le
  cases hsince : p.since with
  | none => simp [hsince, selectRows] at hr
  | some last =>
    rw [hsince] at hr hb
    by_cases hbelow : x.id ≤ last
    · exact hskip last ((hs p hp).trans hsince) x hx hxt hbelow
    · -- `x` is in the batch, and the batch is in the order of ids
      have hnodup : (p.seen.map Row.id).Nodup :=
        hI.events_nodup.sublist (hpoll.seen.sublist.map _)
      have hmem := selectRows_closed hnodup hxseen hxt (not_le.mp hbelow) hr hlt.le
      have hasc : (selectRows (bus me) (some last) p.seen).Pairwise fun r r' => r.id < r'.id :=
        (eligible_pairwise hnodup).sublist (List.take_sublist _ _)
      rw [hb] at hmem hasc
      rcases List.mem_append.mp hmem with hdone | hrest
      · exact hd x hdone
      · have hafter := (List.pairwise_append.mp hasc).2.1
        rcases List.mem_cons.mp hrest with rfl | hrest
        · exact absurd hlt (lt_irrefl _)
        · have := (List.pairwise_cons.mp hafter).1 x hrest
          omega

/-- `Ordered` depends on the events, on one offset and on the log. -/
lemma Ordered.congr (h : Ordered bus me s) (he : s'.events = s.events)
    (ho : s'.offsets.get? (bus me).key = s.offsets.get? (bus me).key) (hl : s'.log = s.log) :
    Ordered bus me s' where
  sorted := he ▸ h.sorted
  offset last hlast := he ▸ h.offset last (ho ▸ hlast)
  topic c hc hme := he ▸ h.topic c (hl ▸ hc) hme
  called before c after hlog hme r hr := h.called before c after (hl ▸ hlog) hme r (he ▸ hr)

lemma Ordered.commit (h : Ordered bus me s) {r : Row F} {pending : List (Row F)}
    (hg : r.topic = (bus me).topic → ∀ x ∈ s.events, x.topic = (bus me).topic → x.id < r.id) :
    Ordered bus me { s with pending, events := s.events ++ [r] } where
  sorted := by
    rw [List.pairwise_append]
    refine ⟨h.sorted, List.pairwise_singleton _ _, fun x hx y hy hxt hyt => ?_⟩
    obtain rfl := List.mem_singleton.mp hy
    exact hg hyt x hx hxt
  offset last hlast := by
    rcases h.offset last hlast with h0 | ⟨x, hx, hxt, hid⟩
    · exact Or.inl h0
    · exact Or.inr ⟨x, List.mem_append_left _ hx, hxt, hid⟩
  topic c hc hme := by
    obtain ⟨x, hx, hxt, hid⟩ := h.topic c hc hme
    exact ⟨x, List.mem_append_left _ hx, hxt, hid⟩
  called before c after hlog hme x hx hxt hlt := by
    rcases List.mem_append.mp hx with hx | hx
    · exact h.called before c after hlog hme x hx hxt hlt
    · -- the new row is above every event that the handler was called on
      obtain rfl := List.mem_singleton.mp hx
      have hc : c ∈ s.log := by
        rw [hlog]
        exact List.mem_append_right _ (List.mem_cons_self ..)
      obtain ⟨y, hy, hyt, hid⟩ := h.topic c hc hme
      have := hg hxt y hy hyt
      omega

lemma Ordered.record (h : Ordered bus me s) {i : ι} {e : Event F} {ok : Bool}
    (hme : i = me → (∃ r ∈ s.events, r.topic = (bus me).topic ∧ r.id = e.id) ∧
      HandledBelow bus me s s.log e.id) : Ordered bus me (s.record i e ok) where
  sorted := h.sorted
  offset := h.offset
  topic c hc hcme := by
    rcases List.mem_append.mp hc with hc | hc
    · exact h.topic c hc hcme
    · obtain rfl := List.mem_singleton.mp hc
      exact (hme hcme).1
  called before c after hlog hcme := by
    have hlog : s.log ++ [⟨i, e, ok⟩] = before ++ c :: after := hlog
    rcases List.eq_nil_or_concat after with rfl | ⟨after, d, rfl⟩
    · -- the call of this step
      obtain ⟨rfl, hc⟩ := List.append_inj' hlog rfl
      obtain rfl := List.singleton_inj.mp hc
      exact (hme hcme).2
    · have hinit : s.log = before ++ c :: after := by
        have hcat : s.log ++ [⟨i, e, ok⟩] = (before ++ c :: after) ++ [d] := by simpa using hlog
        exact (List.append_inj' hcat rfl).1
      exact h.called before c after hinit hcme

/-- A handler call of a poll keeps the order. -/
lemma Ordered.deliver (h : Ordered bus me s) (hI : Inv bus s) (hs : Since bus me s)
    (hskip : NoSkip bus me s) {i : ι} {p : Poll F} (hp : s.phase i = .polling p) {r : Row F}
    {todo : List (Row F)} (ht : p.todo = r :: todo) {e : Event F} (he : r.event = .ok e)
    (ok : Bool) : Ordered bus me (s.record i e ok) := by
  refine h.record ?_
  rintro rfl
  obtain ⟨done, hb, -, -⟩ := (hI.poll i p hp).batch
  have hr : r ∈ selectRows (bus i) p.since p.seen := by simp [hb, ht]
  obtain ⟨hseen, hrt⟩ := mem_of_mem_selectRows hr
  rw [event_id he]
  exact ⟨⟨r, (hI.poll i p hp).seen.subset hseen, hrt, rfl⟩, h.next hI hs hskip hp ht⟩

end Order

/-! ## Runs -/

section Runs

variable {F : Type} [JsonRuntime F] [Postgres F] {ι : Type} [DecidableEq ι]
  {bus : ι → Subscriber} {me : ι} {s s' : State ι F} {a : Action ι F}

/-- The offset of `me` after a step is the one before, or it begins at `0`, or it is the id of a
row that `me` has handled. -/
lemma Ordered.offset_move (h : Ordered bus me s) (hI : Inv bus s)
    (hsolo : ∀ i, (bus i).key = (bus me).key → i = me) (hm : Move bus s a s') {last : ℕ}
    (hlast : s'.offsets.get? (bus me).key = some last) :
    last = 0 ∨ ∃ r ∈ s.events, r.topic = (bus me).topic ∧ r.id = last := by
  rcases offsets_move hm (bus me).key with ⟨i, p, -, hkey, hp, -, hl, hoff⟩ |
    ⟨i, -, -, -, hoff⟩ | hoff
  · obtain rfl := hsolo i hkey
    obtain ⟨_, r, -, hr, hrt, hid, -⟩ := (hI.poll i p hp).written hl
    rw [hoff] at hlast
    obtain ⟨_, -, rfl⟩ := Option.map_eq_some_iff.mp hlast
    exact Or.inr ⟨r, (hI.poll i p hp).seen.subset hr, hrt, hid⟩
  · exact Or.inl (Option.some.inj (hlast.symm.trans hoff))
  · exact h.offset last (hoff ▸ hlast)

/-- One step that makes rows visible in order keeps the order. -/
lemma Ordered.move (h : Ordered bus me s) (hI : Inv bus s) (hs : Since bus me s)
    (hskip : NoSkip bus me s) (hsolo : ∀ i, (bus i).key = (bus me).key → i = me)
    (hg : VisibleInOrder bus me s a) (hm : Move bus s a s') : Ordered bus me s' := by
  have hoffset : ∀ last, s'.offsets.get? (bus me).key = some last →
      last = 0 ∨ ∃ r ∈ s.events, r.topic = (bus me).topic ∧ r.id = last :=
    fun _ => h.offset_move hI hsolo hm
  cases hm with
  | commit hr => exact h.commit fun ht => hg _ hr rfl ht
  | handled hp ht he => exact (h.deliver hI hs hskip hp ht he true).congr rfl rfl rfl
  | raised hp ht he => exact (h.deliver hI hs hskip hp ht he false).congr rfl rfl rfl
  | subscribe hp => exact ⟨h.sorted, hoffset, h.topic, h.called⟩
  | updated hp ht hl => exact ⟨h.sorted, hoffset, h.topic, h.called⟩
  | _ => exact h.congr rfl rfl rfl

/-- What a run leads to in which the rows of the topic become visible in order. -/
lemma ordered_of_reach (hsolo : ∀ i, (bus i).key = (bus me).key → i = me)
    (h : (machine (F := F) bus).Reach (VisibleInOrder bus me) s) :
    Inv bus s ∧ Since bus me s ∧ NoSkip bus me s ∧ Ordered bus me s := by
  refine Machine.Reach.invariant
    (I := fun s => Inv bus s ∧ Since bus me s ∧ NoSkip bus me s ∧ Ordered bus me s) ?_ ?_ h
  · rintro _ rfl
    refine ⟨Inv.initial, by simp [Since, State.initial], fun last hlast => ?_, ?_⟩
    · simp [State.initial] at hlast
    · exact ⟨by simp [State.initial], by simp [State.initial], by simp [State.initial],
        fun before c after hlog => by simp [State.initial] at hlog⟩
  · rintro s a s' ⟨hI, hs, hskip, ho⟩ hg hstep
    have hm := move_of_step hstep
    exact ⟨hI.move hm, hs.move hsolo hm, (noSkip_move hsolo hI hs hskip hm).mpr (ho.inOrder hI hg),
      ho.move hI hs hskip hsolo hg hm⟩

/-- No step decreases the offset of a subscriber that shares it with nobody. -/
lemma Since.offset_le (hs : Since bus me s) (hI : Inv bus s)
    (hsolo : ∀ i, (bus i).key = (bus me).key → i = me) (hm : Move bus s a s') {last : ℕ}
    (hlast : s.offsets.get? (bus me).key = some last) :
    ∃ last', s'.offsets.get? (bus me).key = some last' ∧ last ≤ last' := by
  rcases offsets_move hm (bus me).key with ⟨i, p, -, hkey, hp, -, hl, hoff⟩ |
    ⟨i, -, -, hnone, -⟩ | hoff
  · obtain rfl := hsolo i hkey
    obtain ⟨n, -, hsince, -, -, -, hlt⟩ := (hI.poll i p hp).written hl
    obtain rfl : last = n := Option.some.inj (hlast.symm.trans ((hs p hp).trans hsince))
    exact ⟨p.lastId, by rw [hoff, hlast]; rfl, hlt.le⟩
  · cases hnone.symm.trans hlast
  · exact ⟨last, hoff.trans hlast, le_rfl⟩

/-- The subscriber that an action is a step of. -/
def Action.subscriber? : Action ι F → Option ι
  | .insert .. | .commit _ | .rollback _ => none
  | .subscribe i | .select i | .deliver i _ | .finish i _ | .abandon i | .stop i => some i

/-- A step of `me` or of a publisher leaves the offsets of the other pairs alone. -/
lemma offsets_frame (hm : Move bus s a s') (ha : ∀ i, a.subscriber? = some i → i = me)
    {k : PyStr × PyStr} (hk : k ≠ (bus me).key) : s'.offsets.get? k = s.offsets.get? k := by
  rcases offsets_move hm k with ⟨i, p, rfl, hkey, -⟩ | ⟨i, rfl, hkey, -⟩ | hoff
  · exact absurd (ha i rfl ▸ hkey.symm) hk
  · exact absurd (ha i rfl ▸ hkey.symm) hk
  · exact hoff

/-- **When the rows of a topic become visible in the order of their ids, its only subscriber calls
the handler on no event before it has completed for the events below; the offset is `0` or the id
of an event up to which all are handled; it never decreases; and the polls of the subscriber leave
the other offsets alone.** -/
theorem delivered_in_order (hsolo : ∀ i, (bus i).key = (bus me).key → i = me)
    (h : (machine (F := F) bus).Reach (VisibleInOrder bus me) s) :
    CalledInOrder bus me s ∧
    (∀ p r todo, s.phase me = .polling p → p.todo = r :: todo →
      HandledBelow bus me s s.log r.id) ∧
    (∀ last, s.offsets.get? (bus me).key = some last →
      last = 0 ∨ (∃ r ∈ s.events, r.topic = (bus me).topic ∧ r.id = last) ∧
        ∀ r ∈ s.events, r.topic = (bus me).topic → r.id ≤ last → Handled s.log me r) ∧
    ∀ es t, (machine bus).Along (VisibleInOrder bus me) s es → (machine bus).run s es = some t →
      (∀ last, s.offsets.get? (bus me).key = some last →
        ∃ last', t.offsets.get? (bus me).key = some last' ∧ last ≤ last') ∧
      ((∀ a ∈ es, ∀ i, a.subscriber? = some i → i = me) →
        ∀ k ≠ (bus me).key, t.offsets.get? k = s.offsets.get? k) := by
  obtain ⟨hI, hs, hskip, ho⟩ := ordered_of_reach hsolo h
  refine ⟨ho.called, fun p r todo hp ht => ho.next hI hs hskip hp ht, fun last hlast => ?_, ?_⟩
  · exact (ho.offset last hlast).imp_right fun hrow => ⟨hrow, hskip last hlast⟩
  · -- the last two hold of one step, and of a run by induction on it
    intro es t halong hrun
    clear ho hskip hI hs
    induction es generalizing s with
    | nil =>
      obtain rfl : s = t := by simpa using hrun
      exact ⟨fun last hlast => ⟨last, hlast, le_rfl⟩, fun _ _ _ => rfl⟩
    | cons a es ih =>
      obtain ⟨u, hu, hrun⟩ := Machine.run_cons.mp hrun
      obtain ⟨hI, hs, -, -⟩ := ordered_of_reach hsolo h
      have hm := move_of_step hu
      obtain ⟨hle, hframe⟩ := ih (h.step halong.1 hu) (halong.2 u hu) hrun
      refine ⟨fun last hlast => ?_, fun hall k hk => ?_⟩
      · obtain ⟨n, hn, hle₁⟩ := hs.offset_le hI hsolo hm hlast
        obtain ⟨last', hlast', hle₂⟩ := hle n hn
        exact ⟨last', hlast', hle₁.trans hle₂⟩
      · rw [hframe (fun b hb => hall b (List.mem_cons_of_mem _ hb)) k hk]
        exact offsets_frame hm (hall a (List.mem_cons_self ..)) hk

end Runs

section Example

instance (s : State Unit Empty) : (a : Action Unit Empty) →
    Decidable (VisibleInOrder worker () s a)
  | .commit id => inferInstanceAs (Decidable (∀ r ∈ s.pending, r.id = id →
      r.topic = (worker ()).topic → ∀ x ∈ s.events, x.topic = (worker ()).topic → x.id < r.id))
  | .insert .. | .rollback _ | .subscribe _ | .select _ | .deliver .. | .finish .. | .abandon _
  | .stop _ => isTrue trivial

theorem successive_in_order :
    ∃ s, (machine worker).run State.initial successive = some s ∧ CalledInOrder worker () s := by
  cases hrun : (machine worker).run State.initial successive with
  | none =>
    have hsome : ((machine worker).run State.initial successive).isSome = true := by decide
    simp [hrun] at hsome
  | some s =>
    have halong : (machine worker).Along (VisibleInOrder worker ()) State.initial successive := by
      decide +kernel
    have hreach := (Machine.Reach.init (M := machine worker) rfl).run halong hrun
    exact ⟨s, rfl, (delivered_in_order (fun _ _ => rfl) hreach).1⟩

end Example

end Omkit.Eventbus
