import Omkit.Valkeystream

/-!
# What the consumers of a group are handed

Every step of the machine does to a group one of the few things of `Change`, and each of them keeps
the account between a group, its stream and its history.
-/

namespace Omkit.Valkeystream

open Lib

variable {ι : Type}

/-- A group as seen from its names: the stream, the group, and what has happened in it. -/
structure View where
  stream : Stream Raw
  group : Ledger PyStr
  history : List (Deed PyStr Raw)

/-- The view of a group. -/
def State.view (cs : ι → StreamConsumer) (s : State ι) (key : PyStr × PyStr) : View :=
  ⟨s.streams key.1, s.group key, s.history cs key⟩

/-- The claim of a consumer in a group. -/
def claim (env : Env) (c : StreamConsumer) (now idleMs : ℕ) (g : Ledger PyStr) :
    List ℕ × Ledger PyStr :=
  g.reclaim (fun x => env.aged (now - x.since) idleMs) c.consumer now (10 * c.count) c.count

/-- What a step does to a group. -/
inductive Change (env : Env) (cs : ι → StreamConsumer) (key : PyStr × PyStr) (now : ℕ) (v : View) :
    Action ι → View → Prop
  | keep {a} : Change env cs key now v a v
  | add {stream raw} : Change env cs key now v (.xadd stream raw)
      ⟨v.stream.add raw, v.group, v.history⟩
  | read {i arrived l} (hi : (cs i).key = key) (hl : l = v.stream.after v.group.last (cs i).count) :
      Change env cs key now v (.read i arrived)
        ⟨v.stream, v.group.lend (cs i).consumer now l,
          v.history ++ [.lent true (cs i).consumer now l]⟩
  | settle {i id} (hi : (cs i).key = key) : Change env cs key now v (.ack i id true)
      ⟨v.stream, v.group.settle id, v.history ++ [.settled id]⟩
  | claim {i idleMs arrived r} (hi : (cs i).key = key)
      (hr : r = claim env (cs i) now idleMs v.group) :
      Change env cs key now v (.claimStale i idleMs arrived)
        ⟨v.stream, r.2, v.history ++ [.lent false (cs i).consumer now (v.stream.fetch r.1)]⟩

variable {env : Env} {cs : ι → StreamConsumer} {s s' : State ι} {key : PyStr × PyStr}

@[simp] lemma group_note (o : Obs ι) : (s.note o).group key = s.group key := rfl

@[simp] lemma group_regroup_self (g : Ledger PyStr) : (s.regroup key g).group key = g := by
  simp [State.regroup, State.group]

lemma group_regroup_ne (g : Ledger PyStr) {k : PyStr × PyStr} (h : key ≠ k) :
    (s.regroup k g).group key = s.group key := by
  simp [State.regroup, State.group, h]

@[simp] lemma history_regroup (g : Ledger PyStr) (k : PyStr × PyStr) :
    (s.regroup k g).history cs key = s.history cs key := rfl

lemma history_note (o : Obs ι) :
    (s.note o).history cs key = s.history cs key ++ (o.deed cs key).toList := by
  cases ho : o.deed cs key <;> simp [State.history, State.note, ho]

/-- An observation in another group leaves a group as it is. -/
lemma view_other {k : PyStr × PyStr} (hk : k ≠ key) (g : Ledger PyStr) {o : Obs ι}
    (ho : o.deed cs key = none) :
    ((s.regroup k g).note o).view cs key = s.view cs key := by
  have hg := group_regroup_ne (s := s) g (Ne.symm hk)
  simp only [State.view, group_note, hg, history_note, history_regroup, ho, Option.toList_none,
    List.append_nil]
  rfl

/-- An observation in a group adds its deed to the history. -/
lemma view_self (g : Ledger PyStr) {o : Obs ι} {d : Deed PyStr Raw}
    (ho : o.deed cs key = some d) :
    ((s.regroup key g).note o).view cs key =
      ⟨s.streams key.1, g, s.history cs key ++ [d]⟩ := by
  simp only [State.view, group_note, group_regroup_self, history_note, history_regroup, ho,
    Option.toList_some]
  rfl

lemma view_add_self (raw : Raw) : (s.add key.1 raw).view cs key =
    ⟨(s.streams key.1).add raw, s.group key, s.history cs key⟩ := by
  simp only [State.view, State.add, Function.update_self]
  rfl

lemma view_add_ne (raw : Raw) {stream : PyStr} (hs : key.1 ≠ stream) :
    (s.add stream raw).view cs key = s.view cs key := by
  simp only [State.view, State.add, Function.update_of_ne hs]
  rfl

lemma change_of_step {a : Action ι} (h : step env cs s a = some s') (key : PyStr × PyStr) :
    Change env cs key s.now (s.view cs key) a (s'.view cs key) := by
  cases a with
  | xadd stream raw =>
    obtain rfl := Option.some.inj h
    by_cases hs : key.1 = stream
    · subst hs
      rw [view_add_self]
      exact .add
    · rw [view_add_ne raw hs]
      exact .keep
  | tick d =>
    obtain rfl := Option.some.inj h
    exact .keep
  | ensureGroup i reached =>
    cases reached with
    | false =>
      obtain rfl : s = s' := by simpa [step] using h
      exact .keep
    | true =>
      obtain rfl : _ = s' := by simpa [step] using h
      have hview : (s.regroup (cs i).key ((s.groups (cs i).key).getD .empty)).view cs key =
          s.view cs key := by
        by_cases hk : key = (cs i).key
        · subst hk
          simp only [State.view, group_regroup_self, history_regroup]
          rfl
        · simp only [State.view, group_regroup_ne _ hk, history_regroup]
          rfl
      rw [hview]
      exact .keep
  | read i arrived =>
    cases hg : s.groups (cs i).key with
    | none =>
      obtain rfl : s = s' := by simpa [step, hg] using h
      exact .keep
    | some g =>
      simp only [step, hg] at h
      obtain rfl := Option.some.inj h
      by_cases hk : (cs i).key = key
      · have hgroup : s.group key = g := by simp [State.group, ← hk, hg]
        subst hk
        subst hgroup
        rw [view_self]
        · exact .read rfl rfl
        · exact if_pos rfl
      · rw [view_other hk]
        · exact .keep
        · exact if_neg hk
  | ack i id reached =>
    cases hg : s.groups (cs i).key with
    | none =>
      obtain rfl : s = s' := by simpa [step, hg] using h
      exact .keep
    | some g =>
      cases reached with
      | false =>
        obtain rfl : s = s' := by simpa [step, hg] using h
        exact .keep
      | true =>
        obtain rfl : _ = s' := by simpa [step, hg] using h
        by_cases hk : (cs i).key = key
        · have hgroup : s.group key = g := by simp [State.group, ← hk, hg]
          subst hk
          subst hgroup
          rw [view_self]
          · exact .settle rfl
          · exact if_pos rfl
        · rw [view_other hk]
          · exact .keep
          · exact if_neg hk
  | claimStale i idleMs arrived =>
    cases hg : s.groups (cs i).key with
    | none =>
      obtain rfl : s = s' := by simpa [step, hg] using h
      exact .keep
    | some g =>
      simp only [step, hg] at h
      obtain rfl := Option.some.inj h
      by_cases hk : (cs i).key = key
      · have hgroup : s.group key = g := by simp [State.group, ← hk, hg]
        subst hk
        subst hgroup
        rw [view_self]
        · exact .claim rfl rfl
        · exact if_pos rfl
      · rw [view_other hk]
        · exact .keep
        · exact if_neg hk

/-- A view whose parts agree. -/
def View.Sound (v : View) : Prop := Account v.stream v.group v.history

lemma Change.sound {now : ℕ} {v v' : View} {a : Action ι} (h : Change env cs key now v a v')
    (hv : v.Sound) : v'.Sound := by
  cases h with
  | keep => exact hv
  | add => exact Account.add hv _
  | read _ hl =>
    subst hl
    exact Account.read hv _ _ _
  | settle => exact Account.settle hv _
  | claim _ hr =>
    subst hr
    exact Account.reclaim hv _ _ _ _ _

lemma sound_of_reachable (h : (machine env cs).Reachable s) (key : PyStr × PyStr) :
    (s.view cs key).Sound := by
  refine h.invariant (I := fun s => (s.view cs key).Sound) ?_ ?_
  · rintro s rfl
    exact Account.empty _
  · intro s a s' hs hstep
    exact (change_of_step hstep key).sound hs

/-- A server that counts as stale what has been idle for the minimum idle time. -/
def sampleEnv : Env := ⟨fun n => toString n ++ "-0", fun idle least => least ≤ idle⟩

/-- Two consumers of one group, for a dozen entries at a time and for one. -/
def sampleConsumers (i : Bool) : StreamConsumer where
  stream := text "s"
  group := text "g"
  consumer := if i then text "b" else text "a"
  count := if i then 1 else 12
  count_pos := by cases i <;> decide
  decoding := false

/-- The first consumer reads an entry whose name is not UTF-8. -/
def sampleRun : List (Action Bool) :=
  [.ensureGroup false true, .xadd (text "s") [([255], [1])], .read false true, .tick 5]

lemma exists_sample : ∃ s, (machine sampleEnv sampleConsumers).Reachable s ∧
    (s.streams (text "s")).entries = [⟨1, [([255], [1])]⟩] ∧
    s.groups (text "s", text "g") = some ⟨1, [⟨1, text "a", 0⟩]⟩ ∧ s.now = 5 := by
  have hrun : ∃ s, (machine sampleEnv sampleConsumers).run State.initial sampleRun = some s ∧
      (s.streams (text "s")).entries = [⟨1, [([255], [1])]⟩] ∧
      s.groups (text "s", text "g") = some ⟨1, [⟨1, text "a", 0⟩]⟩ ∧ s.now = 5 :=
    ⟨_, rfl, rfl, rfl, rfl⟩
  obtain ⟨s, hrun, hs⟩ := hrun
  exact ⟨s, (Machine.Reachable.init rfl).run hrun, hs⟩

/-! ## Reads -/

/-- What the reads of a group have handed out is the beginning of its stream. -/
lemma entries_eq (hA : (s.view cs key).Sound) : (s.streams key.1).entries =
    readOut (s.history cs key) ++
      (s.streams key.1).entries.filter fun x => (s.group key).last < x.id := by
  have hA : Account (s.streams key.1) (s.group key) (s.history cs key) := hA
  have hall : ∀ x ∈ (s.streams key.1).entries, x.id ≤ (s.streams key.1).top :=
    fun x hx => ((s.streams key.1).bound x hx).2
  have hsplit := filter_le_append (s.streams key.1).sorted hA.last_le
  have hrest : (((s.streams key.1).entries.filter fun x => (s.group key).last < x.id).filter
      fun x => x.id ≤ (s.streams key.1).top) =
        (s.streams key.1).entries.filter fun x => (s.group key).last < x.id :=
    List.filter_eq_self.mpr fun x hx => by simpa using hall x (List.mem_filter.mp hx).1
  rw [List.filter_eq_self.mpr fun x hx => by simpa using hall x hx, hrest, ← hA.reads] at hsplit
  exact hsplit

/-- **The reads of a group hand out its stream in turn**: without a gap and without a repetition,
whichever of its consumers make them, and from the first entry on even if the group was created
later.  The next read, by whichever consumer, hands out the next `count` entries. -/
theorem reads_in_turn (h : (machine env cs).Reachable s) (key : PyStr × PyStr) :
    readOut (s.history cs key) =
        (s.streams key.1).entries.take (readOut (s.history cs key)).length ∧
      (readOut (s.history cs key)).Pairwise (fun x y => x.id < y.id) ∧
      ∀ i arrived s', (cs i).key = key → (s.groups key).isSome →
        step env cs s (.read i arrived) = some s' →
        readOut (s'.history cs key) = (s.streams key.1).entries.take
          ((readOut (s.history cs key)).length + (cs i).count) := by
  have hA : Account (s.streams key.1) (s.group key) (s.history cs key) := sound_of_reachable h key
  have hentries := entries_eq (sound_of_reachable h key)
  refine ⟨?_, ?_, ?_⟩
  · conv_rhs => rw [hentries]
    rw [List.take_left]
  · rw [hA.reads]
    exact (s.streams key.1).sorted.filter _
  · rintro i arrived s' rfl hg hs
    obtain ⟨g, hg⟩ := Option.isSome_iff_exists.mp hg
    simp only [step, hg] at hs
    obtain rfl := Option.some.inj hs
    have hgroup : s.group (cs i).key = g := by simp [State.group, hg]
    have hdeed : ∀ now l o, Obs.deed cs (cs i).key (.read i now l o) =
        some (.lent true (cs i).consumer now l) := fun _ _ _ => if_pos rfl
    rw [history_note, history_regroup, hdeed, Option.toList_some, readOut_concat, Deed.fresh,
      ← hgroup]
    conv_rhs => rw [hentries, List.take_length_add_append]
    rfl

/-- A dozen entries in a stream. -/
def sampleCrowd : List (Action Bool) :=
  .ensureGroup false true :: List.replicate 12 (.xadd (text "s") [([107], [1])])

theorem reads_in_turn_sample : ∃ s s' : State Bool,
    (machine sampleEnv sampleConsumers).Reachable s ∧
    (s.streams (text "s")).entries.length = 12 ∧
    (readOut (s.history sampleConsumers (text "s", text "g"))).length = 1 ∧
    step sampleEnv sampleConsumers s (.read false true) = some s' ∧
    readOut (s'.history sampleConsumers (text "s", text "g")) =
      (s.streams (text "s")).entries := by
  obtain ⟨s, hrun, hlen, hgroup, hread⟩ : ∃ s, (machine sampleEnv sampleConsumers).run
      State.initial (sampleCrowd ++ [.read true true]) = some s ∧
      (s.streams (text "s")).entries.length = 12 ∧
      (s.groups (text "s", text "g")).isSome ∧
      (readOut (s.history sampleConsumers (text "s", text "g"))).length = 1 :=
    ⟨_, rfl, rfl, rfl, rfl⟩
  have hs := (Machine.Reachable.init rfl).run hrun
  obtain ⟨s', hstep⟩ :
      ∃ s', step sampleEnv sampleConsumers s (.read false true) = some s' := by
    obtain ⟨g, hg⟩ := Option.isSome_iff_exists.mp hgroup
    have hkey : (sampleConsumers false).key = (text "s", text "g") := rfl
    simp [step, hkey, hg]
  have hnext := (reads_in_turn hs (text "s", text "g")).2.2 false true s' rfl hgroup hstep
  refine ⟨s, s', hs, hlen, hread, hstep, hnext.trans (List.take_of_length_le ?_)⟩
  rw [hlen, hread]
  decide

/-! ## Entries -/

/-- **Every entry of the stream has one of three standings in a group**: no consumer was handed it
yet, and a read is to come that hands it out; it is pending, at the consumer to whom it was handed
last; or it was acknowledged after it had been handed out, and then nobody is handed it again. -/
theorem entry_standing (h : (machine env cs).Reachable s) (key : PyStr × PyStr) {x : Entry Raw}
    (hx : x ∈ (s.streams key.1).entries) :
    ((s.group key).last < x.id ∧ x.id ∉ lentIds (s.history cs key)) ∨
      (∃ y ∈ (s.group key).loans, y.id = x.id ∧ ¬ Settled (s.history cs key) x.id ∧
        lastHand (s.history cs key) x.id = some (y.holder, y.since)) ∨
      (Settled (s.history cs key) x.id ∧ x.id ∉ (s.group key).loans.map Loan.id ∧
        ∀ h₁ h₂, s.history cs key = h₁ ++ .settled x.id :: h₂ → x.id ∈ lentIds h₁ →
          x.id ∉ lentIds h₂) := by
  have hA : Account (s.streams key.1) (s.group key) (s.history cs key) := sound_of_reachable h key
  by_cases hlent : x.id ∈ lentIds (s.history cs key)
  · right
    by_cases hs : Settled (s.history cs key) x.id
    · exact .inr ⟨hs, fun hmem => ((hA.pending _).mp hmem).2 hs, fun h₁ h₂ => hA.closed h₁ _ h₂⟩
    · obtain ⟨y, hy, hid⟩ := List.mem_map.mp ((hA.pending _).mpr ⟨hlent, hs⟩)
      have hhand := hA.hands y hy
      rw [hid] at hhand
      exact .inl ⟨y, hy, hid, hs, hhand⟩
  · refine .inl ⟨?_, hlent⟩
    by_contra hle
    exact hlent (hA.mem_lentIds.mpr ⟨x, hx, rfl, not_lt.mp hle⟩)

theorem entry_standing_sample : ∃ s, (machine sampleEnv sampleConsumers).Reachable s ∧
    ∃ y ∈ (s.group (text "s", text "g")).loans, y.id = 1 ∧
      ¬ Settled (s.history sampleConsumers (text "s", text "g")) 1 := by
  obtain ⟨s, hs, hentries, hgroup, -⟩ := exists_sample
  have hg : s.group (text "s", text "g") = ⟨1, [⟨1, text "a", 0⟩]⟩ := by simp [State.group, hgroup]
  have hx : (⟨1, [([255], [1])]⟩ : Entry Raw) ∈ (s.streams (text "s", text "g").1).entries := by
    simp [hentries]
  rcases entry_standing hs _ hx with h | ⟨y, hy, hid, hnot, -⟩ | h
  · simp [hg] at h
  · exact ⟨s, hs, y, hy, hid, hnot⟩
  · simp [hg] at h

end Omkit.Valkeystream
