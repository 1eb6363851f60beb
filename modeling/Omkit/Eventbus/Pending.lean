import Omkit.Eventbus.Delivery

/-!
# Entries whose handler raised

An entry whose handler raised stays pending in its group.  Every read of `subscribe` asks for new
entries only, so neither the loop that has failed on it nor one that is started again under the
same names takes it up again.
-/

namespace Omkit.Eventbus.Redis

open Lib

variable {F ι : Type}

/-- Two calls of `subscribe` under the same names: the one may be a restart of the other. -/
def SameNames (bus : ι → Subscriber) (i j : ι) : Prop :=
  (bus i).key = (bus j).key ∧ (bus i).consumer = (bus j).consumer

/-- A read under the names of `i` that returned fewer entries than it asked for, all of which were
given to the handler. -/
def CompletedShort (bus : ι → Subscriber) (s : State ι F) (i : ι) (o : Obs ι F) : Prop :=
  ∃ j l, o = .read j l ∧ SameNames bus i j ∧ l.length < count ∧ ∀ x ∈ l, Given s.log j x

/-- Among the observations there are `k` completed short reads under the names of `i`. -/
def Drained (bus : ι → Subscriber) (s : State ι F) (i : ι) (k : ℕ) (later : List (Obs ι F)) :
    Prop :=
  ∃ reads : List (Obs ι F), reads.Sublist later ∧ reads.length = k ∧
    ∀ o ∈ reads, CompletedShort bus s i o

/-- Among the observations there is a handler call on the entry, by any subscriber of the group. -/
def Again (bus : ι → Subscriber) (i : ι) (x : Entry Fields) (later : List (Obs ι F)) : Prop :=
  ∃ j y e completed, .handled j y e completed ∈ later ∧ (bus j).key = (bus i).key ∧ y.id = x.id

/-- After `k` completed short reads the entry has been given to a handler again. -/
def OfferedAgain (bus : ι → Subscriber) (s : State ι F) (i : ι) (k : ℕ) (x : Entry Fields)
    (later : List (Obs ι F)) : Prop :=
  Drained bus s i k later → Again bus i x later

variable {bus : ι → Subscriber} {s : State ι F}

/-- An entry is given to the handlers of a group at most once. -/
lemma Inv.not_again (hI : Inv bus s) {i : ι} {x : Entry Fields} {e : Event F} {completed : Bool}
    {earlier later : List (Obs ι F)}
    (hlog : s.log = earlier ++ .handled i x e completed :: later) : ¬ Again bus i x later := by
  rintro ⟨j, y, e', c, hmem, hkey, hid⟩
  have hoffers : s.offers bus = earlier.filterMap (Obs.offer bus) ++
      ((bus i).key, x.id) :: later.filterMap (Obs.offer bus) := by
    simp [State.offers, hlog, Obs.offer]
  have hnodup := hI.offers_nodup
  rw [hoffers, List.nodup_append, List.nodup_cons] at hnodup
  refine hnodup.2.1.1 (List.mem_filterMap.mpr ⟨_, hmem, ?_⟩)
  show some ((bus j).key, y.id) = some ((bus i).key, x.id)
  rw [hkey, hid]

variable [DecidableEq ι] [JsonRuntime F]

/-- **An entry whose handler raised is owed as soon as a read has come back short**, however many
further reads there are: no handler of its group ever gets it again. -/
theorem offeredAgain_iff_not_drained (h : (machine bus).Reachable s) {i : ι} {x : Entry Fields}
    {e : Event F} {earlier later : List (Obs ι F)}
    (hlog : s.log = earlier ++ .handled i x e false :: later) (k : ℕ) :
    OfferedAgain bus s i k x later ↔ ¬ Drained bus s i k later := by
  have hnot : ¬ Again bus i x later := (inv_of_reachable h).not_again hlog
  constructor
  · exact fun hagain hdrained => hnot (hagain hdrained)
  · exact fun hno hdrained => absurd hdrained hno

/-- A subscriber, and the one that replaces it under the same names. -/
def restartBus (_ : Bool) : Subscriber := sampleBus ()

/-- The handler of the first subscriber raises; the loop and its restart read on. -/
def restartRun : List (Action Bool) :=
  [.xadd (text "omur:events:t")
      (Dict.ofList [(.bytes (utf8 "payload".toList), .bytes (utf8 "1".toList))]),
    .subscribe false true, .check false, .read false, .handle false 0 false false,
    .check false, .read false, .subscribe true true, .check true, .read true]

/-- What is observed of `restartRun` after the failed call. -/
def restartLater : List (Obs Bool Empty) := [.read false [], .read true []]

lemma restartLater_drained {s : State Bool Empty} : Drained restartBus s false 2 restartLater := by
  refine ⟨restartLater, List.Sublist.refl _, rfl, fun o ho => ?_⟩
  simp only [restartLater, List.mem_cons, List.not_mem_nil, or_false] at ho
  rcases ho with rfl | rfl
  · exact ⟨false, [], rfl, ⟨rfl, rfl⟩, by simp [count], by simp⟩
  · exact ⟨true, [], rfl, ⟨rfl, rfl⟩, by simp [count], by simp⟩

lemma exists_restart : ∃ s : State Bool Empty, (machine restartBus).Reachable s ∧
    ∃ x e earlier, s.log = earlier ++ .handled false x e false :: restartLater := by
  have hinit : (machine restartBus).Reachable (State.initial : State Bool Empty) := .init rfl
  have hrun : ∃ s, (machine (F := Empty) restartBus).run State.initial restartRun = some s ∧
      ∃ x e earlier, s.log = earlier ++ .handled false x e false :: restartLater :=
    ⟨_, rfl, _, _, [_], rfl⟩
  obtain ⟨s, hrun, hlog⟩ := hrun
  exact ⟨s, hinit.run hrun, hlog⟩

theorem offeredAgain_restart : ∃ s : State Bool Empty, (machine restartBus).Reachable s ∧
    ∃ x, ¬ OfferedAgain restartBus s false 2 x restartLater := by
  obtain ⟨s, hs, x, e, earlier, hlog⟩ := exists_restart
  refine ⟨s, hs, x, ?_⟩
  rw [offeredAgain_iff_not_drained hs hlog 2, not_not]
  exact restartLater_drained

/-- Two further reads come back empty, the second after a restart, and the entry was not given to a
handler again. -/
theorem failed_entry_not_offered_again : ¬ ∀ (s : State Bool Empty),
    (machine restartBus).Reachable s → ∀ i x e earlier later,
      s.log = earlier ++ .handled i x e false :: later → OfferedAgain restartBus s i 2 x later := by
  intro h
  obtain ⟨s, hs, x, e, earlier, hlog⟩ := exists_restart
  obtain ⟨j, y, e', c, hmem, -, -⟩ := h s hs _ x e _ _ hlog restartLater_drained
  simp [restartLater] at hmem

end Omkit.Eventbus.Redis
