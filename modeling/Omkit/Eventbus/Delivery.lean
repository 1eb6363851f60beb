import Omkit.Eventbus.Redis

/-!
# What the Redis subscription delivers

An entry is handed out to a consumer group once.  Whatever a subscriber does not handle while it
has the entry, because an entry before it stops the loop or because the handler raises, nobody
handles later.
-/

namespace Omkit.Eventbus.Redis

open Lib

variable {F ι : Type}

/-! ## The invariant of the subscribers -/

/-- The group and the id of the entry of a handler call. -/
def Obs.offer (bus : ι → Subscriber) : Obs ι F → Option ((PyStr × PyStr) × ℕ)
  | .read _ _ => none
  | .handled i x _ _ => some ((bus i).key, x.id)

/-- What the handlers were called on so far. -/
def State.offers (bus : ι → Subscriber) (s : State ι F) : List ((PyStr × PyStr) × ℕ) :=
  s.log.filterMap (Obs.offer bus)

/-- The invariant of the bus: what a subscriber has still to process was handed out to it alone,
and was not processed before. -/
structure Inv (bus : ι → Subscriber) (s : State ι F) : Prop where
  sorted : ∀ i, (s.todo i).Pairwise fun x y => x.id < y.id
  source : ∀ i, ∀ x ∈ s.todo i, ∃ l, .read i l ∈ s.log ∧ x ∈ l
  todo_le : ∀ i, ∀ x ∈ s.todo i, x.id ≤ s.server.last (bus i).key
  todo_new : ∀ i, ∀ x ∈ s.todo i, ((bus i).key, x.id) ∉ s.offers bus
  disjoint : ∀ i j, i ≠ j → (bus i).key = (bus j).key →
    ∀ x ∈ s.todo i, ∀ y ∈ s.todo j, x.id ≠ y.id
  offers_le : ∀ p ∈ s.offers bus, p.2 ≤ s.server.last p.1
  offers_nodup : (s.offers bus).Nodup

variable {bus : ι → Subscriber} {s s' : State ι F}

lemma Inv.initial : Inv bus (State.initial : State ι F) where
  sorted i := by simp [State.initial, State.todo, Phase.todo]
  source i := by simp [State.initial, State.todo, Phase.todo]
  todo_le i := by simp [State.initial, State.todo, Phase.todo]
  todo_new i := by simp [State.initial, State.todo, Phase.todo]
  disjoint i j := by simp [State.initial, State.todo, Phase.todo]
  offers_le := by simp [State.initial, State.offers]
  offers_nodup := by simp [State.initial, State.offers]

/-- A step that handles nothing, and after which subscribers have no more to process than
before. -/
lemma Inv.mono (hI : Inv bus s) (hlog : s'.log = s.log)
    (htodo : ∀ i, (s'.todo i).Sublist (s.todo i))
    (hlast : ∀ k, s.server.last k ≤ s'.server.last k) : Inv bus s' := by
  have hoff : s'.offers bus = s.offers bus := by simp only [State.offers, hlog]
  refine ⟨fun i => (hI.sorted i).sublist (htodo i), fun i x hx => ?_, fun i x hx => ?_,
    fun i x hx => ?_, fun i j hij hk x hx y hy => ?_, fun p hp => ?_, ?_⟩
  · rw [hlog]
    exact hI.source i x ((htodo i).subset hx)
  · exact (hI.todo_le i x ((htodo i).subset hx)).trans (hlast _)
  · rw [hoff]
    exact hI.todo_new i x ((htodo i).subset hx)
  · exact hI.disjoint i j hij hk x ((htodo i).subset hx) y ((htodo j).subset hy)
  · rw [hoff] at hp
    exact (hI.offers_le p hp).trans (hlast _)
  · rw [hoff]
    exact hI.offers_nodup

lemma todo_eq {i : ι} {p : Phase} (h : s.phase i = p) : s.todo i = p.todo := by
  rw [State.todo, h]

variable [DecidableEq ι]

/-- A subscriber that goes to a phase with nothing to process, or with less than before. -/
lemma todo_goto_sublist {i : ι} {p : Phase} (h : p.todo.Sublist (s.todo i)) (j : ι) :
    ((s.goto i p).todo j).Sublist (s.todo j) := by
  by_cases hj : j = i
  · subst hj
    simpa using h
  · rw [goto_todo_ne s p hj]

/-- The invariant after a read. -/
lemma Inv.read (hI : Inv bus s) {i : ι} {l : List (Entry Fields)} {server : Server PyStr Fields}
    (h : s.phase i = .reading)
    (hr : s.server.xreadgroup (bus i).key (bus i).consumer count = some (l, server)) :
    Inv bus (((s.serve server).note (.read i l)).goto i (.running l)) := by
  obtain ⟨hsorted, hnew, hlast⟩ := Server.xreadgroup_eq_some hr
  set t := ((s.serve server).note (.read i l)).goto i (.running l) with ht
  have hoff : t.offers bus = s.offers bus := by
    simp [ht, State.offers, List.filterMap_append, Obs.offer]
  have hself : t.todo i = l := by simp [ht, Phase.todo]
  have hother : ∀ j, j ≠ i → t.todo j = s.todo j := fun j hj => by
    rw [ht, goto_todo_ne _ _ hj, note_todo, serve_todo]
  have hle : ∀ p ∈ s.offers bus, p.2 ≤ s.server.last p.1 := hI.offers_le
  -- what others have to process was handed out before, so it is not in `l`
  have hdisj : ∀ j, j ≠ i → (bus j).key = (bus i).key → ∀ x ∈ l, ∀ y ∈ s.todo j, y.id < x.id := by
    intro j _ hk x hx y hy
    have h₁ := (hnew x hx).1
    have h₂ := hI.todo_le j y hy
    rw [hk] at h₂
    omega
  refine ⟨fun j => ?_, fun j x hx => ?_, fun j x hx => ?_, fun j x hx => ?_,
    fun j k hjk hkey x hx y hy => ?_, fun p hp => ?_, ?_⟩
  · by_cases hj : j = i
    · subst hj
      rwa [hself]
    · rw [hother j hj]
      exact hI.sorted j
  · by_cases hj : j = i
    · subst hj
      exact ⟨l, by simp [ht], hself ▸ hx⟩
    · rw [hother j hj] at hx
      obtain ⟨m, hm, hxm⟩ := hI.source j x hx
      exact ⟨m, by simp [ht, hm], hxm⟩
  · by_cases hj : j = i
    · subst hj
      exact (hnew x (hself ▸ hx)).2
    · rw [hother j hj] at hx
      exact (hI.todo_le j x hx).trans (hlast _)
  · rw [hoff]
    by_cases hj : j = i
    · subst hj
      intro hmem
      have h₁ := (hnew x (hself ▸ hx)).1
      have h₂ := hle _ hmem
      simp only at h₂
      omega
    · rw [hother j hj] at hx
      exact hI.todo_new j x hx
  · by_cases hj : j = i
    · subst hj
      rw [hother k (Ne.symm hjk)] at hy
      have := hdisj k (Ne.symm hjk) hkey.symm x (hself ▸ hx) y hy
      omega
    · rw [hother j hj] at hx
      by_cases hk : k = i
      · subst hk
        have := hdisj j hj hkey y (hself ▸ hy) x hx
        omega
      · rw [hother k hk] at hy
        exact hI.disjoint j k hjk hkey x hx y hy
  · rw [hoff] at hp
    exact (hle p hp).trans (hlast _)
  · rw [hoff]
    exact hI.offers_nodup

/-- The invariant after a handler call. -/
lemma Inv.handled (hI : Inv bus s) {i : ι} {x : Entry Fields} {todo : List (Entry Fields)}
    {e : Event F} {completed : Bool} {server : Server PyStr Fields}
    (h : s.phase i = .running (x :: todo))
    (hlast : ∀ k, server.last k = s.server.last k) :
    Inv bus (((s.serve server).note (.handled i x e completed)).goto i (.running todo)) := by
  have hold : s.todo i = x :: todo := todo_eq h
  set t := ((s.serve server).note (.handled i x e completed)).goto i (.running todo) with ht
  have hoff : t.offers bus = s.offers bus ++ [((bus i).key, x.id)] := by
    simp [ht, State.offers, List.filterMap_append, Obs.offer]
  have hsub : ∀ j, (t.todo j).Sublist (s.todo j) := by
    refine fun j => todo_goto_sublist (s := (s.serve server).note (.handled i x e completed)) ?_ j
    show todo.Sublist (s.todo i)
    rw [hold]
    exact List.sublist_cons_self _ _
  have hxmem : x ∈ s.todo i := by simp [hold]
  refine ⟨fun j => (hI.sorted j).sublist (hsub j), fun j y hy => ?_, fun j y hy => ?_,
    fun j y hy => ?_, fun j k hjk hkey y hy z hz => ?_, fun p hp => ?_, ?_⟩
  · obtain ⟨m, hm, hym⟩ := hI.source j y ((hsub j).subset hy)
    exact ⟨m, by simp [ht, hm], hym⟩
  · show y.id ≤ server.last (bus j).key
    rw [hlast]
    exact hI.todo_le j y ((hsub j).subset hy)
  · rw [hoff, List.mem_append, List.mem_singleton, not_or]
    refine ⟨hI.todo_new j y ((hsub j).subset hy), ?_⟩
    intro heq
    obtain ⟨hkey, hid⟩ := Prod.mk.inj heq
    by_cases hj : j = i
    · -- behind `x` in its own batch
      subst hj
      have hy' : y ∈ todo := by simpa [ht, Phase.todo] using hy
      have hlt := (List.pairwise_cons.mp (hold ▸ hI.sorted j)).1 y hy'
      omega
    · exact hI.disjoint j i hj hkey y ((hsub j).subset hy) x hxmem hid
  · exact hI.disjoint j k hjk hkey y ((hsub j).subset hy) z ((hsub k).subset hz)
  · show p.2 ≤ server.last p.1
    rw [hlast]
    rw [hoff, List.mem_append, List.mem_singleton] at hp
    rcases hp with hp | rfl
    · exact hI.offers_le p hp
    · exact hI.todo_le i x hxmem
  · rw [hoff, List.nodup_append]
    refine ⟨hI.offers_nodup, List.nodup_singleton _, ?_⟩
    intro p hp q hq hpq
    obtain rfl := List.mem_singleton.mp hq
    exact hI.todo_new i x hxmem (hpq ▸ hp)

variable [JsonRuntime F]

/-- **Every step of the bus keeps its invariant.** -/
theorem Inv.move {a : Action ι} (hI : Inv bus s) (h : Move bus s a s') : Inv bus s' := by
  cases h with
  | xadd => exact hI.mono rfl (fun _ => List.Sublist.refl _) fun _ => by simp
  | subscribe _ hs =>
    refine hI.mono rfl (todo_goto_sublist (List.nil_sublist _)) fun k => ?_
    subst hs
    show s.server.last k ≤ Server.last (ite _ _ _) k
    split_ifs <;> simp
  | leave => exact hI.mono rfl (todo_goto_sublist (List.nil_sublist _)) fun _ => Nat.le_refl _
  | enter => exact hI.mono rfl (todo_goto_sublist (List.nil_sublist _)) fun _ => Nat.le_refl _
  | read hp hr => exact hI.read hp hr
  | lost hp hr =>
    exact hI.mono rfl (todo_goto_sublist (List.nil_sublist _)) (Server.xreadgroup_eq_some hr).2.2
  | failed => exact hI.mono rfl (todo_goto_sublist (List.nil_sublist _)) fun _ => Nat.le_refl _
  | poison => exact hI.mono rfl (todo_goto_sublist (List.nil_sublist _)) fun _ => Nat.le_refl _
  | handled hp he hs =>
    refine hI.handled hp fun k => ?_
    subst hs
    split_ifs <;> simp
  | close => exact hI.mono rfl (fun _ => List.Sublist.refl _) fun _ => Nat.le_refl _

lemma inv_of_reachable (h : (machine bus).Reachable s) : Inv bus s := by
  refine h.invariant ?_ fun s a t hI hs => hI.move (move_of_step hs)
  rintro s rfl
  exact Inv.initial

/-! ## Entries that cannot be read -/

section Poison

/-- The handler of `i` was called on the entry. -/
def Given (log : List (Obs ι F)) (i : ι) (x : Entry Fields) : Prop :=
  ∃ e completed, .handled i x e completed ∈ log

/-- `subscribe` does not raise before `close`, and each well-formed entry that a read has returned
is given to the handler or is still to be processed. -/
structure Undisturbed (s : State ι F) (i : ι) : Prop where
  running : s.closed i = false → ∀ e, s.phase i ≠ .raised e
  given : ∀ l, .read i l ∈ s.log → ∀ x ∈ l, WellFormed F x.fields →
    Given s.log i x ∨ x ∈ s.todo i

/-- The step does not take up an entry that cannot be read; after `close` it may, if no entry behind
it in its batch can be read either. -/
def Readable (s : State ι F) : Action ι → Prop
  | .handle i _ _ _ => ∀ x todo, s.phase i = .running (x :: todo) →
      WellFormed F x.fields ∨ (s.closed i = true ∧ ∀ y ∈ todo, ¬ WellFormed F y.fields)
  | _ => True

omit [DecidableEq ι] [JsonRuntime F] in
lemma Given.mono {log log' : List (Obs ι F)} {i : ι} {x : Entry Fields} (hl : log ⊆ log')
    (h : Given log i x) : Given log' i x := by
  obtain ⟨e, c, hm⟩ := h
  exact ⟨e, c, hl hm⟩

omit [DecidableEq ι] [JsonRuntime F] in
lemma Given.offered {i : ι} {x : Entry Fields} (h : Given s.log i x) :
    ((bus i).key, x.id) ∈ s.offers bus := by
  obtain ⟨e, c, hm⟩ := h
  exact List.mem_filterMap.mpr ⟨_, hm, rfl⟩

lemma wellFormed_of_eventOf {topic : PyStr} {now : ℤ} {m : Fields} {e : Event F}
    (h : eventOf topic now m = .ok e) : WellFormed F m := by
  cases hd : decodeFields (F := F) m with
  | ok v => exact ⟨v, hd⟩
  | error err => simp [eventOf, hd, Except.map] at h

lemma not_wellFormed_of_eventOf {topic : PyStr} {now : ℤ} {m : Fields} {err : StdExc}
    (h : eventOf (F := F) topic now m = .error err) : ¬ WellFormed F m := by
  rintro ⟨v, hv⟩
  simp [eventOf, hv, Except.map] at h

omit [DecidableEq ι] in
/-- A step that returns no entries, stops nobody, and loses nothing to be processed. -/
lemma Undisturbed.keep {t : State ι F} {i : ι} (h : Undisturbed s i)
    (hread : ∀ l, .read i l ∈ t.log → .read i l ∈ s.log) (hlog : s.log ⊆ t.log)
    (htodo : ∀ x ∈ s.todo i, Given t.log i x ∨ x ∈ t.todo i)
    (hrun : t.closed i = false → s.closed i = false ∧
      ∀ e, t.phase i = .raised e → s.phase i = .raised e) : Undisturbed t i where
  running hc e he := h.running (hrun hc).1 e ((hrun hc).2 e he)
  given l hl x hx hwf := by
    rcases h.given l (hread l hl) x hx hwf with hg | hx
    · exact Or.inl (hg.mono hlog)
    · exact htodo x hx

/-- A subscriber that moves between two phases in which it has nothing to process. -/
lemma Undisturbed.goto (h : ∀ j, Undisturbed s j) (server : Server PyStr Fields) {i : ι}
    {p : Phase} (hi : s.todo i = []) (hp : ∀ e, p ≠ .raised e) (j : ι) :
    Undisturbed ((s.serve server).goto i p) j := by
  refine (h j).keep (fun l hl => hl) (List.Subset.refl _) (fun x hx => Or.inr ?_)
    fun hc => ⟨hc, fun e he => ?_⟩
  · by_cases hj : j = i
    · subst hj
      rw [hi] at hx
      simp at hx
    · rwa [goto_todo_ne _ _ hj]
  · by_cases hj : j = i
    · subst hj
      exact absurd (by simpa using he) (hp e)
    · rwa [goto_phase_ne _ _ hj] at he

/-- Returned entries are still to be processed. -/
lemma Undisturbed.read (h : ∀ j, Undisturbed s j) {server : Server PyStr Fields} {i : ι}
    {l : List (Entry Fields)} (hi : s.todo i = []) (j : ι) :
    Undisturbed (((s.serve server).note (.read i l)).goto i (.running l)) j where
  running hc e he := by
    by_cases hj : j = i
    · subst hj
      simp at he
    · exact (h j).running hc e (by simpa [goto_phase_ne _ _ hj] using he)
  given m hm x hx hwf := by
    have hm' : .read j m ∈ s.log ∨ j = i ∧ m = l := by simpa using hm
    by_cases hj : j = i
    · subst hj
      rcases hm' with hm' | ⟨-, rfl⟩
      · -- what an earlier read returned is processed
        rcases (h j).given m hm' x hx hwf with hg | hx
        · exact Or.inl (hg.mono (List.subset_append_left _ _))
        · rw [hi] at hx
          simp at hx
      · exact Or.inr (by simpa [Phase.todo] using hx)
    · rcases hm' with hm' | ⟨rfl, -⟩
      · rcases (h j).given m hm' x hx hwf with hg | hx
        · exact Or.inl (hg.mono (List.subset_append_left _ _))
        · exact Or.inr (by rwa [goto_todo_ne _ _ hj])
      · exact absurd rfl hj

/-- A handler call takes one entry off the batch. -/
lemma Undisturbed.handled (h : ∀ j, Undisturbed s j) {server : Server PyStr Fields} {i : ι}
    {x : Entry Fields} {todo : List (Entry Fields)} {e : Event F} {completed : Bool}
    (hi : s.todo i = x :: todo) (j : ι) :
    Undisturbed (((s.serve server).note (.handled i x e completed)).goto i (.running todo)) j := by
  refine (h j).keep (fun l hl => ?_) (List.subset_append_left _ _) (fun y hy => ?_)
    fun hc => ⟨hc, fun err he => ?_⟩
  · simpa using hl
  · by_cases hj : j = i
    · subst hj
      rw [hi, List.mem_cons] at hy
      rcases hy with rfl | hy
      · exact Or.inl ⟨e, completed, by simp⟩
      · exact Or.inr (by simpa [Phase.todo] using hy)
    · exact Or.inr (by rwa [goto_todo_ne _ _ hj])
  · by_cases hj : j = i
    · subst hj
      simp at he
    · simpa [goto_phase_ne _ _ hj] using he

/-- An entry that cannot be read disturbs the subscription, unless it is closed and nothing behind
the entry can be read. -/
lemma undisturbed_poison (hI : Inv bus s) (h : ∀ j, Undisturbed s j) {i : ι} {x : Entry Fields}
    {todo : List (Entry Fields)} {e : StdExc} (hp : s.phase i = .running (x :: todo))
    (hx : ¬ WellFormed F x.fields) :
    (∀ j, Undisturbed (s.goto i (.raised e)) j) ↔
      s.closed i = true ∧ ∀ y ∈ todo, ¬ WellFormed F y.fields := by
  have htodo : s.todo i = x :: todo := todo_eq hp
  constructor
  · intro h'
    have hclosed : s.closed i = true := by
      by_contra hc
      exact (h' i).running (by simpa using hc) e (by simp)
    refine ⟨hclosed, fun y hy hwf => ?_⟩
    have hmem : y ∈ s.todo i := by simp [htodo, hy]
    obtain ⟨l, hl, hyl⟩ := hI.source i y hmem
    rcases (h' i).given l hl y hyl hwf with hg | hlost
    · exact hI.todo_new i y hmem (Given.offered hg)
    · simp [Phase.todo] at hlost
  · rintro ⟨hc, hall⟩ j
    by_cases hj : j = i
    · subst hj
      refine ⟨fun hopen => absurd hc (by simpa using hopen), fun l hl y hy hwf => ?_⟩
      rcases (h j).given l hl y hy hwf with hg | hy
      · exact Or.inl hg
      · rw [htodo, List.mem_cons] at hy
        rcases hy with rfl | hy
        · exact absurd hwf hx
        · exact absurd hwf (hall y hy)
    · refine (h j).keep (fun l hl => hl) (List.Subset.refl _) (fun y hy => Or.inr ?_)
        fun hopen => ⟨hopen, fun err he => ?_⟩
      · rwa [goto_todo_ne _ _ hj]
      · rwa [goto_phase_ne _ _ hj] at he

/-- One step leaves the subscriptions undisturbed exactly if it can read what it takes up. -/
lemma undisturbed_move {a : Action ι} (hI : Inv bus s) (h : ∀ j, Undisturbed s j)
    (hm : Move bus s a s') : (∀ j, Undisturbed s' j) ↔ Readable s a := by
  have quiet : ∀ {t : State ι F} {a : Action ι}, (∀ j, Undisturbed t j) → Readable s a →
      ((∀ j, Undisturbed t j) ↔ Readable s a) := fun ht ha => iff_of_true ht ha
  cases hm with
  | xadd => exact quiet (fun j => ⟨(h j).running, (h j).given⟩) trivial
  | subscribe hp => exact quiet (Undisturbed.goto h _ (todo_eq hp) (by simp)) trivial
  | leave hp => exact quiet (Undisturbed.goto h s.server (todo_eq hp) (by simp)) trivial
  | enter hp => exact quiet (Undisturbed.goto h s.server (todo_eq hp) (by simp)) trivial
  | read hp hr => exact quiet (Undisturbed.read h (todo_eq hp)) trivial
  | lost hp hr => exact quiet (Undisturbed.goto h _ (todo_eq hp) (by simp)) trivial
  | failed hp => exact quiet (Undisturbed.goto h s.server (todo_eq hp) (by simp)) trivial
  | @poison i now completed acked x todo e hp he =>
    have hx := not_wellFormed_of_eventOf he
    rw [undisturbed_poison hI h hp hx]
    constructor
    · intro hc y rest hy
      obtain ⟨rfl, rfl⟩ := List.cons.inj (Phase.running.inj (hp.symm.trans hy))
      exact Or.inr hc
    · exact fun hg => (hg x todo hp).resolve_left hx
  | @handled i now completed acked x todo e server hp he hs =>
    refine quiet (Undisturbed.handled h (todo_eq hp)) fun y rest hy => Or.inl ?_
    obtain ⟨rfl, rfl⟩ := List.cons.inj (Phase.running.inj (hp.symm.trans hy))
    exact wellFormed_of_eventOf he
  | @close i =>
    refine quiet (fun j => ⟨fun hc => (h j).running ?_, (h j).given⟩) trivial
    by_contra hopen
    have hclosed : Function.update s.closed i true j = true := by
      by_cases hj : j = i
      · simp [hj]
      · simpa [Function.update_of_ne hj] using hopen
    exact absurd (hc.symm.trans hclosed) (by simp)

/-- **A subscription is undisturbed exactly as long as it takes up no entry that it cannot read.**
Such an entry is harmless only after `close`, at the end of a batch. -/
theorem undisturbed_iff_readable {es : List (Action ι)} (hi : (machine bus).init s)
    (hr : (machine bus).run s es = some s') :
    (machine bus).Throughout (fun s => ∀ i, Undisturbed s i) s es ↔
      (machine bus).Along Readable s es := by
  refine Machine.throughout_iff_along ?_ ?_ hi hr
  · rintro s rfl i
    exact ⟨by simp [State.initial], by simp [State.initial]⟩
  · intro s a t hreach h hs
    exact undisturbed_move (inv_of_reachable hreach.reachable) h (move_of_step hs)

/-- A subscriber of the sample runs. -/
def sampleBus (_ : Unit) : Subscriber := ⟨text "g", text "c", text "omur:events:", text "t"⟩

/-- An entry of the sample runs, with a payload. -/
def samplePayload (s : String) : Action Unit :=
  .xadd (text "omur:events:t")
    (Dict.ofList [(.bytes (utf8 "payload".toList), .bytes (utf8 s.toList))])

/-- A read of the entries that were added before. -/
def sampleRead : List (Action Unit) := [.subscribe () true, .check (), .read ()]

/-- A batch of three entries: the first handler raises, an acknowledgement is lost, and the third
entry, which cannot be read, is taken up after `close`. -/
def sampleBatch : List (Action Unit) :=
  samplePayload "1" :: samplePayload "2" :: samplePayload "x" :: sampleRead ++
    [.handle () 0 false true, .handle () 1 true false, .close (), .handle () 2 true true]

theorem undisturbed_sample : ∃ s', (machine (F := Empty) sampleBus).run State.initial sampleBatch =
      some s' ∧
    (machine (F := Empty) sampleBus).Throughout (fun s => ∀ i, Undisturbed s i) State.initial
      sampleBatch := by
  refine ⟨_, rfl, (undisturbed_iff_readable rfl rfl).mpr ?_⟩
  refine ⟨trivial, fun _ h₁ => ⟨trivial, fun _ h₂ => ⟨trivial, fun _ h₃ => ⟨trivial, fun _ h₄ =>
    ⟨trivial, fun _ h₅ => ⟨trivial, fun _ h₆ => ⟨fun x todo hp => ?_, fun _ h₇ =>
      ⟨fun x todo hp => ?_, fun _ h₈ => ⟨trivial, fun _ h₉ => ⟨fun x todo hp => ?_,
        fun _ _ => trivial⟩⟩⟩⟩⟩⟩⟩⟩⟩⟩
  all_goals
    obtain rfl := Option.some.inj h₁
    obtain rfl := Option.some.inj h₂
    obtain rfl := Option.some.inj h₃
    obtain rfl := Option.some.inj h₄
    obtain rfl := Option.some.inj h₅
    obtain rfl := Option.some.inj h₆
  · obtain ⟨rfl, rfl⟩ := List.cons.inj (Phase.running.inj hp)
    exact Or.inl ⟨_, rfl⟩
  · obtain rfl := Option.some.inj h₇
    obtain ⟨rfl, rfl⟩ := List.cons.inj (Phase.running.inj hp)
    exact Or.inl ⟨_, rfl⟩
  · obtain rfl := Option.some.inj h₇
    obtain rfl := Option.some.inj h₈
    obtain rfl := Option.some.inj h₉
    obtain ⟨rfl, rfl⟩ := List.cons.inj (Phase.running.inj hp)
    exact Or.inr ⟨rfl, by simp⟩

/-- An entry without a payload that is JSON stops the subscription, and the next entry of the batch
is lost. -/
theorem poison_stops_subscription : ¬ ∀ (es : List (Action Unit)) (s' : State Unit Empty),
    (machine (F := Empty) sampleBus).run State.initial es = some s' →
      (machine (F := Empty) sampleBus).Throughout (fun s => ∀ i, Undisturbed s i)
        State.initial es := by
  intro h
  have h' := h (samplePayload "x" :: samplePayload "1" :: sampleRead ++ [.handle () 0 true true])
    _ rfl
  have hlast := (h'.2 _ rfl).2 _ rfl |>.2 _ rfl |>.2 _ rfl |>.2 _ rfl |>.2 _ rfl
  exact (hlast ()).running rfl .jsonDecodeError rfl

end Poison

end Omkit.Eventbus.Redis
