import Omkit.Provider.Spelling

/-!
# Dead providers

A task that has raised loses its key when its done callback runs, and the next reconcile starts a new
one.  The callback leaves the key of a task that ended cancelled: it stays in use until the registry
itself drops it.
-/

namespace Omkit.Provider

open Lib

variable {Γ : Type} {known : PyStr → Bool} {fails : Row Γ → Bool}

namespace Registry

/-- A key holds the newest task of its name, and every task is of a known class. -/
structure Newest (known : PyStr → Bool) (r : Registry Γ) : Prop where
  newest : ∀ k j, r.tasks.get? k = some j → ∀ (i : ℕ) (t : Task Γ), r.created[i]? = some t →
    t.key = k → i ≤ j
  known : ∀ (i : ℕ) (t : Task Γ), r.created[i]? = some t → known t.row.name = true

namespace Newest

variable {q r : Registry Γ}

lemma empty : Newest known (.empty : Registry Γ) where
  newest k j h := by simp [Registry.empty] at h
  known i t h := by simp [Registry.empty] at h

/-- Keys are dropped, and tasks keep their rows. -/
lemma dropped (h : Newest known q) (hlength : r.created.length = q.created.length)
    (hkeeps : q.Keeps r) (htasks : ∀ k j, r.tasks.get? k = some j → q.tasks.get? k = some j) :
    Newest known r := by
  have hback : ∀ (i : ℕ) (t : Task Γ), r.created[i]? = some t →
      ∃ t', q.created[i]? = some t' ∧ t'.row = t.row := by
    intro i t ht
    have hlt : i < q.created.length := hlength ▸ (List.getElem?_eq_some_iff.mp ht).1
    obtain ⟨u, hu, hrow⟩ := hkeeps i _ (List.getElem?_eq_getElem hlt)
    obtain rfl := Option.some.inj (ht.symm.trans hu)
    exact ⟨_, List.getElem?_eq_getElem hlt, hrow.symm⟩
  refine ⟨fun k j hj i t ht hkey => ?_, fun i t ht => ?_⟩
  · obtain ⟨t', ht', hrow⟩ := hback i t ht
    refine h.newest k j (htasks k j hj) i t' ht' ?_
    rw [← hkey, Task.key, Task.key, hrow]
  · obtain ⟨t', ht', hrow⟩ := hback i t ht
    exact hrow ▸ h.known i t' ht'

lemma later (h : Newest known q) (hl : Later q r) : Newest known r := by
  refine h.dropped hl.length (fun j t ht => ?_) fun k j hj => hl.before hj
  obtain ⟨t', ht', hlater⟩ := hl.created j t ht
  exact ⟨t', ht', hlater.row⟩

lemma cancelTasks (h : Newest known q) (keys : List PyStr) :
    Newest known (q.cancelTasks keys).1 := by
  refine h.dropped (q.cancelTasks_length keys) (q.keeps_cancelTasks keys) fun k j hj => ?_
  rw [(q.cancelTasks_spec keys).get] at hj
  split at hj
  · cases hj
  · exact hj

lemma startTask (h : Newest known q) {row : Row Γ} (hok : q.startTask known fails row = .ok r) :
    Newest known r := by
  rcases startTask_ok hok with ⟨-, rfl⟩ | ⟨hknown, -, rfl⟩
  · exact h
  have hcreated : ∀ (i : ℕ) (t : Task Γ), (q.created ++ [⟨row, false, none⟩])[i]? = some t →
      i ≤ q.created.length ∧ (q.created[i]? = some t ∨ t.row = row) := by
    intro i t ht
    rcases lt_or_ge i q.created.length with hlt | hge
    · rw [List.getElem?_append_left hlt] at ht
      exact ⟨hlt.le, Or.inl ht⟩
    · obtain ⟨hle, ht⟩ := List.getElem?_eq_some_iff.mp ht
      rw [List.length_append, List.length_singleton] at hle
      obtain rfl : i = q.created.length := by omega
      exact ⟨le_rfl, Or.inr (by simp [← ht])⟩
  refine ⟨fun k j hj i t ht hkey => ?_, fun i t ht => ?_⟩
  · dsimp only at hj
    rw [Dict.get?_set] at hj
    split at hj
    · exact Option.some.inj hj ▸ (hcreated i t ht).1
    · next hk =>
      refine h.newest k j hj i t ((hcreated i t ht).2.resolve_right fun hrow => hk ?_) hkey
      rw [← hkey, Task.key, hrow]
  · rcases (hcreated i t ht).2 with hold | hrow
    · exact h.known i t hold
    · exact hrow ▸ hknown

lemma startTasks (h : Newest known q) (rows : List (Row Γ)) :
    Newest known (q.startTasks known fails rows).1 := by
  induction rows generalizing q with
  | nil => exact h
  | cons row rows ih =>
    rw [Registry.startTasks]
    split
    · exact h
    · next hok => exact ih (h.startTask hok)

end Newest

/-- A task was created for a key after the task `id`. -/
def Restarted (r : Registry Γ) (id : ℕ) (k : PyStr) : Prop :=
  ∃ (j : ℕ) (t : Task Γ), id < j ∧ r.created[j]? = some t ∧ t.key = k

end Registry

open Registry (Newest)

theorem newest_of_reachable {s : State Γ} (h : (machine known).Reachable s) :
    Newest known s.reg :=
  reg_of_reachable .empty .later (fun keys hnew => hnew.cancelTasks keys)
    (fun _ rows hnew => hnew.startTasks rows) h

section Restart

variable {rows : List (Row Γ)} {q r : Registry Γ} {id : ℕ} {k : PyStr}

/-- The tasks that exist when a reconcile has fetched its rows. -/
lemma Reconciled.created {raised : Option Raised} (hq : Core q [])
    (h : Reconciled known fails rows q r raised) {j : ℕ} {t : Task Γ}
    (ht : q.created[j]? = some t) : ∃ t', r.created[j]? = some t' ∧ t'.row = t.row ∧
      ∀ e, t.ending = some e → t'.ending = some e := by
  obtain ⟨p, stale, fresh, -, hjoined, -, hstart⟩ := h
  have hspec := q.cancelTasks_spec stale
  have hstarted := startTasks_started known fails p
    (fresh.filterMap (Registry.desiredOf rows).get?)
  rw [hstart] at hstarted
  obtain ⟨u, hu, hrow⟩ := q.keeps_cancelTasks stale j t ht
  obtain ⟨v, hv, hlater⟩ := (hjoined.later hq).created j u hu
  refine ⟨v, hstarted.created j v hv, hlater.row.trans hrow, fun e he => hlater.ending e ?_⟩
  have hinfo := hspec.info j
  simp only [Registry.info, ht, hu, Option.map_some, Option.some.injEq, Prod.mk.injEq] at hinfo
  rw [hinfo.2, he]

/-- A reconcile keeps the newest tasks under their keys. -/
lemma Reconciled.newest {raised : Option Raised} (hq : Core q []) (hnew : Newest known q)
    (h : Reconciled known fails rows q r raised) : Newest known r := by
  obtain ⟨p, stale, fresh, -, hjoined, -, hstart⟩ := h
  have hlast : Newest known
      (p.startTasks known fails (fresh.filterMap (Registry.desiredOf rows).get?)).1 :=
    ((hnew.cancelTasks stale).later (hjoined.later hq)).startTasks _
  rwa [hstart] at hlast

/-- A key that is free when the rows are fetched gets a new task. -/
lemma Reconciled.restarted (hq : Core q []) (hnew : Newest known q)
    (h : Reconciled known fails rows q r none) {e : Ending} (hid : q.info id = some (k, some e))
    {row : Row Γ} (hrow : row ∈ rows) (hkey : row.key = k) (hfree : q.tasks.get? k = none) :
    r.Restarted id k := by
  obtain ⟨t, ht, hkt, hend⟩ := Registry.info_eq_some.mp hid
  obtain ⟨t', ht', hrow', hend'⟩ := h.created hq ht
  have hnewest := h.newest hq hnew
  obtain ⟨p, stale, fresh, -, hjoined, hfresh, hstart⟩ := h
  have hstarted := startTasks_started known fails p
    (fresh.filterMap (Registry.desiredOf rows).get?)
  rw [hstart] at hstarted
  have hknown : known row.name = true :=
    (known_of_key (hkey.trans hkt.symm)).trans (hnew.known id t ht)
  obtain ⟨row', hmissing, hkey'⟩ := exists_missing hfresh hrow
    fun hin => Dict.get?_eq_none.mp hfree (hkey ▸ hin)
  obtain ⟨hin, hnot, -⟩ := hstarted.all rfl row' hmissing ((known_of_key hkey').trans hknown)
  obtain ⟨j, hj⟩ := Dict.mem_keys_iff_get?.mp hin
  rcases hstarted.new _ j hj with hold | ⟨row₁, -, -, hkey₁, hcreated⟩
  · exact absurd (Dict.mem_keys_iff_get?.mpr ⟨j, hold⟩) hnot
  have hk : row'.key = k := hkey'.trans hkey
  -- the new task is the newest of its key, and it has not ended
  have hle : id ≤ j := by
    refine hnewest.newest _ j hj id t' ht' ?_
    rw [Task.key, hrow', hk, ← hkt, Task.key]
  have hne : id ≠ j := by
    rintro rfl
    have hdead := hend' e hend
    obtain rfl := Option.some.inj (ht'.symm.trans hcreated)
    cases hdead
  exact ⟨j, _, lt_of_le_of_ne hle hne, hcreated, hkey₁.trans hk⟩

/-- A key that holds the task when the rows are fetched gets no other one. -/
lemma Reconciled.not_restarted {raised : Option Raised} (hq : Core q []) (hnew : Newest known q)
    (h : Reconciled known fails rows q r raised) (hheld : q.tasks.get? k = some id) :
    ¬ r.Restarted id k := by
  rintro ⟨j, t, hlt, ht, hkey⟩
  obtain ⟨p, stale, fresh, -, hjoined, hfresh, hstart⟩ := h
  have hstarted := startTasks_started known fails p
    (fresh.filterMap (Registry.desiredOf rows).get?)
  rw [hstart] at hstarted
  rcases hstarted.fresh j t ht with hold | hrow
  · have hlength : p.created.length = q.created.length :=
      (hjoined.later hq).length.trans (q.cancelTasks_length stale)
    have hj := List.getElem?_eq_getElem (hlength ▸ hold)
    obtain ⟨u, hu, hrow⟩ := q.keeps_cancelTasks stale j _ hj
    obtain ⟨v, hv, hlater⟩ := (hjoined.later hq).created j u hu
    obtain rfl := Option.some.inj (ht.symm.trans (hstarted.created j v hv))
    refine absurd (hnew.newest k id hheld j _ hj ?_) (not_le.mpr hlt)
    rw [← hkey, Task.key, Task.key, hlater.row, hrow]
  · have hcurrent : k ∈ q.tasks.keys := Dict.mem_keys_iff_get?.mpr ⟨id, hheld⟩
    rw [← hkey] at hcurrent
    exact (of_mem_missing hfresh hrow).2 hcurrent

/-- **A reconcile replaces a dead task, whose callback has run, exactly if the task has raised or the
registry has dropped its key.** -/
theorem dead_restarted_iff {s : State Γ} (hs : (machine known).Reachable s) {before : List ℕ}
    (hcall : s.driver = .fetchAll before) {e : Ending}
    (hid : s.reg.info id = some (k, some e)) (hran : id ∉ s.reg.callbacks)
    (h : Reconciled known fails rows s.reg r none) (hrow : ∃ row ∈ rows, row.key = k) :
    r.Restarted id k ↔ e = .raised ∨ s.reg.tasks.get? k ≠ some id := by
  have hq : Core s.reg [] := (inv_of_reachable hs).core_of_fetchAll hcall
  have hnew := newest_of_reachable hs
  constructor
  · exact fun hrestarted => Or.inr fun hheld => h.not_restarted hq hnew hheld hrestarted
  · intro hdropped
    have hne : s.reg.tasks.get? k ≠ some id := by
      rcases hdropped with rfl | hne
      · exact fun hheld => hran (hq.crashed k id hheld hid)
      · exact hne
    obtain ⟨row, hrow, hkey⟩ := hrow
    cases hk : s.reg.tasks.get? k with
    | none => exact h.restarted hq hnew hid hrow hkey hk
    | some j =>
      -- a newer task has taken the key since
      obtain ⟨t, ht, hkt, -⟩ := Registry.info_eq_some.mp hid
      obtain ⟨e', hj⟩ := hq.named k j hk
      obtain ⟨u, hu, hku, -⟩ := Registry.info_eq_some.mp hj
      obtain ⟨u', hu', hrow', -⟩ := h.created hq hu
      have hle : id ≤ j := hnew.newest k j hk id t ht hkt
      have hlt : id < j := lt_of_le_of_ne hle fun heq => hne (heq ▸ hk)
      exact ⟨j, u', hlt, hu', by rw [← hku, Task.key, Task.key, hrow']⟩

end Restart

section Example

/-- The registry after the task of the tenant 1 has ended and its callback has run. -/
def deadTask (e : Ending) : Registry ℕ :=
  (⟨oneTask.tasks, [⟨configured 0, false, some e⟩], []⟩ : Registry ℕ).onTaskDone
    (configured 0).key ⟨configured 0, false, some e⟩

lemma deadTask_reachable (e : Ending) :
    (machine anyClass).Reachable ⟨.postgres, deadTask e, .fetchAll [], .notCalled⟩ := by
  have hended := oneTask_reachable.step (e := .taskEnds 0 e) rfl
  have hran := hended.step (e := .callback) rfl
  cases e <;> exact hran.step (e := .wake) rfl

lemma deadTask_ended (e : Ending) :
    (deadTask e).info 0 = some ((configured 0).key, some e) ∧ (deadTask e).callbacks = [] := by
  cases e <;> exact ⟨rfl, rfl⟩

/-- A task that has raised is started again. -/
theorem raised_restarted : ∃ r, Reconciled anyClass (fun _ => false) [configured 0]
    (deadTask .raised) r none ∧ r.Restarted 0 (configured 0).key := by
  obtain ⟨hinfo, hcallbacks⟩ := deadTask_ended .raised
  have hkeys : (deadTask .raised).tasks.keys = [] := by decide +kernel
  have hmissing : (Registry.desiredOf [configured 0]).keys.filterMap
      (Registry.desiredOf [configured 0]).get? = [configured 0] := by
    have hget : (Registry.desiredOf [configured 0]).get? (configured 0).key = some (configured 0) :=
      Dict.get?_set_self _ _ _
    have hsingle : (Registry.desiredOf [configured 0]).keys = [(configured 0).key] := rfl
    rw [hsingle]
    simp [hget]
  have hreconciled : Reconciled anyClass (fun _ => false) [configured 0] (deadTask .raised)
      ((deadTask .raised).startTasks anyClass (fun _ => false) [configured 0]).1 none := by
    refine ⟨deadTask .raised, [], (Registry.desiredOf [configured 0]).keys, ?_, Or.inl ⟨rfl, rfl⟩,
      ?_, ?_⟩
    · simp [hkeys, Registry.difference]
    · simp [hkeys, Registry.difference]
    · rw [hmissing]
      exact Prod.ext rfl (by simp [Registry.startTasks, Registry.startTask, anyClass, hkeys])
  exact ⟨_, hreconciled, (dead_restarted_iff (deadTask_reachable .raised) rfl hinfo
    (by simp [hcallbacks]) hreconciled ⟨_, by simp, rfl⟩).mpr (Or.inl rfl)⟩

/-- A task that has ended cancelled, which the registry has not cancelled, is not. -/
theorem cancelled_not_restarted : ¬ ∀ (s : State ℕ) (rows : List (Row ℕ)) (r : Registry ℕ) (id : ℕ)
    (t : Task ℕ), (machine anyClass).Reachable s → s.driver = .fetchAll [] →
    s.reg.created[id]? = some t → t.cancelling = false →
    t.ending = some .raised ∨ t.ending = some .cancelled → id ∉ s.reg.callbacks → t.row ∈ rows →
    Reconciled anyClass (fun _ => false) rows s.reg r none → r.Restarted id t.key := by
  intro hall
  have hkeys : (Registry.desiredOf [configured 0]).keys = (deadTask .cancelled).tasks.keys := rfl
  have hnone : Registry.difference (deadTask .cancelled).tasks.keys
      (deadTask .cancelled).tasks.keys = [] := by
    simp [Registry.difference]
  have hreconciled : Reconciled anyClass (fun _ => false) [configured 0] (deadTask .cancelled)
      (deadTask .cancelled) none := by
    refine ⟨deadTask .cancelled, [], [], ?_, Or.inl ⟨rfl, rfl⟩, ?_, rfl⟩
    · rw [hkeys, hnone]
    · rw [hkeys, hnone]
  obtain ⟨j, t, hlt, ht, -⟩ := hall _ [configured 0] (deadTask .cancelled) 0
    ⟨configured 0, false, some .cancelled⟩ (deadTask_reachable .cancelled) rfl rfl rfl (Or.inr rfl)
    (by simp [(deadTask_ended .cancelled).2]) (by simp) hreconciled
  have hlength : (deadTask .cancelled).created.length = 1 := rfl
  have hj := (List.getElem?_eq_some_iff.mp ht).1
  omega

end Example

end Omkit.Provider
