import Omkit.Provider.Registry

/-!
# The invariant of the registry

An unfinished task is tracked under its own key, or it was popped by a `_cancel_tasks` that still
awaits it.  The done callbacks are keyed by name, so what they pop must be the task they belong to:
a key whose callback is still scheduled holds that task or none.
-/

namespace Omkit.Provider

open Lib

variable {Γ : Type} {known : PyStr → Bool}

namespace Registry

/-- The key of a task, and how it has ended. -/
def info (r : Registry Γ) (id : ℕ) : Option (PyStr × Option Ending) :=
  (r.created[id]?).map fun t => (t.key, t.ending)

lemma info_eq_some {r : Registry Γ} {id : ℕ} {k : PyStr} {e : Option Ending} :
    r.info id = some (k, e) ↔ ∃ t, r.created[id]? = some t ∧ t.key = k ∧ t.ending = e := by
  simp [info, Option.map_eq_some_iff]

/-- A task that has not ended. -/
def Unfinished (r : Registry Γ) (id : ℕ) (t : Task Γ) : Prop :=
  r.created[id]? = some t ∧ t.ending = none

lemma Unfinished.info {r : Registry Γ} {id : ℕ} {t : Task Γ} (h : r.Unfinished id t) :
    r.info id = some (t.key, none) :=
  info_eq_some.mpr ⟨t, h.1, rfl, h.2⟩

@[simp] lemma info_cancel (r : Registry Γ) (id j : ℕ) : (r.cancel id).info j = r.info j := by
  unfold info cancel
  rw [List.getElem?_modify]
  by_cases h : id = j
  · cases r.created[j]? <;> simp [h, Task.key]
  · simp [h]

lemma done_eq_false {r : Registry Γ} {id : ℕ} :
    r.done id = false ↔ ∃ k, r.info id = some (k, none) := by
  unfold done info
  cases r.created[id]? with
  | none => simp
  | some t => cases h : t.ending <;> simp [h]

/-! ## What the parts of the registry do -/

/-- A task that ends. -/
structure Ended (r : Registry Γ) (id : ℕ) (e : Ending) (r' : Registry Γ) : Prop where
  was : ∃ k, r.info id = some (k, none)
  self : ∀ k, r.info id = some (k, none) → r'.info id = some (k, some e)
  others : ∀ j, j ≠ id → r'.info j = r.info j
  tasks : r'.tasks = r.tasks
  callbacks : r'.callbacks = r.callbacks ++ [id]

lemma taskEnds_spec {r r' : Registry Γ} {id : ℕ} {e : Ending} (h : r.taskEnds id e = some r') :
    Ended r id e r' := by
  unfold taskEnds at h
  split at h
  · cases h
  · next hdone =>
    obtain rfl := Option.some.inj h
    refine ⟨done_eq_false.mp (by simpa using hdone), fun k hk => ?_, fun j hj => ?_, rfl, rfl⟩
    · obtain ⟨t, ht, rfl, -⟩ := info_eq_some.mp hk
      simp [info, ht, Task.key]
    · simp [info, Ne.symm hj]

/-- A done callback changes the tracked tasks only. -/
lemma onTaskDone_eq (r : Registry Γ) (key : PyStr) (task : Task Γ) :
    r.onTaskDone key task =
      { r with tasks := if task.ending = some .raised then r.tasks.pop key else r.tasks } := by
  rw [onTaskDone]
  split
  · next he => rw [if_pos he]
  · next he => rw [if_neg he]

/-- A callback pops the key of its task if the task has raised. -/
lemma callback_spec {r r' : Registry Γ} (h : r.callback = some r') :
    ∃ id k e, r.callbacks = id :: r'.callbacks ∧ r.info id = some (k, e) ∧
      (∀ j, r'.info j = r.info j) ∧
      r'.tasks = if e = some .raised then r.tasks.pop k else r.tasks := by
  unfold callback at h
  split at h
  · cases h
  · next id callbacks hc =>
    obtain ⟨t, ht, rfl⟩ := Option.map_eq_some_iff.mp h
    refine ⟨id, t.key, t.ending, ?_, by simp [info, ht], ?_, ?_⟩
    · rw [hc, onTaskDone_eq]
    · intro j
      rw [onTaskDone_eq]
      rfl
    · rw [onTaskDone_eq]

/-- What `_cancel_tasks` does before it awaits. -/
structure Cancelled (r : Registry Γ) (keys : List PyStr) (r' : Registry Γ) (ids : List ℕ) :
    Prop where
  get : ∀ k, r'.tasks.get? k = if k ∈ keys then none else r.tasks.get? k
  info : ∀ j, r'.info j = r.info j
  callbacks : r'.callbacks = r.callbacks
  ids : ∀ id, id ∈ ids ↔ ∃ k ∈ keys, r.tasks.get? k = some id ∧ r.done id = false

lemma done_congr {r r' : Registry Γ} (h : ∀ j, r'.info j = r.info j) (id : ℕ) :
    r'.done id = r.done id := by
  rw [Bool.eq_iff_iff, ← not_iff_not, Bool.not_eq_true, Bool.not_eq_true, done_eq_false,
    done_eq_false, h]

/-- The first key is popped; its task is awaited if it has not ended. -/
lemma Cancelled.cons {r q r' : Registry Γ} {k : PyStr} {keys : List PyStr} {ids ids' : List ℕ}
    (h : Cancelled q keys r' ids) (htasks : q.tasks = r.tasks.pop k)
    (hinfo : ∀ j, q.info j = r.info j) (hcallbacks : q.callbacks = r.callbacks)
    (hids : ∀ id, id ∈ ids' ↔ id ∈ ids ∨ r.tasks.get? k = some id ∧ r.done id = false) :
    Cancelled r (k :: keys) r' ids' where
  get j := by
    rw [h.get, htasks, Dict.get?_pop]
    by_cases hj : j = k <;> by_cases hm : j ∈ keys <;> simp [hj, hm]
  info j := (h.info j).trans (hinfo j)
  callbacks := h.callbacks.trans hcallbacks
  ids id := by
    simp only [hids, h.ids, htasks, Dict.get?_pop, done_congr hinfo, List.mem_cons]
    constructor
    · rintro (⟨j, hj, hget, hdone⟩ | ⟨hget, hdone⟩)
      · split at hget
        · cases hget
        · exact ⟨j, Or.inr hj, hget, hdone⟩
      · exact ⟨k, Or.inl rfl, hget, hdone⟩
    · rintro ⟨j, hj, hget, hdone⟩
      by_cases hjk : j = k
      · exact Or.inr ⟨hjk ▸ hget, hdone⟩
      · exact Or.inl ⟨j, hj.resolve_left hjk, by rw [if_neg hjk]; exact hget, hdone⟩

lemma cancelTasks_spec (r : Registry Γ) (keys : List PyStr) :
    Cancelled r keys (r.cancelTasks keys).1 (r.cancelTasks keys).2 := by
  induction keys generalizing r with
  | nil => exact ⟨fun k => by simp [cancelTasks], fun j => rfl, rfl, by simp [cancelTasks]⟩
  | cons k keys ih =>
    rw [cancelTasks]
    split
    · next hk => exact (ih _).cons rfl (fun _ => rfl) rfl fun id => by simp [hk]
    · next id₀ hk =>
      split
      · next hdone =>
        refine (ih _).cons rfl (fun _ => rfl) rfl fun id => ⟨Or.inl, ?_⟩
        rintro (h | ⟨h, hnot⟩)
        · exact h
        · obtain rfl := Option.some.inj (hk.symm.trans h)
          exact absurd (hdone.symm.trans hnot) (by decide)
      · next hdone =>
        refine (ih _).cons rfl (info_cancel _ _) rfl fun id => ?_
        rw [List.mem_cons, or_comm]
        refine or_congr Iff.rfl ⟨?_, fun h => Option.some.inj (h.1.symm.trans hk)⟩
        rintro rfl
        exact ⟨hk, by simpa using hdone⟩

/-- `_start_task` on success: nothing for an unknown class, and a new task otherwise. -/
lemma startTask_ok {r r' : Registry Γ} {fails : Row Γ → Bool} {row : Row Γ}
    (h : r.startTask known fails row = .ok r') :
    (known row.name = false ∧ r' = r) ∨ (known row.name = true ∧ row.key ∉ r.tasks.keys ∧
      r' = { r with
        tasks := r.tasks.set row.key r.created.length
        created := r.created ++ [⟨row, false, none⟩] }) := by
  unfold startTask at h
  split at h
  · next hk =>
    exact Or.inl ⟨by simpa using hk, (Except.ok.inj h).symm⟩
  · next hk =>
    split at h
    · cases h
    · next hkey =>
      split at h
      · cases h
      · exact Or.inr ⟨by simpa using hk, hkey, (Except.ok.inj h).symm⟩

lemma info_lt {r : Registry Γ} {id : ℕ} {p : PyStr × Option Ending} (h : r.info id = some p) :
    id < r.created.length := by
  obtain ⟨t, ht, -⟩ := info_eq_some.mp h
  exact (List.getElem?_eq_some_iff.mp ht).1

lemma info_append {r : Registry Γ} {tasks : Dict PyStr ℕ} {row : Row Γ} (id : ℕ) :
    ({ r with tasks, created := r.created ++ [⟨row, false, none⟩] } : Registry Γ).info id =
      if id = r.created.length then some (row.key, none) else r.info id := by
  unfold info
  split
  · next h => simp [h, Task.key]
  · next h =>
    rcases lt_or_gt_of_ne h with hlt | hgt
    · rw [List.getElem?_append_left hlt]
    · rw [List.getElem?_eq_none (by simp; omega), List.getElem?_eq_none (by omega)]

end Registry

/-! ## The invariant of the registry -/

/-- What holds of a registry while `_cancel_tasks` awaits the tasks `awaited`. -/
structure Core (r : Registry Γ) (awaited : List ℕ) : Prop where
  /-- A key holds a task of its name. -/
  named : ∀ k id, r.tasks.get? k = some id → ∃ e, r.info id = some (k, e)
  tracked : ∀ id k, r.info id = some (k, none) → r.tasks.get? k = some id ∨ id ∈ awaited
  /-- The key of an awaited task holds no task. -/
  popped : ∀ id ∈ awaited, ∀ k e, r.info id = some (k, e) → r.tasks.get? k = none
  unique : ∀ i j k, r.info i = some (k, none) → r.info j = some (k, none) → i = j
  /-- A scheduled callback is about the task that its key holds, if it holds any. -/
  settled : ∀ id ∈ r.callbacks, ∃ k e, r.info id = some (k, some e) ∧
    ∀ j, r.tasks.get? k = some j → j = id
  nodup : r.callbacks.Nodup
  /-- A key holds a task that has raised only until the callback has run. -/
  crashed : ∀ k id, r.tasks.get? k = some id → r.info id = some (k, some .raised) →
    id ∈ r.callbacks

namespace Core

variable {r r' : Registry Γ} {awaited : List ℕ}

lemma empty : Core (.empty : Registry Γ) [] where
  named _ _ h := by simp [Registry.empty] at h
  tracked id k h := by simp [Registry.empty, Registry.info] at h
  popped _ h := nomatch h
  unique i j k h := by simp [Registry.empty, Registry.info] at h
  settled _ h := by simp [Registry.empty] at h
  nodup := by simp [Registry.empty]
  crashed _ _ h := by simp [Registry.empty] at h

/-- Keys are popped, and their unfinished tasks are awaited from now on; awaited tasks that have
ended may be forgotten. -/
lemma cancelled (h : Core r awaited) {keys : List PyStr} {awaited' : List ℕ}
    (hget : ∀ k, r'.tasks.get? k = if k ∈ keys then none else r.tasks.get? k)
    (hinfo : ∀ j, r'.info j = r.info j) (hcallbacks : r'.callbacks = r.callbacks)
    (hsub : ∀ id ∈ awaited', id ∈ awaited ∨ ∃ k ∈ keys, r.tasks.get? k = some id)
    (hcover : ∀ id k, r.info id = some (k, none) →
      (id ∈ awaited ∨ k ∈ keys ∧ r.tasks.get? k = some id) → id ∈ awaited') :
    Core r' awaited' where
  named k id hk := by
    rw [hget] at hk
    split at hk
    · cases hk
    · exact hinfo id ▸ h.named k id hk
  tracked id k hid := by
    rw [hinfo] at hid
    rw [hget]
    rcases h.tracked id k hid with hk | hk
    · by_cases hm : k ∈ keys
      · exact Or.inr (hcover id k hid (Or.inr ⟨hm, hk⟩))
      · exact Or.inl (by rw [if_neg hm, hk])
    · exact Or.inr (hcover id k hid (Or.inl hk))
  popped id hid k e hinf := by
    rw [hinfo] at hinf
    rw [hget]
    rcases hsub id hid with hold | ⟨j, hj, hget⟩
    · simp [h.popped id hold k e hinf]
    · obtain ⟨e', he⟩ := h.named j id hget
      obtain ⟨rfl, -⟩ : k = j ∧ _ := by simpa using hinf.symm.trans he
      simp [hj]
  unique i j k hi hj := h.unique i j k (hinfo i ▸ hi) (hinfo j ▸ hj)
  settled id hid := by
    obtain ⟨k, e, hk, hj⟩ := h.settled id (hcallbacks ▸ hid)
    refine ⟨k, e, (hinfo id).trans hk, fun j hget' => hj j ?_⟩
    rw [hget] at hget'
    split at hget'
    · cases hget'
    · exact hget'
  nodup := hcallbacks ▸ h.nodup
  crashed k id hk hid := by
    rw [hget] at hk
    split at hk
    · cases hk
    · exact hcallbacks ▸ h.crashed k id hk (hinfo id ▸ hid)

lemma cancelTasks (h : Core r awaited) (keys : List PyStr) :
    Core (r.cancelTasks keys).1 ((r.cancelTasks keys).2 ++ awaited) := by
  have hspec := r.cancelTasks_spec keys
  refine h.cancelled hspec.get hspec.info hspec.callbacks (fun id hid => ?_)
    fun id k hid hin => ?_
  · rcases List.mem_append.mp hid with hid | hid
    · obtain ⟨k, hk, hget, -⟩ := (hspec.ids id).mp hid
      exact Or.inr ⟨k, hk, hget⟩
    · exact Or.inl hid
  · rcases hin with hin | ⟨hk, hget⟩
    · exact List.mem_append_right _ hin
    · have hrun : r.done id = false := Registry.done_eq_false.mpr ⟨k, hid⟩
      exact List.mem_append_left _ ((hspec.ids id).mpr ⟨k, hk, hget, hrun⟩)

/-- The awaited tasks have ended. -/
lemma forget (h : Core r awaited) (hended : ∀ id ∈ awaited, r.done id = true) : Core r [] := by
  have hget : ∀ k, r.tasks.get? k = if k ∈ ([] : List PyStr) then none else r.tasks.get? k := by
    simp
  refine h.cancelled hget (fun _ => rfl) rfl (fun _ hid => absurd hid List.not_mem_nil)
    fun id k hid hin => ?_
  rcases hin with hin | ⟨hk, -⟩
  · have hrun : r.done id = false := Registry.done_eq_false.mpr ⟨k, hid⟩
    exact absurd ((hended id hin).symm.trans hrun) (by decide)
  · cases hk

lemma taskEnds (h : Core r awaited) {id : ℕ} {e : Ending} (he : r.taskEnds id e = some r') :
    Core r' awaited := by
  have hspec := Registry.taskEnds_spec he
  obtain ⟨k₀, hrun⟩ := hspec.was
  have hself := hspec.self k₀ hrun
  have hfrom : ∀ {j k}, r'.info j = some (k, none) → r.info j = some (k, none) := by
    intro j k hj
    by_cases hji : j = id
    · subst hji
      cases hself.symm.trans hj
    · rwa [hspec.others j hji] at hj
  have hkey : ∀ {j k e'}, r.info j = some (k, e') → ∃ e'', r'.info j = some (k, e'') := by
    intro j k e' hj
    by_cases hji : j = id
    · subst hji
      obtain ⟨rfl, -⟩ : k = k₀ ∧ _ := by simpa using hj.symm.trans hrun
      exact ⟨_, hself⟩
    · exact ⟨e', by rw [hspec.others j hji, hj]⟩
  have hkey' : ∀ {j k e'}, r'.info j = some (k, e') → ∃ e'', r.info j = some (k, e'') := by
    intro j k e' hj
    by_cases hji : j = id
    · subst hji
      obtain ⟨rfl, -⟩ : k = k₀ ∧ _ := by simpa using hj.symm.trans hself
      exact ⟨_, hrun⟩
    · exact ⟨e', by rwa [hspec.others j hji] at hj⟩
  have hnot : id ∉ r.callbacks := by
    intro hmem
    obtain ⟨k, e', hk, -⟩ := h.settled id hmem
    cases hrun.symm.trans hk
  refine
    { named := fun k j hj => ?named
      tracked := fun j k hj => ?tracked
      popped := fun j hj k e' hinf => ?popped
      unique := fun i j k hi hj => h.unique i j k (hfrom hi) (hfrom hj)
      settled := fun j hj => ?settled
      nodup := ?nodup
      crashed := fun k j hj hinf => ?crashed }
  case named =>
    obtain ⟨e', he'⟩ := h.named k j (hspec.tasks ▸ hj)
    exact hkey he'
  case tracked =>
    rw [hspec.tasks]
    exact h.tracked j k (hfrom hj)
  case popped =>
    obtain ⟨e'', he''⟩ := hkey' hinf
    rw [hspec.tasks]
    exact h.popped j hj k e'' he''
  case settled =>
    rw [hspec.callbacks, List.mem_append, List.mem_singleton] at hj
    rcases hj with hj | rfl
    · obtain ⟨k, e', hk, huniq⟩ := h.settled j hj
      have hji : j ≠ id := fun hji => hnot (hji ▸ hj)
      exact ⟨k, e', by rw [hspec.others j hji, hk], by rwa [hspec.tasks]⟩
    · -- the task that ends was tracked under its own key, or its key was popped
      refine ⟨k₀, e, hself, fun i hi => ?_⟩
      rw [hspec.tasks] at hi
      rcases h.tracked j k₀ hrun with htr | haw
      · exact Option.some.inj (hi.symm.trans htr)
      · cases hi.symm.trans (h.popped j haw k₀ none hrun)
  case nodup =>
    rw [hspec.callbacks]
    exact List.nodup_append.mpr ⟨h.nodup, by simp, by
      rintro a ha b hb rfl
      exact hnot (List.mem_singleton.mp hb ▸ ha)⟩
  case crashed =>
    rw [hspec.callbacks]
    by_cases hji : j = id
    · simp [hji]
    · rw [hspec.others j hji] at hinf
      exact List.mem_append_left _ (h.crashed k j (hspec.tasks ▸ hj) hinf)

lemma callback (h : Core r awaited) (hc : r.callback = some r') : Core r' awaited := by
  obtain ⟨id, k₀, e₀, hcb, hid, hinfo, htasks⟩ := Registry.callback_spec hc
  have hmem : id ∈ r.callbacks := by simp [hcb]
  obtain ⟨k, e, hk, huniq⟩ := h.settled id hmem
  obtain ⟨rfl, rfl⟩ : k = k₀ ∧ some e = e₀ := by simpa using hk.symm.trans hid
  have hget : ∀ j i, r'.tasks.get? j = some i → r.tasks.get? j = some i := by
    intro j i hj
    rw [htasks] at hj
    split at hj
    · rw [Dict.get?_pop] at hj
      split at hj
      · cases hj
      · exact hj
    · exact hj
  have hnodup : (id :: r'.callbacks).Nodup := hcb ▸ h.nodup
  refine
    { named := fun j i hj => hinfo i ▸ h.named j i (hget j i hj)
      tracked := fun i j hi => ?tracked
      popped := fun i hi j e' hinf => ?popped
      unique := fun i j k' hi hj => h.unique i j k' (hinfo i ▸ hi) (hinfo j ▸ hj)
      settled := fun i hi => ?settled
      nodup := (List.nodup_cons.mp hnodup).2
      crashed := fun j i hj hinf => ?crashed }
  case tracked =>
    rw [hinfo] at hi
    rcases h.tracked i j hi with htr | haw
    · left
      rw [htasks]
      split
      · rw [Dict.get?_pop]
        split
        · next hjk =>
          -- The popped key would hold an unfinished task, but it holds the one that has raised.
          subst hjk
          obtain rfl := huniq i htr
          cases hi.symm.trans hk
        · exact htr
      · exact htr
    · exact Or.inr haw
  case popped =>
    rw [hinfo] at hinf
    have hnone := h.popped i hi j e' hinf
    by_contra hne
    obtain ⟨x, hx⟩ := Option.ne_none_iff_exists'.mp hne
    cases hnone.symm.trans (hget j x hx)
  case settled =>
    obtain ⟨k', e', hk', huniq'⟩ := h.settled i (by simp [hcb, hi])
    exact ⟨k', e', (hinfo i).trans hk', fun j hj => huniq' j (hget k' j hj)⟩
  case crashed =>
    rw [hinfo] at hinf
    have hin := h.crashed j i (hget j i hj) hinf
    rw [hcb, List.mem_cons] at hin
    rcases hin with rfl | hin
    · obtain ⟨rfl, he⟩ : k = j ∧ e = .raised := by simpa using hk.symm.trans hinf
      simp [htasks, he] at hj
    · exact hin

end Core

/-- A scheduled callback that would pop the key of a row finds the key in use. -/
def Clear (r : Registry Γ) (rows : List (Row Γ)) : Prop :=
  ∀ row ∈ rows, ∀ id ∈ r.callbacks, ∀ e, r.info id = some (row.key, e) →
    row.key ∈ r.tasks.keys

namespace Core

variable {r r' : Registry Γ} {fails : Row Γ → Bool}

lemma startTask (h : Core r []) {row : Row Γ} {rows : List (Row Γ)}
    (hclear : Clear r (row :: rows)) (hok : r.startTask known fails row = .ok r') :
    Core r' [] ∧ Clear r' rows := by
  rcases Registry.startTask_ok hok with ⟨-, rfl⟩ | ⟨-, hkey, rfl⟩
  · exact ⟨h, fun row' hrow' => hclear row' (List.mem_cons_of_mem _ hrow')⟩
  have hnone : r.tasks.get? row.key = none := Dict.get?_eq_none.mpr hkey
  have hlt : ∀ {k id}, r.tasks.get? k = some id → id ≠ r.created.length := by
    intro k id hk
    obtain ⟨e, he⟩ := h.named k id hk
    exact (Registry.info_lt he).ne
  have hlt' : ∀ {id}, id ∈ r.callbacks → id ≠ r.created.length := by
    intro id hid
    obtain ⟨k, e, hk, -⟩ := h.settled id hid
    exact (Registry.info_lt hk).ne
  -- An unfinished task of the new name would be tracked.
  have hfree : ∀ id, r.info id ≠ some (row.key, none) := by
    intro id hid
    rcases h.tracked id _ hid with htr | haw
    · cases hnone.symm.trans htr
    · cases haw
  have hclear' : Clear { r with
      tasks := r.tasks.set row.key r.created.length
      created := r.created ++ [⟨row, false, none⟩] } rows := by
    intro row' hrow' id hid e he
    rw [Registry.info_append, if_neg (hlt' hid)] at he
    have hin := hclear row' (List.mem_cons_of_mem _ hrow') id hid e he
    exact Dict.mem_keys_set.mpr (Or.inr hin)
  refine ⟨?_, hclear'⟩
  refine
    { named := fun k id hk => ?named
      tracked := fun id k hid => ?tracked
      popped := fun _ hid => absurd hid List.not_mem_nil
      unique := fun i j k hi hj => ?unique
      settled := fun id hid => ?settled
      nodup := h.nodup
      crashed := fun k id hk hid => ?crashed }
  case named =>
    rw [Dict.get?_set] at hk
    rw [Registry.info_append]
    split at hk
    · next hkk =>
      obtain rfl := Option.some.inj hk
      simp [hkk]
    · rw [if_neg (hlt hk)]
      exact h.named k id hk
  case tracked =>
    rw [Registry.info_append] at hid
    rw [Dict.get?_set]
    split at hid
    · next hnew =>
      obtain rfl : row.key = k := by simpa using hid
      simp [hnew]
    · rw [if_neg fun hk : k = row.key => hfree id (hk ▸ hid)]
      exact h.tracked id k hid
  case unique =>
    rw [Registry.info_append] at hi hj
    split at hi <;> split at hj
    · next hi' hj' => exact hi'.trans hj'.symm
    · obtain rfl : row.key = k := by simpa using hi
      exact absurd hj (hfree j)
    · obtain rfl : row.key = k := by simpa using hj
      exact absurd hi (hfree i)
    · exact h.unique i j k hi hj
  case settled =>
    obtain ⟨k, e, hk, huniq⟩ := h.settled id hid
    refine ⟨k, e, by rw [Registry.info_append, if_neg (hlt' hid), hk], fun j hj => ?_⟩
    rw [Dict.get?_set] at hj
    split at hj
    · next hkk =>
      exact absurd (hclear row (by simp) id hid (some e) (hkk ▸ hk)) hkey
    · exact huniq j hj
  case crashed =>
    rw [Dict.get?_set] at hk
    rw [Registry.info_append] at hid
    split at hk
    · obtain rfl := Option.some.inj hk
      simp at hid
    · rw [if_neg (hlt hk)] at hid
      exact h.crashed k id hk hid

lemma startTasks (h : Core r []) {rows : List (Row Γ)} (hclear : Clear r rows) :
    Core (r.startTasks known fails rows).1 [] := by
  induction rows generalizing r with
  | nil => exact h
  | cons row rows ih =>
    rw [Registry.startTasks]
    split
    · exact h
    · next r' hok =>
      obtain ⟨hcore, hrest⟩ := h.startTask hclear hok
      exact ih hcore hrest

end Core

end Omkit.Provider
