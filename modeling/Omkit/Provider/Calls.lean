import Omkit.Provider.Agree

/-!
# Whole calls of the driver

`_reconcile_all` after its fetch and `_reload_tenant`, as relations between the registry that they
find and the one that they leave, with what they raise.  While they await, any task may end and done
callbacks run.  The runs of the machine are such calls.
-/

namespace Omkit.Provider

open Lib

variable {Γ : Type} {known : PyStr → Bool} {fails : Row Γ → Bool}

/-! ## The calls -/

/-- What happens to a registry while the driver is suspended. -/
inductive Meanwhile : Registry Γ → Registry Γ → Prop
  | refl (r : Registry Γ) : Meanwhile r r
  | ends {q r r' : Registry Γ} {id : ℕ} {e : Ending} (h : Meanwhile q r)
      (he : r.taskEnds id e = some r') : Meanwhile q r'
  | callback {q r r' : Registry Γ} (h : Meanwhile q r) (hc : r.callback = some r') : Meanwhile q r'

/-- `await asyncio.gather(*tasks)` in `_cancel_tasks`, if there is a task. -/
def Joined (popped : Registry Γ × List ℕ) (r : Registry Γ) : Prop :=
  popped.2 = [] ∧ r = popped.1 ∨
    popped.2 ≠ [] ∧ Meanwhile popped.1 r ∧ r.gathered popped.2 = true

/-- A fetch: the done callbacks that are scheduled when it begins run before it ends. -/
def Fetched (r r' : Registry Γ) : Prop := Meanwhile r r' ∧ r'.ran r.callbacks = true

/-- `_reconcile_all` after its fetch, and what it raises. -/
def Reconciled (known : PyStr → Bool) (fails : Row Γ → Bool) (rows : List (Row Γ))
    (r r' : Registry Γ) (raised : Option Raised) : Prop :=
  ∃ (q : Registry Γ) (stale fresh : List PyStr),
    stale.Perm (Registry.difference r.tasks.keys (Registry.desiredOf rows).keys) ∧
    Joined (r.cancelTasks stale) q ∧
    fresh.Perm (Registry.difference (Registry.desiredOf rows).keys r.tasks.keys) ∧
    q.startTasks known fails (fresh.filterMap (Registry.desiredOf rows).get?) = (r', raised)

/-- How `_reload_tenant` ends after its guard. -/
inductive Outcome
  | returned
  | fetchRaised
  | raised (e : Raised)

/-- The end of the loop over the rows. -/
def Outcome.of : Option Raised → Outcome
  | none => .returned
  | some e => .raised e

/-- `_reload_tenant` after its guard, over the enabled rows of all tenants.  The database selects by
the UUID that it reads in the parameter, and it refuses a parameter that is none. -/
def Reloaded (readUuid : PyStr → Option ℕ) (known : PyStr → Bool) (fails : Row Γ → Bool)
    (table : List (Row Γ)) (tenantId : PyStr) (r r' : Registry Γ) (outcome : Outcome) : Prop :=
  ∃ r₁ r₂ : Registry Γ,
    Joined (r.cancelTasks (r.tenantKeys tenantId)) r₁ ∧ Fetched r₁ r₂ ∧
    (outcome = .fetchRaised ∧ r' = r₂ ∨
      ∃ (rows : List (Row Γ)) (raised : Option Raised),
        (readUuid tenantId).isSome = true ∧
        rows.Perm (table.filter fun row => readUuid tenantId = some row.tenant) ∧
        r₂.startTasks known fails rows = (r', raised) ∧ outcome = .of raised)

/-! ## Awaits -/

/-- What may become of a task while the driver is suspended: it may end. -/
structure Task.Later (t t' : Task Γ) : Prop where
  row : t'.row = t.row
  cancelling : t'.cancelling = t.cancelling
  ending : ∀ e, t.ending = some e → t'.ending = some e

lemma Task.Later.refl (t : Task Γ) : t.Later t := ⟨rfl, rfl, fun _ h => h⟩

lemma Task.Later.trans {t u v : Task Γ} (h : t.Later u) (h' : u.Later v) : t.Later v :=
  ⟨h'.row.trans h.row, h'.cancelling.trans h.cancelling, fun e he => h'.ending e (h.ending e he)⟩

/-- What an await leaves: every task, and every key except those of tasks that have raised. -/
structure Later (q r : Registry Γ) : Prop where
  length : r.created.length = q.created.length
  created : ∀ (j : ℕ) (t : Task Γ), q.created[j]? = some t →
    ∃ t' : Task Γ, r.created[j]? = some t' ∧ t.Later t'
  tasks : ∀ k, r.tasks.get? k = q.tasks.get? k ∨
    r.tasks.get? k = none ∧ ∃ id, q.tasks.get? k = some id ∧ r.info id = some (k, some .raised)

namespace Later

lemma refl (r : Registry Γ) : Later r r :=
  ⟨rfl, fun _ t ht => ⟨t, ht, .refl t⟩, fun _ => Or.inl rfl⟩

/-- A task under a key was under it before. -/
lemma before {q r : Registry Γ} (h : Later q r) {k : PyStr} {id : ℕ}
    (hid : r.tasks.get? k = some id) : q.tasks.get? k = some id := by
  rcases h.tasks k with hsame | ⟨hnone, -⟩
  · exact hsame.symm.trans hid
  · cases hnone.symm.trans hid

/-- An ending is final. -/
lemma info {q r : Registry Γ} (h : Later q r) {id : ℕ} {k : PyStr} {e : Ending}
    (hid : q.info id = some (k, some e)) : r.info id = some (k, some e) := by
  obtain ⟨t, ht, hkey, hend⟩ := Registry.info_eq_some.mp hid
  obtain ⟨t', ht', hl⟩ := h.created id t ht
  refine Registry.info_eq_some.mpr ⟨t', ht', ?_, hl.ending e hend⟩
  rw [← hkey, Task.key, Task.key, hl.row]

lemma trans {p q r : Registry Γ} (h : Later p q) (h' : Later q r) : Later p r where
  length := h'.length.trans h.length
  created j t ht := by
    obtain ⟨u, hu, hl⟩ := h.created j t ht
    obtain ⟨v, hv, hl'⟩ := h'.created j u hu
    exact ⟨v, hv, hl.trans hl'⟩
  tasks k := by
    rcases h'.tasks k with hsame | ⟨hnone, id, hk, hraised⟩
    · rw [hsame]
      exact (h.tasks k).imp_right fun ⟨hnone, id, hk, hraised⟩ => ⟨hnone, id, hk, h'.info hraised⟩
    · rcases h.tasks k with hsame | ⟨hnone', -⟩
      · exact Or.inr ⟨hnone, id, hsame ▸ hk, hraised⟩
      · cases hnone'.symm.trans hk

lemma get_none {q r : Registry Γ} (h : Later q r) {k : PyStr} (hk : q.tasks.get? k = none) :
    r.tasks.get? k = none := by
  rcases h.tasks k with hsame | ⟨hnone, -⟩
  · exact hsame.trans hk
  · exact hnone

lemma taskEnds {r r' : Registry Γ} {id : ℕ} {e : Ending} (h : r.taskEnds id e = some r') :
    Later r r' := by
  obtain ⟨k, hrun⟩ := (Registry.taskEnds_spec h).was
  obtain ⟨u, hu, -, hend⟩ := Registry.info_eq_some.mp hrun
  unfold Registry.taskEnds at h
  split at h
  · cases h
  · obtain rfl := Option.some.inj h
    refine ⟨by simp, fun j t ht => ?_, fun _ => Or.inl rfl⟩
    by_cases hj : id = j
    · subst hj
      obtain rfl := Option.some.inj (ht.symm.trans hu)
      exact ⟨{ t with ending := some e }, by simp [ht], rfl, rfl, fun e' he' => by
        cases hend.symm.trans he'⟩
    · exact ⟨t, by simp [hj, ht], .refl t⟩

lemma callback {r r' : Registry Γ} {awaited : List ℕ} (hr : Core r awaited)
    (h : r.callback = some r') : Later r r' := by
  obtain ⟨id, k₀, e₀, hcb, hid, -, htasks⟩ := Registry.callback_spec h
  have hcreated : r'.created = r.created := by
    unfold Registry.callback at h
    split at h
    · cases h
    · obtain ⟨t, -, rfl⟩ := Option.map_eq_some_iff.mp h
      rw [Registry.onTaskDone_eq]
  refine ⟨by rw [hcreated], fun j t ht => ⟨t, hcreated ▸ ht, .refl t⟩, fun k => ?_⟩
  rw [htasks]
  split
  · next he =>
    rw [Dict.get?_pop]
    split
    · next hk =>
      -- the key holds the task of the callback, or it is free
      subst hk
      cases hget : r.tasks.get? k with
      | none => exact Or.inl rfl
      | some j =>
        obtain ⟨k', e', hk', huniq⟩ := hr.settled id (by simp [hcb])
        obtain ⟨rfl, -⟩ : k' = k ∧ _ := by simpa using hk'.symm.trans hid
        obtain rfl := huniq j hget
        refine Or.inr ⟨rfl, j, rfl, ?_⟩
        rw [Registry.info, hcreated, ← he]
        exact hid
    · exact Or.inl rfl
  · exact Or.inl rfl

end Later

namespace Meanwhile

variable {q r : Registry Γ}

lemma trans {r' : Registry Γ} (h : Meanwhile q r) (h' : Meanwhile r r') : Meanwhile q r' := by
  induction h' with
  | refl => exact h
  | ends _ he ih => exact ih.ends he
  | callback _ hc ih => exact ih.callback hc

lemma core {awaited : List ℕ} (h : Meanwhile q r) (hq : Core q awaited) : Core r awaited := by
  induction h with
  | refl => exact hq
  | ends _ he ih => exact ih.taskEnds he
  | callback _ hc ih => exact ih.callback hc

lemma later {awaited : List ℕ} (h : Meanwhile q r) (hq : Core q awaited) : Later q r := by
  induction h with
  | refl => exact .refl q
  | ends _ he ih => exact ih.trans (.taskEnds he)
  | callback h hc ih => exact ih.trans (.callback (h.core hq) hc)

lemma ready {d : Driver Γ} (h : Meanwhile q r) (hq : Core q d.awaited) (hd : d.Ready q) :
    d.Ready r := by
  induction h with
  | refl => exact hd
  | ends h he ih => exact ih.taskEnds (h.core hq) he
  | callback h hc ih => exact ih.callback (h.core hq) hc

end Meanwhile

/-- The awaits of the quiet runs are awaits. -/
lemma Awaiting.meanwhile {ids : List ℕ} {q r : Registry Γ} (h : Awaiting ids q r) :
    Meanwhile q r := by
  induction h with
  | refl => exact .refl q
  | ends _ _ he ih => exact ih.ends he
  | callback _ hc ih => exact ih.callback hc

lemma Fetch.fetched {q r : Registry Γ} (h : Fetch q r) : Fetched q r := ⟨h.1.meanwhile, h.2⟩

lemma Gather.joined {popped : Registry Γ × List ℕ} {r : Registry Γ} (h : Gather popped r) :
    Joined popped r :=
  h.imp_right fun ⟨hne, hwait, hg⟩ => ⟨hne, hwait.meanwhile, hg⟩

lemma Joined.core {q r : Registry Γ} {keys : List PyStr} (h : Joined (q.cancelTasks keys) r)
    (hq : Core q []) : Core r [] := by
  have hcore := hq.cancelTasks keys
  rw [List.append_nil] at hcore
  rcases h with ⟨hnil, rfl⟩ | ⟨-, hwait, hg⟩
  · exact hnil ▸ hcore
  · exact (hwait.core hcore).forget (gathered_done hg)

lemma Joined.later {q r : Registry Γ} {keys : List PyStr} (h : Joined (q.cancelTasks keys) r)
    (hq : Core q []) : Later (q.cancelTasks keys).1 r := by
  rcases h with ⟨-, rfl⟩ | ⟨-, hwait, -⟩
  · exact .refl _
  · exact hwait.later (hq.cancelTasks keys)

/-- A fetch leaves no key of a task that had raised before it. -/
lemma Fetched.get_none {q r : Registry Γ} (h : Fetched q r) (hq : Core q []) {k : PyStr} {id : ℕ}
    (hk : q.tasks.get? k = some id) (hraised : q.info id = some (k, some .raised)) :
    r.tasks.get? k = none := by
  have hlater := h.1.later hq
  refine (hlater.tasks k).elim (fun hsame => ?_) And.left
  have hnow := (h.1.core hq).crashed k id (hsame.trans hk) (hlater.info hraised)
  have hran := List.all_eq_true.mp h.2 id (hq.crashed k id hk hraised)
  simp [hnow] at hran

/-! ## Quiet runs exist -/

/-- The scheduled callbacks run. -/
lemma exists_drained {ids awaited : List ℕ} {q r : Registry Γ} (h : Awaiting ids q r)
    (hr : Core r awaited) :
    ∃ r', Awaiting ids q r' ∧ r'.callbacks = [] ∧ ∀ j, r'.info j = r.info j := by
  generalize hn : r.callbacks.length = n
  induction n generalizing r with
  | zero => exact ⟨r, h, List.length_eq_zero_iff.mp hn, fun _ => rfl⟩
  | succ n ih =>
    obtain ⟨r₁, hc⟩ : ∃ r₁, r.callback = some r₁ := by
      obtain ⟨id, callbacks, hcb⟩ := List.exists_cons_of_length_eq_add_one hn
      obtain ⟨k, e, hid, -⟩ := hr.settled id (by simp [hcb])
      obtain ⟨t, ht, -⟩ := Registry.info_eq_some.mp hid
      simp [Registry.callback, hcb, ht]
    obtain ⟨id, k, e, hcb, -, hinfo, -⟩ := Registry.callback_spec hc
    have hlen : r₁.callbacks.length = n := by
      rw [hcb, List.length_cons] at hn
      omega
    obtain ⟨r', hwait, hnil, hinfo'⟩ := ih (h.callback hc) (hr.callback hc) hlen
    exact ⟨r', hwait, hnil, fun j => (hinfo' j).trans (hinfo j)⟩

lemma exists_fetch {q : Registry Γ} (hq : Core q []) : ∃ r, Fetch q r := by
  obtain ⟨r, hwait, hnil, -⟩ := exists_drained (.refl q) hq
  exact ⟨r, hwait, by simp [Registry.ran, hnil]⟩

/-! ## The loop over the rows -/

/-- What a loop of `_start_task` leaves, and what it raises. -/
structure Started (known : PyStr → Bool) (fails : Row Γ → Bool) (r : Registry Γ)
    (rows : List (Row Γ)) (r' : Registry Γ) (raised : Option Raised) : Prop where
  old : ∀ k id, r.tasks.get? k = some id → r'.tasks.get? k = some id
  created : ∀ (j : ℕ) (t : Task Γ), r.created[j]? = some t → r'.created[j]? = some t
  new : ∀ k id, r'.tasks.get? k = some id → r.tasks.get? k = some id ∨
    ∃ row ∈ rows, known row.name = true ∧ row.key = k ∧ r'.created[id]? = some ⟨row, false, none⟩
  fresh : ∀ (j : ℕ) (t : Task Γ), r'.created[j]? = some t → j < r.created.length ∨ t.row ∈ rows
  all : raised = none → ∀ row ∈ rows, known row.name = true →
    row.key ∈ r'.tasks.keys ∧ row.key ∉ r.tasks.keys ∧ fails row = false
  clash : raised = some .assertionError → (rows.map Row.key).Nodup →
    ∃ row ∈ rows, known row.name = true ∧ row.key ∈ r.tasks.keys
  failed : raised = some .constructor → ∃ row ∈ rows, known row.name = true ∧ fails row = true

namespace Started

variable {r q r' : Registry Γ} {row : Row Γ} {rows : List (Row Γ)} {raised : Option Raised}

lemma nil (r : Registry Γ) : Started known fails r [] r none where
  old _ _ h := h
  created _ _ h := h
  new _ _ h := Or.inl h
  fresh _ _ h := Or.inl (List.getElem?_eq_some_iff.mp h).1
  all _ row h := absurd h List.not_mem_nil
  clash h := by cases h
  failed h := by cases h

/-- The loop stops at an exception. -/
lemma error {e : Raised} (h : r.startTask known fails row = .error e) :
    Started known fails r (row :: rows) r (some e) := by
  unfold Registry.startTask at h
  split at h
  · cases h
  next hk =>
  have hknown : known row.name = true := by simpa using hk
  refine
    { old := fun _ _ h => h
      created := fun _ _ h => h
      new := fun _ _ h => Or.inl h
      fresh := fun _ _ h => Or.inl (List.getElem?_eq_some_iff.mp h).1
      all := fun h => by cases h
      clash := fun he _ => ?clash
      failed := fun he => ?failed }
  case clash =>
    obtain rfl := Option.some.inj he
    split at h
    · next hkey => exact ⟨row, List.mem_cons_self, hknown, hkey⟩
    · split at h <;> cases h
  case failed =>
    obtain rfl := Option.some.inj he
    split at h
    · cases h
    · split at h
      · next hfails => exact ⟨row, List.mem_cons_self, hknown, hfails⟩
      · cases h

/-- A row of an unknown class is skipped. -/
lemma skip (h : Started known fails r rows r' raised) (hk : known row.name = false) :
    Started known fails r (row :: rows) r' raised where
  old := h.old
  created := h.created
  new k id hget := (h.new k id hget).imp_right fun ⟨row', hrow', hnew⟩ =>
    ⟨row', List.mem_cons_of_mem _ hrow', hnew⟩
  fresh j t ht := (h.fresh j t ht).imp_right (List.mem_cons_of_mem _)
  all hnone row' hrow' hknown := by
    rcases List.mem_cons.mp hrow' with rfl | hrow'
    · exact absurd (hk.symm.trans hknown) (by decide)
    · exact h.all hnone row' hrow' hknown
  clash he hnodup := by
    obtain ⟨row', hrow', hclash⟩ := h.clash he (List.nodup_cons.mp hnodup).2
    exact ⟨row', List.mem_cons_of_mem _ hrow', hclash⟩
  failed he := by
    obtain ⟨row', hrow', hfailed⟩ := h.failed he
    exact ⟨row', List.mem_cons_of_mem _ hrow', hfailed⟩

/-- The row gets a task. -/
lemma cons (h : Started known fails
      { r with
        tasks := r.tasks.set row.key r.created.length
        created := r.created ++ [⟨row, false, none⟩] } rows r' raised)
    (hk : known row.name = true) (hkey : row.key ∉ r.tasks.keys) (hfails : fails row = false) :
    Started known fails r (row :: rows) r' raised := by
  have hmem : row.key ∈ (r.tasks.set row.key r.created.length).keys :=
    Dict.mem_keys_set.mpr (Or.inl rfl)
  refine
    { old := fun k id hget => h.old k id ?old
      created := fun j t ht => h.created j t ?created
      new := fun k id hget => ?new
      fresh := fun j t ht => ?fresh
      all := fun hnone row' hrow' hknown => ?all
      clash := fun he hnodup => ?clash
      failed := fun he => ?failed }
  case old =>
    have hne : k ≠ row.key := fun hk => hkey (hk ▸ Dict.mem_keys_iff_get?.mpr ⟨id, hget⟩)
    show (r.tasks.set row.key r.created.length).get? k = some id
    rw [Dict.get?_set_ne _ _ hne, hget]
  case created =>
    show (r.created ++ [⟨row, false, none⟩])[j]? = some t
    rw [List.getElem?_append_left (List.getElem?_eq_some_iff.mp ht).1, ht]
  case new =>
    rcases h.new k id hget with hget | ⟨row', hrow', hnew⟩
    · rw [Dict.get?_set] at hget
      split at hget
      · next hkk =>
        obtain rfl := Option.some.inj hget
        exact Or.inr ⟨row, List.mem_cons_self, hk, hkk.symm, h.created _ _ (by simp)⟩
      · exact Or.inl hget
    · exact Or.inr ⟨row', List.mem_cons_of_mem _ hrow', hnew⟩
  case fresh =>
    rcases h.fresh j t ht with hlt | hrow
    · by_cases hj : j < r.created.length
      · exact Or.inl hj
      · have hlast : j = r.created.length := by
          rw [List.length_append, List.length_singleton] at hlt
          omega
        have hnow := h.created j ⟨row, false, none⟩ (by simp [hlast])
        obtain rfl := Option.some.inj (ht.symm.trans hnow)
        exact Or.inr List.mem_cons_self
    · exact Or.inr (List.mem_cons_of_mem _ hrow)
  case all =>
    rcases List.mem_cons.mp hrow' with rfl | hrow'
    · obtain ⟨id, hid⟩ := Dict.mem_keys_iff_get?.mp hmem
      exact ⟨Dict.mem_keys_iff_get?.mpr ⟨id, h.old _ _ hid⟩, hkey, hfails⟩
    · obtain ⟨hin, hnot, hok⟩ := h.all hnone row' hrow' hknown
      exact ⟨hin, fun hold => hnot (Dict.mem_keys_set.mpr (Or.inr hold)), hok⟩
  case clash =>
    rw [List.map_cons, List.nodup_cons] at hnodup
    obtain ⟨row', hrow', hknown, hin⟩ := h.clash he hnodup.2
    refine ⟨row', List.mem_cons_of_mem _ hrow', hknown, (Dict.mem_keys_set.mp hin).resolve_left ?_⟩
    exact fun heq => hnodup.1 (heq ▸ List.mem_map_of_mem hrow')
  case failed =>
    obtain ⟨row', hrow', hfailed⟩ := h.failed he
    exact ⟨row', List.mem_cons_of_mem _ hrow', hfailed⟩

end Started

lemma startTasks_started (known : PyStr → Bool) (fails : Row Γ → Bool) (r : Registry Γ)
    (rows : List (Row Γ)) :
    Started known fails r rows (r.startTasks known fails rows).1
      (r.startTasks known fails rows).2 := by
  induction rows generalizing r with
  | nil => exact .nil r
  | cons row rows ih =>
    rw [Registry.startTasks]
    split
    · next e herror => exact .error herror
    · next q hok =>
      rcases Registry.startTask_ok hok with ⟨hk, rfl⟩ | ⟨hk, hkey, rfl⟩
      · exact (ih _).skip hk
      · refine (ih _).cons hk hkey ?_
        by_contra hfails
        simp [Registry.startTask, hk, hkey, hfails] at hok

/-! ## The runs of the machine -/

/-- What the event loop does while the driver is suspended. -/
inductive Action.Loop : Action Γ → Prop
  | taskEnds (id : ℕ) (e : Ending) : Loop (.taskEnds id e)
  | callback : Loop .callback

section Runs

variable {s s₁ s₂ s₃ : State Γ} {es : List (Action Γ)}

lemma run_loop (hes : ∀ a ∈ es, a.Loop) (hrun : (machine known).run s es = some s₁) :
    ∃ reg, s₁ = { s with reg } ∧ Meanwhile s.reg reg := by
  induction es generalizing s with
  | nil =>
    obtain rfl : s = s₁ := by simpa using hrun
    exact ⟨s.reg, rfl, .refl _⟩
  | cons a es ih =>
    obtain ⟨t, hstep, hrun⟩ := Machine.run_cons.mp hrun
    obtain ⟨reg, rfl, hrest⟩ := ih (fun b hb => hes b (List.mem_cons_of_mem _ hb)) hrun
    refine ⟨reg, ?_, ?_⟩
    · cases hes a List.mem_cons_self with
      | taskEnds id e =>
        obtain ⟨q, -, rfl⟩ := Option.map_eq_some_iff.mp hstep
        rfl
      | callback =>
        obtain ⟨q, -, rfl⟩ := Option.map_eq_some_iff.mp hstep
        rfl
    · refine Meanwhile.trans ?_ hrest
      cases hes a List.mem_cons_self with
      | taskEnds id e =>
        obtain ⟨q, he, rfl⟩ := Option.map_eq_some_iff.mp hstep
        exact (Meanwhile.refl _).ends he
      | callback =>
        obtain ⟨q, hc, rfl⟩ := Option.map_eq_some_iff.mp hstep
        exact (Meanwhile.refl _).callback hc

/-- A run of `_reconcile_all` from the end of its fetch is such a call; it may await. -/
theorem reconciled_of_run {before : List ℕ} (hd : s.driver = .fetchAll before)
    {rows : List (Row Γ)} {stale fresh : List PyStr}
    (hs : step known s (.fetched (some rows) stale fresh fails) = some s₁) :
    (∃ raised, Reconciled known fails rows s.reg s₁.reg raised) ∨
      ∀ es s₂ fresh fails s₃, (∀ a ∈ es, a.Loop) → (machine known).run s₁ es = some s₂ →
        step known s₂ (.gathered fresh fails) = some s₃ →
        ∃ raised, Reconciled known fails rows s.reg s₃.reg raised := by
  simp only [step, hd] at hs
  split at hs
  · split at hs
    · unfold State.cancelStale at hs
      dsimp only at hs
      split at hs
      · next hstale =>
        split at hs
        · next hnil =>
          refine Or.inl ?_
          unfold State.startMissing at hs
          split at hs
          · next hfresh =>
            obtain rfl := Option.some.inj hs
            exact ⟨_, _, stale, fresh, hstale, Or.inl ⟨hnil, rfl⟩, hfresh, rfl⟩
          · cases hs
        · next hne =>
          obtain rfl := Option.some.inj hs
          refine Or.inr fun es s₂ fresh fails s₃ hes hrun hg => ?_
          obtain ⟨reg, rfl, hwait⟩ := run_loop hes hrun
          simp only [step] at hg
          split at hg
          · next hgathered =>
            unfold State.startMissing at hg
            split at hg
            · next hfresh =>
              obtain rfl := Option.some.inj hg
              exact ⟨_, reg, stale, fresh, hstale, Or.inr ⟨hne, hwait, hgathered⟩, hfresh, rfl⟩
            · cases hg
          · cases hg
      · cases hs
    · cases hs
  · cases hs

/-- The driver has just begun the fetch of `_reload_tenant`. -/
def Selecting (r : Registry Γ) (tenantId : PyStr) (s : State Γ) : Prop :=
  s.driver = .fetchTenant tenantId s.reg.callbacks ∧
    Joined (r.cancelTasks (r.tenantKeys tenantId)) s.reg

/-- After a message the driver begins the fetch, at once or when the tasks have ended. -/
theorem selecting_of_run (hd : s.driver = .listening) {tenantId : PyStr}
    (hlen : 36 ≤ tenantId.length) (hs : step known s (.message tenantId) = some s₁) :
    Selecting s.reg tenantId s₁ ∨
      ∀ es s₂ fresh fails s₃, (∀ a ∈ es, a.Loop) → (machine known).run s₁ es = some s₂ →
        step known s₂ (.gathered fresh fails) = some s₃ → Selecting s.reg tenantId s₃ := by
  simp only [step, hd] at hs
  obtain rfl := Option.some.inj hs
  rw [State.reloadTenant, if_neg (by omega)]
  dsimp only
  split
  · next hnil => exact Or.inl ⟨rfl, Or.inl ⟨hnil, rfl⟩⟩
  · next hne =>
    refine Or.inr fun es s₂ fresh fails s₃ hes hrun hg => ?_
    obtain ⟨reg, rfl, hwait⟩ := run_loop hes hrun
    simp only [step] at hg
    split at hg
    · next hgathered =>
      obtain rfl := Option.some.inj hg
      exact ⟨rfl, Or.inr ⟨hne, hwait, hgathered⟩⟩
    · cases hg

/-- A run of `_reload_tenant` is such a call. -/
theorem reloaded_of_run {r : Registry Γ} {tenantId : PyStr} (h : Selecting r tenantId s)
    (hes : ∀ a ∈ es, a.Loop) (hrun : (machine known).run s es = some s₁)
    {table : List (Row Γ)} {rows : Option (List (Row Γ))} {stale fresh : List PyStr}
    (hrows : ∀ fetched ∈ rows, (driverUuid tenantId).isSome = true ∧
      fetched.Perm (table.filter fun row => driverUuid tenantId = some row.tenant))
    (hs : step known s₁ (.fetched rows stale fresh fails) = some s₂) :
    ∃ outcome, Reloaded driverUuid known fails table tenantId r s₂.reg outcome := by
  obtain ⟨hd, hjoined⟩ := h
  obtain ⟨reg, rfl, hwait⟩ := run_loop hes hrun
  simp only [step, hd] at hs
  split at hs
  · next hran =>
    split at hs
    · obtain rfl := Option.some.inj hs
      exact ⟨.fetchRaised, s.reg, reg, hjoined, ⟨hwait, hran⟩, Or.inl ⟨rfl, rfl⟩⟩
    · next fetched =>
      split at hs
      · obtain rfl := Option.some.inj hs
        obtain ⟨hread, hperm⟩ := hrows fetched rfl
        exact ⟨_, s.reg, reg, hjoined, ⟨hwait, hran⟩, Or.inr ⟨fetched, _, hread, hperm, rfl, rfl⟩⟩
      · cases hs
  · cases hs

end Runs

end Omkit.Provider
