import Omkit.Provider.Tracked

/-!
# The two backends on one snapshot

`_reconcile_all` and `_reload_tenant` as whole runs from a registry to a registry, over one snapshot
of the enabled rows.  While they await, the tasks that they await end and done callbacks run.  A
reload of every tenant leaves one running task for each row, with the configuration of the row; a
reconcile leaves the tasks whose keys are still wanted as they are.
-/

namespace Omkit.Provider

open Lib

variable {Γ : Type} {known : PyStr → Bool}

/-! ## Whole runs -/

/-- What happens to a registry while the tasks `ids` are awaited. -/
inductive Awaiting (ids : List ℕ) : Registry Γ → Registry Γ → Prop
  | refl (r : Registry Γ) : Awaiting ids r r
  | ends {q r r' : Registry Γ} {id : ℕ} {e : Ending} (h : Awaiting ids q r) (hid : id ∈ ids)
      (he : r.taskEnds id e = some r') : Awaiting ids q r'
  | callback {q r r' : Registry Γ} (h : Awaiting ids q r) (hc : r.callback = some r') :
      Awaiting ids q r'

/-- `await asyncio.gather(*tasks)` in `_cancel_tasks`, if there is a task. -/
def Gather (popped : Registry Γ × List ℕ) (r : Registry Γ) : Prop :=
  popped.2 = [] ∧ r = popped.1 ∨
    popped.2 ≠ [] ∧ Awaiting popped.2 popped.1 r ∧ r.gathered popped.2 = true

/-- A fetch: the done callbacks that are scheduled when it begins run before it ends. -/
def Fetch (r r' : Registry Γ) : Prop := Awaiting [] r r' ∧ r'.ran r.callbacks = true

/-- A run of `_reconcile_all` that does not raise. -/
def ReconcileAll (known : PyStr → Bool) (rows : List (Row Γ)) (r r' : Registry Γ) : Prop :=
  ∃ (r₁ r₂ : Registry Γ) (stale fresh : List PyStr) (fails : Row Γ → Bool), Fetch r r₁ ∧
    stale.Perm (Registry.difference r₁.tasks.keys (Registry.desiredOf rows).keys) ∧
    Gather (r₁.cancelTasks stale) r₂ ∧
    fresh.Perm (Registry.difference (Registry.desiredOf rows).keys r₁.tasks.keys) ∧
    r₂.startTasks known fails (fresh.filterMap (Registry.desiredOf rows).get?) = (r', none)

/-- A run of `_reload_tenant` that does not raise. -/
def ReloadTenant (known : PyStr → Bool) (rows : List (Row Γ)) (tenantId : PyStr)
    (r r' : Registry Γ) : Prop :=
  36 ≤ tenantId.length ∧
    ∃ (r₁ r₂ : Registry Γ) (fetched : List (Row Γ)) (fails : Row Γ → Bool),
    Gather (r.cancelTasks (r.tenantKeys tenantId)) r₁ ∧ Fetch r₁ r₂ ∧
    fetched.Perm (rows.filter fun row => driverUuid tenantId = some row.tenant) ∧
    r₂.startTasks known fails fetched = (r', none)

/-- Runs of `_reload_tenant` for a list of tenants. -/
def ReloadAll (known : PyStr → Bool) (rows : List (Row Γ)) :
    List PyStr → Registry Γ → Registry Γ → Prop
  | [], r, r' => r' = r
  | tenantId :: tenants, r, r' =>
    ∃ q, ReloadTenant known rows tenantId r q ∧ ReloadAll known rows tenants q r'

namespace Registry

/-- A task runs under a key, and its instance was constructed with a configuration. -/
def Running (r : Registry Γ) (k : PyStr) (config : Γ) : Prop :=
  ∃ id t, r.Unfinished id t ∧ t.key = k ∧ t.row.config = config

/-- What `_tasks` holds under a key: how the task has ended, and its configuration. -/
def entry (r : Registry Γ) (k : PyStr) : Option (Option Ending × Γ) :=
  (r.tasks.get? k).bind fun id => (r.created[id]?).map fun t => (t.ending, t.row.config)

/-- Tasks keep their rows. -/
def Keeps (r r' : Registry Γ) : Prop :=
  ∀ (j : ℕ) (t : Task Γ), r.created[j]? = some t →
    ∃ t' : Task Γ, r'.created[j]? = some t' ∧ t'.row = t.row

lemma Keeps.refl (r : Registry Γ) : r.Keeps r := fun _ t ht => ⟨t, ht, rfl⟩

lemma Keeps.trans {q r r' : Registry Γ} (h : q.Keeps r) (h' : r.Keeps r') : q.Keeps r' := by
  intro j t ht
  obtain ⟨u, hu, hrow⟩ := h j t ht
  obtain ⟨v, hv, hrow'⟩ := h' j u hu
  exact ⟨v, hv, hrow'.trans hrow⟩

lemma keeps_modify {r : Registry Γ} {tasks : Dict PyStr ℕ} {callbacks : List ℕ} {id : ℕ}
    {f : Task Γ → Task Γ} (hf : ∀ t, (f t).row = t.row) :
    r.Keeps ⟨tasks, r.created.modify id f, callbacks⟩ := by
  intro j t ht
  refine ⟨if id = j then f t else t, ?_, ?_⟩
  · simp only [List.getElem?_modify, ht]
    by_cases h : id = j <;> simp [h]
  · by_cases h : id = j <;> simp [h, hf]

lemma keeps_taskEnds {r r' : Registry Γ} {id : ℕ} {e : Ending} (h : r.taskEnds id e = some r') :
    r.Keeps r' := by
  unfold taskEnds at h
  split at h
  · cases h
  · obtain rfl := Option.some.inj h
    exact keeps_modify fun _ => rfl

lemma keeps_callback {r r' : Registry Γ} (h : r.callback = some r') : r.Keeps r' := by
  unfold callback at h
  split at h
  · cases h
  · obtain ⟨t, -, rfl⟩ := Option.map_eq_some_iff.mp h
    rw [onTaskDone_eq]
    exact Keeps.refl r

lemma keeps_cancelTasks (r : Registry Γ) (keys : List PyStr) :
    r.Keeps (r.cancelTasks keys).1 := by
  induction keys generalizing r with
  | nil => exact .refl r
  | cons k keys ih =>
    rw [cancelTasks]
    split
    · exact ih { r with tasks := r.tasks.pop k }
    · next id _ =>
      split
      · exact ih { r with tasks := r.tasks.pop k }
      · have hcancel : r.Keeps ({ r with tasks := r.tasks.pop k }.cancel id) :=
          keeps_modify fun _ => rfl
        exact hcancel.trans (ih _)

/-- A key that holds the same task in both registries. -/
lemma entry_congr {r r' : Registry Γ} (hkeeps : r.Keeps r') {k : PyStr}
    (htasks : r'.tasks.get? k = r.tasks.get? k)
    (hinfo : ∀ id, r.tasks.get? k = some id → r'.info id = r.info id) :
    r'.entry k = r.entry k := by
  unfold entry
  rw [htasks]
  cases hk : r.tasks.get? k with
  | none => rfl
  | some id =>
    have hid := hinfo id hk
    unfold info at hid
    cases ht : r.created[id]? with
    | none =>
      rw [ht, Option.map_none, Option.map_eq_none_iff] at hid
      simp [ht, hid]
    | some t =>
      obtain ⟨t', ht', hrow⟩ := hkeeps id t ht
      rw [ht, ht'] at hid
      simp only [Option.map_some, Option.some.injEq, Prod.mk.injEq] at hid
      simp [ht, ht', hrow, hid.2]

lemma entry_none {r : Registry Γ} {k : PyStr} (h : r.tasks.get? k = none) : r.entry k = none := by
  simp [entry, h]

end Registry

lemma Core.entry_eq_some {r : Registry Γ} {awaited : List ℕ} (h : Core r awaited) {k : PyStr}
    {e : Option Ending} {c : Γ} (he : r.entry k = some (e, c)) :
    ∃ (id : ℕ) (t : Task Γ), r.tasks.get? k = some id ∧ r.created[id]? = some t ∧ t.key = k ∧
      t.ending = e ∧ t.row.config = c := by
  obtain ⟨id, hk, he⟩ := Option.bind_eq_some_iff.mp he
  obtain ⟨t, ht, hp⟩ := Option.map_eq_some_iff.mp he
  simp only [Prod.mk.injEq] at hp
  obtain ⟨e', hinfo⟩ := h.named k id hk
  obtain ⟨u, hu, hkey, -⟩ := Registry.info_eq_some.mp hinfo
  obtain rfl := Option.some.inj (ht.symm.trans hu)
  exact ⟨id, t, hk, ht, hkey, hp⟩

/-- With nothing awaited, a running task is one that `_tasks` holds. -/
lemma Core.running_iff {r : Registry Γ} (h : Core r []) {k : PyStr} {c : Γ} :
    r.Running k c ↔ r.entry k = some (none, c) := by
  constructor
  · rintro ⟨id, t, ht, rfl, rfl⟩
    have htr := (h.tracked id t.key ht.info).resolve_right (by simp)
    simp [Registry.entry, htr, ht.1, ht.2]
  · intro he
    obtain ⟨id, t, -, ht, hkey, hend, hconfig⟩ := h.entry_eq_some he
    exact ⟨id, t, ⟨ht, hend⟩, hkey, hconfig⟩

/-! ## Awaits -/

/-- What an await leaves: the tasks that are not awaited are as they were, and a key may only lose
a task that had raised. -/
structure Awaited (ids : List ℕ) (q r : Registry Γ) : Prop where
  core : Core r ids
  keeps : q.Keeps r
  callbacks : ∀ i ∈ r.callbacks, i ∈ q.callbacks ∨ i ∈ ids
  info : ∀ j ∉ ids, r.info j = q.info j
  tasks : ∀ k, r.tasks.get? k = q.tasks.get? k ∨
    r.tasks.get? k = none ∧ ∃ id, q.tasks.get? k = some id ∧ q.info id = some (k, some .raised)

lemma Awaiting.spec {ids : List ℕ} {q r : Registry Γ} (h : Awaiting ids q r) (hq : Core q ids) :
    Awaited ids q r := by
  induction h with
  | refl => exact ⟨hq, .refl q, fun _ hi => Or.inl hi, fun _ _ => rfl, fun _ => Or.inl rfl⟩
  | @ends r r' id e _ hid he ih =>
    have hspec := Registry.taskEnds_spec he
    refine ⟨ih.core.taskEnds he, ih.keeps.trans (Registry.keeps_taskEnds he), fun i hi => ?_,
      fun j hj => ?_, fun k => ?_⟩
    · rw [hspec.callbacks, List.mem_append, List.mem_singleton] at hi
      rcases hi with hi | rfl
      · exact ih.callbacks i hi
      · exact Or.inr hid
    · rw [hspec.others j fun hji => hj (hji ▸ hid), ih.info j hj]
    · rw [hspec.tasks]
      exact ih.tasks k
  | @callback r r' _ hc ih =>
    obtain ⟨id, k₀, e₀, hcb, hid, hinfo, htasks⟩ := Registry.callback_spec hc
    refine ⟨ih.core.callback hc, ih.keeps.trans (Registry.keeps_callback hc),
      fun i hi => ih.callbacks i (by simp [hcb, hi]), fun j hj => by rw [hinfo, ih.info j hj],
      fun k => ?_⟩
    by_cases hpop : e₀ = some .raised ∧ k = k₀
    · obtain ⟨rfl, rfl⟩ := hpop
      rw [htasks, if_pos rfl, Dict.get?_pop_self]
      rcases ih.tasks k with hsame | ⟨hnone, hraised⟩
      · cases hk : q.tasks.get? k with
        | none => exact Or.inl rfl
        | some j =>
          -- The key holds the task of the callback, which is not awaited.
          rw [hk] at hsame
          obtain ⟨k', e', hk', huniq⟩ := ih.core.settled id (by simp [hcb])
          obtain ⟨rfl, -⟩ : k' = k ∧ _ := by simpa using hk'.symm.trans hid
          obtain rfl := huniq j hsame
          have hnot : j ∉ ids := fun hj => by
            cases hsame.symm.trans (ih.core.popped j hj k' _ hid)
          exact Or.inr ⟨rfl, j, rfl, (ih.info j hnot).symm.trans hid⟩
      · exact Or.inr ⟨rfl, hraised⟩
    · have hsame : r'.tasks.get? k = r.tasks.get? k := by
        rw [htasks]
        split
        · next he => rw [Dict.get?_pop, if_neg fun hk => hpop ⟨he, hk⟩]
        · rfl
      rw [hsame]
      exact ih.tasks k

lemma Awaited.entry {ids : List ℕ} {q r : Registry Γ} (h : Awaited ids q r) (hq : Core q ids)
    (k : PyStr) : r.entry k = q.entry k ∨
      r.entry k = none ∧ ∃ c, q.entry k = some (some .raised, c) := by
  rcases h.tasks k with hsame | ⟨hnone, id, hk, hinfo⟩
  · refine Or.inl (Registry.entry_congr h.keeps hsame fun id hk => h.info id fun hid => ?_)
    obtain ⟨e, he⟩ := hq.named k id hk
    cases hk.symm.trans (hq.popped id hid k e he)
  · obtain ⟨t, ht, -, he⟩ := Registry.info_eq_some.mp hinfo
    exact Or.inr ⟨Registry.entry_none hnone, t.row.config, by simp [Registry.entry, hk, ht, he]⟩

/-- An await may drop an entry, but not that of a running task. -/
lemma running_of_dropped {x y : Option (Option Ending × Γ)}
    (h : x = y ∨ x = none ∧ ∃ c, y = some (some .raised, c)) {c : Γ} :
    x = some (none, c) ↔ y = some (none, c) := by
  rcases h with rfl | ⟨rfl, c', rfl⟩
  · rfl
  · simp

/-- A key holds a task that has raised only while its callback is scheduled. -/
lemma Core.not_raised {r : Registry Γ} {awaited : List ℕ} (h : Core r awaited)
    (hc : r.callbacks = []) (k : PyStr) (c : Γ) : r.entry k ≠ some (some .raised, c) := by
  intro he
  obtain ⟨id, t, hk, ht, hkey, hend, -⟩ := h.entry_eq_some he
  have hmem := h.crashed k id hk (Registry.info_eq_some.mpr ⟨t, ht, hkey, hend⟩)
  simp [hc] at hmem

lemma Core.mem_keys_iff {r : Registry Γ} {awaited : List ℕ} (h : Core r awaited) {k : PyStr} :
    k ∈ r.tasks.keys ↔ r.entry k ≠ none := by
  rw [Dict.mem_keys_iff_get?]
  constructor
  · rintro ⟨id, hk⟩
    obtain ⟨e, hinfo⟩ := h.named k id hk
    obtain ⟨t, ht, -⟩ := Registry.info_eq_some.mp hinfo
    simp [Registry.entry, hk, ht]
  · intro hne
    by_contra hnot
    refine hne (Registry.entry_none (Option.eq_none_iff_forall_ne_some.mpr fun id hk => ?_))
    exact hnot ⟨id, hk⟩

/-- A fetch leaves no scheduled callback, and so no task that has raised. -/
lemma Fetch.spec {q r : Registry Γ} (h : Fetch q r) (hq : Core q []) :
    Core r [] ∧ r.callbacks = [] ∧ ∀ k, r.entry k = q.entry k ∨
      r.entry k = none ∧ ∃ c, q.entry k = some (some .raised, c) := by
  have hspec := h.1.spec hq
  refine ⟨hspec.core, ?_, hspec.entry hq⟩
  refine List.eq_nil_iff_forall_not_mem.mpr fun i hi => ?_
  have hran := List.all_eq_true.mp h.2 i ((hspec.callbacks i hi).resolve_right (by simp))
  simp [hi] at hran

/-- `_cancel_tasks`: its keys hold nothing, and the others are as they were. -/
lemma Gather.spec {q r : Registry Γ} {keys : List PyStr} (h : Gather (q.cancelTasks keys) r)
    (hq : Core q []) :
    Core r [] ∧ (∀ i ∈ r.callbacks, i ∈ q.callbacks) ∧ (∀ k ∈ keys, r.entry k = none) ∧
      ∀ k ∉ keys, r.entry k = q.entry k ∨
        r.entry k = none ∧ ∃ c, q.entry k = some (some .raised, c) := by
  have hspec := q.cancelTasks_spec keys
  have hcore := hq.cancelTasks keys
  have hkeeps := q.keeps_cancelTasks keys
  rw [List.append_nil] at hcore
  generalize q.cancelTasks keys = popped at h hspec hcore hkeeps
  obtain ⟨p, ids⟩ := popped
  dsimp only at hspec hcore hkeeps
  have hin : ∀ k ∈ keys, p.entry k = none := fun k hk =>
    Registry.entry_none (by simp [hspec.get, hk])
  have hout : ∀ k ∉ keys, p.entry k = q.entry k := fun k hk =>
    Registry.entry_congr hkeeps (by simp [hspec.get, hk]) fun id _ => hspec.info id
  rcases h with ⟨hnil, rfl⟩ | ⟨-, hwait, hg⟩
  · obtain rfl : ids = [] := hnil
    exact ⟨hcore, fun i hi => hspec.callbacks ▸ hi, hin, fun k hk => Or.inl (hout k hk)⟩
  · have haw := hwait.spec hcore
    refine ⟨haw.core.forget (gathered_done hg), fun i hi => ?_, fun k hk => ?_, fun k hk => ?_⟩
    · rcases haw.callbacks i hi with hold | hnew
      · exact hspec.callbacks ▸ hold
      · have := List.all_eq_true.mp hg i hnew
        simp [hi] at this
    · rcases haw.entry hcore k with hsame | ⟨hnone, -⟩
      · exact hsame.trans (hin k hk)
      · exact hnone
    · rw [← hout k hk]
      exact haw.entry hcore k

/-- A successful loop of `_start_task` over rows of known classes. -/
lemma startTasks_entry {r r' : Registry Γ} {fails : Row Γ → Bool} {rows : List (Row Γ)}
    (hr : Core r []) (hclear : r.callbacks = []) (hknown : ∀ row ∈ rows, known row.name = true)
    (hnodup : (rows.map Row.key).Nodup) (h : r.startTasks known fails rows = (r', none)) :
    Core r' [] ∧ (∀ row ∈ rows, r'.entry row.key = some (none, row.config)) ∧
      ∀ k ∉ rows.map Row.key, r'.entry k = r.entry k := by
  induction rows generalizing r with
  | nil =>
    obtain rfl : r = r' := congrArg Prod.fst h
    exact ⟨hr, by simp, fun _ _ => rfl⟩
  | cons row rows ih =>
    rw [List.map_cons, List.nodup_cons] at hnodup
    rw [Registry.startTasks] at h
    split at h
    · cases h
    · next q hok =>
      have hclear' : Clear r (row :: rows) := fun _ _ id hid => by simp [hclear] at hid
      obtain ⟨hcore, -⟩ := hr.startTask hclear' hok
      rcases Registry.startTask_ok hok with ⟨hunknown, -⟩ | ⟨-, hkey, rfl⟩
      · exact absurd ((hknown row (by simp)).symm.trans hunknown) (by decide)
      obtain ⟨hcore', hrows, hothers⟩ := ih hcore hclear
        (fun row' h' => hknown row' (List.mem_cons_of_mem _ h')) hnodup.2 h
      refine ⟨hcore', fun row' hrow' => ?_, fun k hk => ?_⟩
      · rcases List.mem_cons.mp hrow' with rfl | hrow'
        · rw [hothers _ hnodup.1]
          simp [Registry.entry]
        · exact hrows row' hrow'
      · rw [List.map_cons, List.mem_cons, not_or] at hk
        rw [hothers k hk.2]
        unfold Registry.entry
        rw [Dict.get?_set_ne _ _ hk.1]
        cases hget : r.tasks.get? k with
        | none => rfl
        | some id =>
          obtain ⟨e, he⟩ := hr.named k id hget
          simp [List.getElem?_append_left (Registry.info_lt he)]

/-! ## Rows and keys -/

/-- The key of a row determines its tenant and its name. -/
lemma Row.key_inj {r r' : Row Γ} : r.key = r'.key ↔ r.tenant = r'.tenant ∧ r.name = r'.name := by
  constructor
  · intro h
    simp only [Row.key, Row.tenantId, List.append_assoc] at h
    obtain ⟨htenant, hrest⟩ := List.append_inj h (by simp [uuidText_length])
    have hread := congrArg driverUuid htenant
    rw [driverUuid_uuidText r.tenant_lt, driverUuid_uuidText r'.tenant_lt] at hread
    exact ⟨Option.some.inj hread, List.append_cancel_left hrest⟩
  · rintro ⟨htenant, hname⟩
    simp only [Row.key, Row.tenantId, htenant, hname]

lemma Distinct.keys {rows : List (Row Γ)} (h : Distinct rows) : (rows.map Row.key).Nodup := by
  refine List.Nodup.of_map (fun r => r) ?_
  rw [List.map_id']
  refine List.pairwise_map.mpr ((List.pairwise_map.mp h).imp fun {a b} hne hkey => hne ?_)
  obtain ⟨htenant, hname⟩ := Row.key_inj.mp hkey
  rw [htenant, hname]

lemma Distinct.sublist {rows rows' : List (Row Γ)} (h : Distinct rows) (hs : rows'.Sublist rows) :
    Distinct rows' :=
  List.Nodup.sublist (hs.map _) h

lemma desiredOf_get {rows : List (Row Γ)} (h : Distinct rows) {k : PyStr} {row : Row Γ} :
    (Registry.desiredOf rows).get? k = some row ↔ row ∈ rows ∧ row.key = k := by
  have hnodup : ((rows.map fun r => (r.key, r)).map Prod.fst).Nodup := by
    simpa [List.map_map, Function.comp_def] using h.keys
  rw [Dict.get?_eq_some, Registry.desiredOf, Dict.mem_ofList hnodup, List.mem_map]
  constructor
  · rintro ⟨r, hr, heq⟩
    simp only [Prod.mk.injEq] at heq
    obtain ⟨rfl, rfl⟩ := heq
    exact ⟨hr, rfl⟩
  · rintro ⟨hr, rfl⟩
    exact ⟨row, hr, rfl⟩

lemma mem_desiredOf {rows : List (Row Γ)} {k : PyStr} :
    k ∈ (Registry.desiredOf rows).keys ↔ k ∈ rows.map Row.key := by
  rw [Registry.desiredOf, Dict.mem_keys_ofList, List.map_map]
  rfl

lemma mem_difference {a b : List PyStr} {k : PyStr} :
    k ∈ Registry.difference a b ↔ k ∈ a ∧ k ∉ b := by
  simp [Registry.difference]

/-- `k.startswith(f"{tenant_id}:")`. -/
def OfTenant (tenantId k : PyStr) : Prop := (tenantId ++ text ":").isPrefixOf k = true

lemma mem_tenantKeys {r : Registry Γ} {tenantId k : PyStr} :
    k ∈ r.tenantKeys tenantId ↔ k ∈ r.tasks.keys ∧ OfTenant tenantId k :=
  List.mem_filter

/-- The keys of a tenant are those of its rows. -/
lemma ofTenant_key {n : ℕ} (hn : n < 2 ^ 128) {row : Row Γ} :
    OfTenant (uuidText n) row.key ↔ row.tenant = n := by
  rw [OfTenant, List.isPrefixOf_iff_prefix]
  constructor
  · rintro ⟨rest, h⟩
    simp only [Row.key, Row.tenantId, List.append_assoc] at h
    obtain ⟨htenant, -⟩ := List.append_inj h (by simp [uuidText_length])
    have hread := congrArg driverUuid htenant
    rw [driverUuid_uuidText hn, driverUuid_uuidText row.tenant_lt] at hread
    exact (Option.some.inj hread).symm
  · rintro rfl
    exact List.prefix_append _ _

/-! ## The reconcile -/

/-- What `_tasks` holds under a key once the scheduled callbacks have run. -/
def Registry.kept (r : Registry Γ) (k : PyStr) : Option (Option Ending × Γ) :=
  (r.entry k).filter fun p => p.1 ≠ some .raised

lemma Registry.kept_of_entry {q r : Registry Γ} {k : PyStr}
    (h : r.entry k = q.entry k ∨ r.entry k = none ∧ ∃ c, q.entry k = some (some .raised, c))
    (hne : ∀ c, r.entry k ≠ some (some .raised, c)) : r.entry k = q.kept k := by
  unfold kept
  rcases h with hsame | ⟨hnone, c, hraised⟩
  · rw [← hsame]
    cases he : r.entry k with
    | none => rfl
    | some p =>
      have hp : p.1 ≠ some .raised := fun hp => hne p.2 (by rw [he, ← hp])
      simp [Option.filter, hp]
  · simp [hnone, hraised, Option.filter]

/-- The rows of `desired_keys - current`, in any order. -/
lemma mem_missing {rows : List (Row Γ)} (hrows : Distinct rows) {current fresh : List PyStr}
    (hfresh : fresh.Perm (Registry.difference (Registry.desiredOf rows).keys current))
    {row : Row Γ} : row ∈ fresh.filterMap (Registry.desiredOf rows).get? ↔
      row ∈ rows ∧ row.key ∉ current := by
  rw [List.mem_filterMap]
  constructor
  · rintro ⟨k, hk, hget⟩
    obtain ⟨hrow, rfl⟩ := (desiredOf_get hrows).mp hget
    exact ⟨hrow, (mem_difference.mp (hfresh.mem_iff.mp hk)).2⟩
  · rintro ⟨hrow, hnew⟩
    have hin : row.key ∈ (Registry.desiredOf rows).keys :=
      mem_desiredOf.mpr (List.mem_map_of_mem hrow)
    exact ⟨row.key, hfresh.mem_iff.mpr (mem_difference.mpr ⟨hin, hnew⟩),
      (desiredOf_get hrows).mpr ⟨hrow, rfl⟩⟩

lemma missing_keys_nodup {rows : List (Row Γ)} (hrows : Distinct rows) {fresh : List PyStr}
    (hfresh : fresh.Nodup) :
    ((fresh.filterMap (Registry.desiredOf rows).get?).map Row.key).Nodup := by
  refine hfresh.sublist ?_
  rw [List.map_filterMap]
  clear hfresh
  induction fresh with
  | nil => exact .slnil
  | cons k fresh ih =>
    rw [List.filterMap_cons]
    split
    · exact ih.cons _
    · next k' hk =>
      obtain ⟨row, hget, rfl⟩ := Option.map_eq_some_iff.mp hk
      rw [((desiredOf_get hrows).mp hget).2]
      exact ih.cons_cons _

/-- After a reconcile, `_tasks` holds what it held under the keys of the rows, and a new task under
those that were free. -/
lemma ReconcileAll.entry {rows : List (Row Γ)} {r r' : Registry Γ} (hr : Core r [])
    (hrows : Distinct rows) (hknown : ∀ row ∈ rows, known row.name = true)
    (h : ReconcileAll known rows r r') :
    Core r' [] ∧ (∀ k ∉ rows.map Row.key, r'.entry k = none) ∧
      ∀ row ∈ rows, r'.entry row.key = (r.kept row.key).or (some (none, row.config)) := by
  obtain ⟨r₁, r₂, stale, fresh, fails, hfetch, hstale, hgather, hfresh, hstart⟩ := h
  obtain ⟨hcore₁, hcb₁, hentry₁⟩ := hfetch.spec hr
  obtain ⟨hcore₂, hcb₂, hin₂, hout₂⟩ := hgather.spec hcore₁
  have hkept : ∀ k, r₁.entry k = r.kept k := fun k =>
    Registry.kept_of_entry (hentry₁ k) (hcore₁.not_raised hcb₁ k)
  have hsame : ∀ k ∉ stale, r₂.entry k = r₁.entry k := fun k hk =>
    (hout₂ k hk).resolve_right fun ⟨_, c, hraised⟩ => hcore₁.not_raised hcb₁ k c hraised
  have hmem (row : Row Γ) : row ∈ fresh.filterMap (Registry.desiredOf rows).get? ↔
      row ∈ rows ∧ row.key ∉ r₁.tasks.keys := mem_missing hrows hfresh
  have hnodup : fresh.Nodup :=
    hfresh.nodup_iff.mpr ((Registry.desiredOf rows).nodup_keys.filter _)
  have hcb : r₂.callbacks = [] := List.eq_nil_iff_forall_not_mem.mpr fun i hi => by
    simpa [hcb₁] using hcb₂ i hi
  obtain ⟨hcore', hnew, hold⟩ := startTasks_entry hcore₂ hcb
    (fun row hrow => hknown row ((hmem row).mp hrow).1) (missing_keys_nodup hrows hnodup) hstart
  generalize fresh.filterMap (Registry.desiredOf rows).get? = missing at hmem hnew hold
  refine ⟨hcore', fun k hk => ?_, fun row hrow => ?_⟩
  · rw [hold k fun hin => ?_]
    · by_cases hcur : k ∈ r₁.tasks.keys
      · exact hin₂ k (hstale.mem_iff.mpr
          (mem_difference.mpr ⟨hcur, fun hd => hk (mem_desiredOf.mp hd)⟩))
      · rw [hsame k fun hst => hcur (mem_difference.mp (hstale.mem_iff.mp hst)).1]
        exact not_not.mp fun hne => hcur (hcore₁.mem_keys_iff.mpr hne)
    · obtain ⟨row, hrow, rfl⟩ := List.mem_map.mp hin
      exact hk (List.mem_map_of_mem ((hmem row).mp hrow).1)
  · rw [← hkept]
    by_cases hcur : row.key ∈ r₁.tasks.keys
    · -- The key is in use: its task is neither cancelled nor started again.
      have hst : row.key ∉ stale := fun hst =>
        (mem_difference.mp (hstale.mem_iff.mp hst)).2
          (mem_desiredOf.mpr (List.mem_map_of_mem hrow))
      have hnot : row.key ∉ missing.map Row.key := by
        intro hin
        obtain ⟨row', hrow', heq⟩ := List.mem_map.mp hin
        rw [← heq] at hcur
        exact ((hmem row').mp hrow').2 hcur
      obtain ⟨p, hp⟩ := Option.ne_none_iff_exists'.mp (hcore₁.mem_keys_iff.mp hcur)
      rw [hold _ hnot, hsame _ hst, hp, Option.some_or]
    · have hnone : r₁.entry row.key = none :=
        not_not.mp fun hne => hcur (hcore₁.mem_keys_iff.mpr hne)
      rw [hnew row ((hmem row).mpr ⟨hrow, hcur⟩), hnone, Option.none_or]

/-! ## The reloads -/

/-- The rows of a snapshot, as a map from keys to configurations. -/
def Wanted (rows : List (Row Γ)) (k : PyStr) (c : Γ) : Prop :=
  ∃ row ∈ rows, row.key = k ∧ row.config = c

lemma wanted_iff {rows : List (Row Γ)} (hrows : Distinct rows) {row : Row Γ} (hrow : row ∈ rows)
    {c : Γ} : Wanted rows row.key c ↔ row.config = c := by
  constructor
  · rintro ⟨row', hrow', hkey, rfl⟩
    rw [List.inj_on_of_nodup_map hrows.keys hrow' hrow hkey]
  · exact fun hc => ⟨row, hrow, rfl, hc⟩

/-- A reload leaves the rows of the tenant running, and the other tenants as they were. -/
lemma ReloadTenant.running {rows : List (Row Γ)} {r r' : Registry Γ} {n : ℕ} (hn : n < 2 ^ 128)
    (hr : Core r []) (hrows : Distinct rows) (hknown : ∀ row ∈ rows, known row.name = true)
    (h : ReloadTenant known rows (uuidText n) r r') :
    Core r' [] ∧ ∀ k c,
      (OfTenant (uuidText n) k → (r'.Running k c ↔ Wanted rows k c)) ∧
      (¬ OfTenant (uuidText n) k → (r'.Running k c ↔ r.Running k c)) := by
  obtain ⟨-, r₁, r₂, fetched, fails, hgather, hfetch, hperm, hstart⟩ := h
  obtain ⟨hcore₁, -, hin₁, hout₁⟩ := hgather.spec hr
  obtain ⟨hcore₂, hcb₂, hentry₂⟩ := hfetch.spec hcore₁
  have hmem : ∀ row, row ∈ fetched ↔ row ∈ rows ∧ OfTenant (uuidText n) row.key := by
    intro row
    rw [hperm.mem_iff, List.mem_filter, ofTenant_key hn, driverUuid_uuidText hn,
      decide_eq_true_eq, Option.some.injEq, eq_comm]
  have hnodup : (fetched.map Row.key).Nodup :=
    ((hperm.map Row.key).nodup_iff).mpr (hrows.sublist List.filter_sublist).keys
  obtain ⟨hcore', hnew, hold⟩ := startTasks_entry hcore₂ hcb₂
    (fun row hrow => hknown row ((hmem row).mp hrow).1) hnodup hstart
  clear hperm hstart
  generalize uuidText n = tenantId at hin₁ hout₁ hmem ⊢
  refine ⟨hcore', fun k c => ⟨fun hof => ?_, fun hof => ?_⟩⟩
  · rw [hcore'.running_iff]
    by_cases hk : k ∈ fetched.map Row.key
    · obtain ⟨row, hrow, rfl⟩ := List.mem_map.mp hk
      rw [hnew row hrow, wanted_iff hrows ((hmem row).mp hrow).1]
      simp [eq_comm]
    · have hnone₁ : r₁.entry k = none := by
        by_cases hcur : k ∈ r.tasks.keys
        · exact hin₁ k (mem_tenantKeys.mpr ⟨hcur, hof⟩)
        · have hnone : r.entry k = none := not_not.mp fun hne => hcur (hr.mem_keys_iff.mpr hne)
          rcases hout₁ k fun hin => hcur (mem_tenantKeys.mp hin).1 with hsame | ⟨hdrop, -⟩
          · exact hsame.trans hnone
          · exact hdrop
      have hnone₂ : r₂.entry k = none := (hentry₂ k).elim (fun h => h.trans hnone₁) And.left
      rw [hold k hk, hnone₂]
      refine iff_of_false (by simp) ?_
      rintro ⟨row, hrow, rfl, -⟩
      exact hk (List.mem_map_of_mem ((hmem row).mpr ⟨hrow, hof⟩))
  · have hk : k ∉ fetched.map Row.key := by
      intro hk
      obtain ⟨row, hrow, rfl⟩ := List.mem_map.mp hk
      exact hof ((hmem row).mp hrow).2
    rw [hcore'.running_iff, hold k hk, running_of_dropped (hentry₂ k),
      running_of_dropped (hout₁ k fun hin => hof (mem_tenantKeys.mp hin).2), hr.running_iff]

/-- Reloads of a list of tenants. -/
lemma ReloadAll.running {rows : List (Row Γ)} (hrows : Distinct rows)
    (hknown : ∀ row ∈ rows, known row.name = true) {tenants : List PyStr}
    (htenants : ∀ tenantId ∈ tenants, ∃ n < 2 ^ 128, tenantId = uuidText n) {r r' : Registry Γ}
    (hr : Core r []) (h : ReloadAll known rows tenants r r') :
    ∀ k c, ((∃ tenantId ∈ tenants, OfTenant tenantId k) → (r'.Running k c ↔ Wanted rows k c)) ∧
      ((∀ tenantId ∈ tenants, ¬ OfTenant tenantId k) → (r'.Running k c ↔ r.Running k c)) := by
  induction tenants generalizing r with
  | nil =>
    obtain rfl : r' = r := h
    exact fun k c => ⟨fun ⟨_, hin, _⟩ => (nomatch hin), fun _ => Iff.rfl⟩
  | cons tenantId tenants ih =>
    obtain ⟨q, hfirst, hrest⟩ := h
    obtain ⟨n, hn, htext⟩ := htenants tenantId List.mem_cons_self
    rw [htext] at hfirst
    obtain ⟨hq, hrunning⟩ := hfirst.running hn hr hrows hknown
    rw [← htext] at hrunning
    have hrunning' := ih (fun t ht => htenants t (List.mem_cons_of_mem _ ht)) hq hrest
    refine fun k c => ⟨?_, fun hnot => ?_⟩
    · rintro ⟨t, ht, hof⟩
      by_cases hlater : ∃ t ∈ tenants, OfTenant t k
      · exact (hrunning' k c).1 hlater
      · -- The last reload of the tenant is the first one of the list.
        have hlast : ∀ t ∈ tenants, ¬ OfTenant t k := fun t ht hof => hlater ⟨t, ht, hof⟩
        rcases List.mem_cons.mp ht with rfl | ht
        · exact ((hrunning' k c).2 hlast).trans ((hrunning k c).1 hof)
        · exact absurd hof (hlast t ht)
    · have hlast := (hrunning' k c).2 fun t ht => hnot t (List.mem_cons_of_mem _ ht)
      exact hlast.trans ((hrunning k c).2 (hnot _ (by simp)))

/-! ## Agreement -/

/-- What `_tasks` holds under the key of a row has raised, or it runs with the configuration of the
row. -/
def Registry.UpToDate (r : Registry Γ) (rows : List (Row Γ)) : Prop :=
  ∀ row ∈ rows, ∀ e c, r.entry row.key = some (e, c) →
    e = some .raised ∨ e = none ∧ c = row.config

/-- A reload of every tenant leaves exactly the rows running. -/
lemma ReloadAll.wanted {rows : List (Row Γ)} (hrows : Distinct rows)
    (hknown : ∀ row ∈ rows, known row.name = true) {tenants : List PyStr}
    (htenants : ∀ tenantId ∈ tenants, ∃ n < 2 ^ 128, tenantId = uuidText n) {r r' : Registry Γ}
    (hr : Core r []) (hcover : ∀ id t, r.Unfinished id t → t.row.tenantId ∈ tenants)
    (hcover' : ∀ row ∈ rows, row.tenantId ∈ tenants) (h : ReloadAll known rows tenants r r')
    (k : PyStr) (c : Γ) : r'.Running k c ↔ Wanted rows k c := by
  have hrunning := h.running hrows hknown htenants hr k c
  by_cases hof : ∃ tenantId ∈ tenants, OfTenant tenantId k
  · exact hrunning.1 hof
  · have hout : ∀ row : Row Γ, row.key = k → row.tenantId ∉ tenants := by
      rintro row rfl hin
      exact hof ⟨row.tenantId, hin, (ofTenant_key row.tenant_lt).mpr rfl⟩
    rw [hrunning.2 fun t ht h => hof ⟨t, ht, h⟩]
    refine iff_of_false ?_ ?_
    · rintro ⟨id, t, ht, hkey, -⟩
      exact hout t.row hkey (hcover id t ht)
    · rintro ⟨row, hrow, hkey, -⟩
      exact hout row hkey (hcover' row hrow)

/-- **A reconcile leaves the tasks running that reloads of every tenant would leave, exactly when
what `_tasks` holds is up to date.** -/
theorem agree_iff {s : State Γ} (hs : (machine known).Reachable s) (haw : s.awaited = [])
    {rows : List (Row Γ)} (hrows : Distinct rows) (hknown : ∀ row ∈ rows, known row.name = true)
    {tenants : List PyStr} (htenants : ∀ tenantId ∈ tenants, ∃ n < 2 ^ 128, tenantId = uuidText n)
    (hcover : ∀ id t, s.reg.Unfinished id t → t.row.tenantId ∈ tenants)
    (hcover' : ∀ row ∈ rows, row.tenantId ∈ tenants) {polled reloaded : Registry Γ}
    (hpolled : ReconcileAll known rows s.reg polled)
    (hreloaded : ReloadAll known rows tenants s.reg reloaded) :
    (∀ k c, polled.Running k c ↔ reloaded.Running k c) ↔ s.reg.UpToDate rows := by
  have hr : Core s.reg [] := haw ▸ (inv_of_reachable hs).core
  obtain ⟨hcore, hout, hin⟩ := hpolled.entry hr hrows hknown
  have hwanted := hreloaded.wanted hrows hknown htenants hr hcover hcover'
  simp only [hwanted, hcore.running_iff]
  constructor
  · intro hagree row hrow e c he
    refine or_iff_not_imp_left.mpr fun hne => ?_
    have hnow : polled.entry row.key = some (none, row.config) :=
      (hagree row.key row.config).mpr ⟨row, hrow, rfl, rfl⟩
    have hkept : s.reg.kept row.key = some (e, c) := by simp [Registry.kept, he, hne]
    rw [hin row hrow, hkept, Option.some_or] at hnow
    simpa using hnow
  · intro hup k c
    by_cases hk : k ∈ rows.map Row.key
    · obtain ⟨row, hrow, rfl⟩ := List.mem_map.mp hk
      have hnow : polled.entry row.key = some (none, row.config) := by
        rw [hin row hrow]
        cases hkept : s.reg.kept row.key with
        | none => rfl
        | some p =>
          obtain ⟨he, hne⟩ := Option.filter_eq_some_iff.mp hkept
          obtain ⟨hnone, hconfig⟩ := (hup row hrow p.1 p.2 he).resolve_left (by simpa using hne)
          rw [Option.some_or, ← hnone, ← hconfig]
      rw [hnow, wanted_iff hrows hrow]
      simp [eq_comm]
    · rw [hout k hk]
      refine iff_of_false (by simp) ?_
      rintro ⟨row, hrow, rfl, -⟩
      exact hk (List.mem_map_of_mem hrow)

section Example

/-- The row of the tenant 1, with a configuration. -/
def configured (config : ℕ) : Row ℕ := ⟨1, one_lt_uuids, text "weather", config⟩

/-- Every class is known. -/
def anyClass : PyStr → Bool := fun _ => true

/-- The registry after a start on the row with the configuration 0. -/
def oneTask : Registry ℕ := (Registry.empty.startTasks anyClass (fun _ => false) [configured 0]).1

lemma oneTask_reachable :
    (machine anyClass).Reachable ⟨.postgres, oneTask, .waiting, .notCalled⟩ :=
  .init ⟨.postgres, fun _ => false, [configured 0], by decide, rfl⟩

/-- A reconcile on the same key changes nothing. -/
lemma oneTask_polled (config : ℕ) : ReconcileAll anyClass [configured config] oneTask oneTask := by
  have hkeys : (Registry.desiredOf [configured config]).keys = oneTask.tasks.keys := rfl
  have hnone : Registry.difference oneTask.tasks.keys oneTask.tasks.keys = [] := by decide +kernel
  refine ⟨oneTask, oneTask, [], [], fun _ => false, ⟨.refl _, rfl⟩, ?_, Or.inl ⟨rfl, rfl⟩, ?_, rfl⟩
  · rw [hkeys, hnone]
  · rw [hkeys, hnone]

/-- The task is popped, and it ends. -/
lemma oneTask_gathered : ((oneTask.cancelTasks (oneTask.tenantKeys (uuidText 1))).2,
    (((oneTask.cancelTasks (oneTask.tenantKeys (uuidText 1))).1.taskEnds 0 .cancelled).bind
      Registry.callback).map fun r => (r.gathered [0], r.tasks.keys, r.callbacks)) =
    ([0], some (true, [], [])) := by
  decide +kernel

lemma oneTask_reloaded (config : ℕ) :
    ∃ reloaded, ReloadAll anyClass [configured config] [uuidText 1] oneTask reloaded := by
  have hg := oneTask_gathered
  simp only [Prod.mk.injEq] at hg
  obtain ⟨hids, hrun⟩ := hg
  obtain ⟨r₁, hr₁, hview⟩ := Option.map_eq_some_iff.mp hrun
  obtain ⟨r₀, hends, hcallback⟩ := Option.bind_eq_some_iff.mp hr₁
  simp only [Prod.mk.injEq] at hview
  obtain ⟨hgathered, hkeys, hcallbacks⟩ := hview
  have hfetched : [configured config].Perm
      ([configured config].filter fun row => driverUuid (uuidText 1) = some row.tenant) := by
    rw [driverUuid_uuidText (by norm_num)]
    exact .refl _
  have hstart : ∃ r', r₁.startTasks anyClass (fun _ => false) [configured config] = (r', none) := by
    simp [Registry.startTasks, Registry.startTask, anyClass, hkeys]
  obtain ⟨r', hstart⟩ := hstart
  have hgather : Gather (oneTask.cancelTasks (oneTask.tenantKeys (uuidText 1))) r₁ := by
    refine Or.inr ⟨by simp [hids], ?_, by rw [hids, hgathered]⟩
    rw [hids]
    exact .callback (.ends (.refl _) (by simp) hends) hcallback
  have hfetch : Fetch r₁ r₁ := ⟨.refl _, by simp [Registry.ran, hcallbacks]⟩
  exact ⟨r', r', ⟨(uuidText_length 1).ge, r₁, r₁, _, _, hgather, hfetch, hfetched, hstart⟩, rfl⟩

lemma oneTask_tenants (id : ℕ) (t : Task ℕ) (h : oneTask.Unfinished id t) :
    t.row.tenantId ∈ [uuidText 1] := by
  obtain ⟨ht, -⟩ := h
  cases id with
  | zero =>
    obtain rfl := Option.some.inj ht
    exact List.mem_singleton.mpr rfl
  | succ id => simp [oneTask, Registry.startTasks, Registry.startTask, anyClass, Registry.empty] at ht

theorem unchanged_agree : ∃ reloaded : Registry ℕ,
    ReloadAll anyClass [configured 0] [uuidText 1] oneTask reloaded ∧
      ∀ k c, oneTask.Running k c ↔ reloaded.Running k c := by
  obtain ⟨reloaded, h⟩ := oneTask_reloaded 0
  have hentry : (oneTask.entry (configured 0).key).map (fun x => (x.1.isNone, x.2)) =
      some (true, 0) := by decide +kernel
  refine ⟨reloaded, h, (agree_iff oneTask_reachable rfl (by decide) (by simp [anyClass])
    (by simpa using ⟨1, by norm_num, rfl⟩) oneTask_tenants (by simp [Row.tenantId, configured])
    (oneTask_polled 0) h).mpr fun row hrow e c he => ?_⟩
  obtain rfl := List.mem_singleton.mp hrow
  rw [he] at hentry
  simp only [Option.map_some, Option.some.injEq, Prod.mk.injEq] at hentry
  exact Or.inr ⟨Option.isNone_iff_eq_none.mp hentry.1, hentry.2⟩

/-- The configuration of the row has changed: the reconcile leaves the old one running. -/
theorem changed_config_ignored : ¬ ∀ (s : State ℕ) (rows : List (Row ℕ)) (tenants : List PyStr)
    (polled reloaded : Registry ℕ), (machine anyClass).Reachable s → s.awaited = [] →
    Distinct rows → (∀ id t, s.reg.Unfinished id t → t.row.tenantId ∈ tenants) →
    (∀ row ∈ rows, row.tenantId ∈ tenants) → ReconcileAll anyClass rows s.reg polled →
    ReloadAll anyClass rows tenants s.reg reloaded →
    ∀ k c, polled.Running k c ↔ reloaded.Running k c := by
  intro hall
  obtain ⟨reloaded, h⟩ := oneTask_reloaded 1
  have hr : Core oneTask [] := (inv_of_reachable oneTask_reachable).core
  have hcover : ∀ row ∈ [configured 1], row.tenantId ∈ [uuidText 1] := by
    simp [Row.tenantId, configured]
  have hwanted : reloaded.Running (configured 1).key 1 :=
    (h.wanted (by decide) (by simp [anyClass]) (by simpa using ⟨1, by norm_num, rfl⟩) hr
      oneTask_tenants hcover _ _).mpr ⟨configured 1, by simp, rfl, rfl⟩
  have hpolled := (hall ⟨.postgres, oneTask, .waiting, .notCalled⟩ _ _ oneTask reloaded
    oneTask_reachable rfl (by decide) oneTask_tenants hcover (oneTask_polled 1) h _ _).mpr hwanted
  have hentry : (oneTask.entry (configured 1).key).map Prod.snd = some 0 := by decide +kernel
  rw [hr.running_iff.mp hpolled] at hentry
  simp at hentry

end Example

end Omkit.Provider
