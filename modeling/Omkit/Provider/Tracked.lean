import Omkit.Provider.Core

/-!
# Provider tasks are never duplicated or leaked

The invariant of the registry holds in every state of the machine.  A new task is started only when
no callback that would pop its key is left, because every fetch suspends between the pop of a key
and the start of a new task under it.
-/

namespace Omkit.Provider

open Lib

variable {Γ : Type} {known : PyStr → Bool}

/-! ## The invariant of the machine -/

/-- The tasks that a `_cancel_tasks` of the driver has popped and still awaits. -/
def Driver.awaited : Driver Γ → List ℕ
  | .gatherStale ids _ _ | .gatherTenant ids _ => ids
  | _ => []

/-- The tasks that the `_cancel_tasks` of `stop` has popped and still awaits. -/
def Stop.awaited : Stop → List ℕ
  | .gathering ids => ids
  | _ => []

/-- The tasks that a call of `_cancel_tasks` has popped and still awaits. -/
def State.awaited (s : State Γ) : List ℕ := s.driver.awaited ++ s.stop.awaited

/-- What the driver relies on when it goes on: a task that ends during a fetch is still tracked, and
during the `gather` of a reconcile the keys in use are among those that it has seen. -/
def Driver.Ready (r : Registry Γ) : Driver Γ → Prop
  | .fetchAll before | .fetchTenant _ before => ∀ id ∈ r.callbacks,
      id ∈ before ∨ ∃ k e, r.info id = some (k, e) ∧ r.tasks.get? k = some id
  | .gatherStale _ desired current => (∀ k row, desired.get? k = some row → row.key = k) ∧
      ∀ id k e, r.info id = some (k, e) → e = none ∨ id ∈ r.callbacks → k ∈ current
  | _ => True

structure Inv (s : State Γ) : Prop where
  core : Core s.reg s.awaited
  ready : s.driver.Ready s.reg
  /-- `stop` pops the tasks once the driver has ended. -/
  popped : ∀ ids, s.stop = .gathering ids → s.driver = .ended ∧ s.reg.tasks.keys = []
  returned : s.stop = .returned → s.driver = .ended ∧ s.reg.tasks.keys = []

lemma desiredOf_key {rows : List (Row Γ)} {k : PyStr} {row : Row Γ}
    (h : (Registry.desiredOf rows).get? k = some row) : row.key = k := by
  have hmem := Dict.mem_of_mem_ofList (Dict.get?_eq_some.mp h)
  obtain ⟨r, -, hr⟩ := List.mem_map.mp hmem
  simp only [Prod.mk.injEq] at hr
  exact hr.2 ▸ hr.1

lemma Inv.stop_of_running {s : State Γ} (h : Inv s) (hd : s.driver ≠ .ended) :
    s.stop = .notCalled ∨ s.stop = .joining := by
  cases hs : s.stop with
  | notCalled => exact Or.inl rfl
  | joining => exact Or.inr rfl
  | gathering ids => exact absurd (h.popped ids hs).1 hd
  | returned => exact absurd (h.returned hs).1 hd

lemma Inv.core_of_running {s : State Γ} (h : Inv s) (hd : s.driver ≠ .ended) :
    Core s.reg s.driver.awaited := by
  have hcore := h.core
  rcases h.stop_of_running hd with hs | hs <;>
    simpa [State.awaited, hs, Stop.awaited] using hcore

/-- The invariant before `stop` has popped anything. -/
lemma Inv.of_core {s : State Γ} (hstop : s.stop = .notCalled ∨ s.stop = .joining)
    (hcore : Core s.reg s.driver.awaited) (hready : s.driver.Ready s.reg) : Inv s := by
  refine ⟨?_, hready, fun ids hs => ?_, fun hs => ?_⟩
  · rcases hstop with hs | hs <;> simpa [State.awaited, hs, Stop.awaited] using hcore
  · rcases hstop with h | h <;> cases h.symm.trans hs
  · rcases hstop with h | h <;> cases h.symm.trans hs

lemma gathered_done {r : Registry Γ} {ids : List ℕ} (h : r.gathered ids = true) :
    ∀ id ∈ ids, r.done id = true := by
  intro id hid
  have := List.all_eq_true.mp h id hid
  simp only [Bool.and_eq_true] at this
  exact this.1

/-! ## The steps -/

/-- What a step can do. -/
inductive Move (known : PyStr → Bool) (s : State Γ) : State Γ → Prop
  | taskEnds {id : ℕ} {e : Ending} {reg : Registry Γ} (he : s.reg.taskEnds id e = some reg) :
      Move known s { s with reg }
  | callback {reg : Registry Γ} (hc : s.reg.callback = some reg) : Move known s { s with reg }
  /-- The driver goes on without the registry: what it awaited has ended, and it awaits no task. -/
  | goto (d : Driver Γ) (hne : s.driver ≠ .ended)
      (hg : s.reg.gathered s.driver.awaited = true) (haw : d.awaited = []) (hready : d.Ready s.reg) :
      Move known s { s with driver := d }
  | reloadTenant (tenantId : PyStr) (hd : s.driver = .listening) :
      Move known s (s.reloadTenant tenantId)
  | cancelStale {before : List ℕ} {rows : List (Row Γ)} {stale fresh : List PyStr}
      {fails : Row Γ → Bool} {s' : State Γ} (hd : s.driver = .fetchAll before)
      (hran : s.reg.ran before = true)
      (hs : s.cancelStale known rows stale fresh fails = some s') : Move known s s'
  | startMissing {ids : List ℕ} {desired : Dict PyStr (Row Γ)} {current fresh : List PyStr}
      {fails : Row Γ → Bool} {s' : State Γ} (hd : s.driver = .gatherStale ids desired current)
      (hg : s.reg.gathered ids = true)
      (hs : s.startMissing known desired current fresh fails = some s') : Move known s s'
  | startTasks {tenantId : PyStr} {before : List ℕ} (rows : List (Row Γ)) (fails : Row Γ → Bool)
      (hd : s.driver = .fetchTenant tenantId before) (hran : s.reg.ran before = true) :
      Move known s (s.startTasks known fails rows)
  | stop (hs : s.stop = .notCalled) : Move known s { s with stop := .joining }
  /-- `stop` pops every key, and awaits the tasks that have not ended. -/
  | joined {reg : Registry Γ} {ids : List ℕ} (hs : s.stop = .joining) (hd : s.driver = .ended)
      (hpop : s.reg.cancelTasks s.reg.tasks.keys = (reg, ids)) :
      Move known s { s with reg, stop := if ids = [] then .returned else .gathering ids }
  | stopGathered {ids : List ℕ} (hs : s.stop = .gathering ids) (hg : s.reg.gathered ids = true) :
      Move known s { s with stop := .returned }

section Steps

variable {s s' : State Γ}

/-- The driver goes on from an await of no task. -/
lemma Move.idle {s : State Γ} {d₀ d : Driver Γ} (hd : s.driver = d₀) (hne : d₀ ≠ .ended)
    (haw : d₀.awaited = []) (haw' : d.awaited = []) (hready : d.Ready s.reg) :
    Move known s { s with driver := d } :=
  .goto d (hd ▸ hne) (by rw [hd, haw]; rfl) haw' hready

/-- A `_reconcile_all` or `_reload_tenant` ends. -/
lemma Move.jobEnds {s : State Γ} {d₀ : Driver Γ} (hd : s.driver = d₀) (hne : d₀ ≠ .ended)
    (haw : d₀.awaited = []) (raises : Bool) : Move known s (s.jobEnds raises) := by
  refine .idle hd hne haw ?_ ?_
  · cases s.backend with
    | postgres => dsimp only; split <;> rfl
    | redis => dsimp only; split <;> rfl
  · cases s.backend with
    | postgres => dsimp only; split <;> trivial
    | redis => dsimp only; split <;> trivial

lemma move_of_fetched {rows : Option (List (Row Γ))} {stale fresh : List PyStr}
    {fails : Row Γ → Bool} (hs : step known s (.fetched rows stale fresh fails) = some s') :
    Move known s s' := by
  simp only [step] at hs
  split at hs
  · next before hd =>
    split at hs
    · next hran =>
      split at hs
      · obtain rfl := Option.some.inj hs
        exact .jobEnds hd (by simp) rfl true
      · split at hs
        · exact .cancelStale hd hran hs
        · cases hs
    · cases hs
  · next tenantId before hd =>
    split at hs
    · next hran =>
      split at hs
      · obtain rfl := Option.some.inj hs
        exact .jobEnds hd (by simp) rfl true
      · split at hs
        · obtain rfl := Option.some.inj hs
          exact .startTasks _ fails hd hran
        · cases hs
    · cases hs
  · cases hs

lemma move_of_gathered {fresh : List PyStr} {fails : Row Γ → Bool}
    (hs : step known s (.gathered fresh fails) = some s') : Move known s s' := by
  simp only [step] at hs
  split at hs
  · next ids desired current hd =>
    split at hs
    · next hg => exact .startMissing hd hg hs
    · cases hs
  · next ids tenantId hd =>
    split at hs
    · next hg =>
      obtain rfl := Option.some.inj hs
      exact .goto _ (by simp [hd]) (by simpa [hd, Driver.awaited] using hg) rfl
        fun _ hid => Or.inl hid
    · cases hs
  · cases hs

lemma move_of_cancelled (hs : s.cancelled = some s') : Move known s s' := by
  have hends : s.driver ≠ .ended → s.reg.gathered s.driver.awaited = true →
      ∀ d : Driver Γ, d = .ended ∨ d = .closing false → Move known s { s with driver := d } := by
    rintro hne hg _ (rfl | rfl)
    · exact .goto _ hne hg rfl trivial
    · exact .goto _ hne hg rfl trivial
  unfold State.cancelled at hs
  dsimp only at hs
  split at hs
  · cases hs
  · next again hd =>
    obtain rfl := Option.some.inj hs
    exact .idle hd (by simp) rfl rfl trivial
  · next ids desired current hd =>
    split at hs
    · next hg =>
      obtain rfl := Option.some.inj hs
      exact hends (by simp [hd]) (by simpa [hd, Driver.awaited] using hg) _
        (by cases s.backend <;> simp)
    · cases hs
  · next ids tenantId hd =>
    split at hs
    · next hg =>
      obtain rfl := Option.some.inj hs
      exact hends (by simp [hd]) (by simpa [hd, Driver.awaited] using hg) _
        (by cases s.backend <;> simp)
    · cases hs
  · next hended _ hstale htenant =>
    obtain rfl := Option.some.inj hs
    refine hends hended ?_ _ (by cases s.backend <;> simp)
    -- any other await is of no task
    cases hd : s.driver with
    | gatherStale ids desired current => exact absurd hd (hstale ids desired current)
    | gatherTenant ids tenantId => exact absurd hd (htenant ids tenantId)
    | _ => rfl

lemma move_of_step {a : Action Γ} (hs : step known s a = some s') : Move known s s' := by
  cases a with
  | taskEnds id e =>
    obtain ⟨reg, he, rfl⟩ := Option.map_eq_some_iff.mp hs
    exact .taskEnds he
  | callback =>
    obtain ⟨reg, hc, rfl⟩ := Option.map_eq_some_iff.mp hs
    exact .callback hc
  | wake =>
    simp only [step] at hs
    split at hs
    · next hd =>
      obtain rfl := Option.some.inj hs
      split
      · exact .idle hd (by simp) rfl rfl trivial
      · exact .idle hd (by simp) rfl rfl fun _ hid => Or.inl hid
    · cases hs
  | subscribed =>
    simp only [step] at hs
    split at hs
    · next hd =>
      obtain rfl := Option.some.inj hs
      exact .idle hd (by simp) rfl rfl fun _ hid => Or.inl hid
    · cases hs
  | message tenantId =>
    simp only [step] at hs
    split at hs
    · next hd =>
      obtain rfl := Option.some.inj hs
      exact .reloadTenant tenantId hd
    · cases hs
  | disconnected raises =>
    simp only [step] at hs
    split at hs
    · next hd =>
      split at hs
      · obtain rfl := Option.some.inj hs
        exact .idle hd (by simp) rfl rfl trivial
      · cases hs
    · next hd =>
      obtain rfl := Option.some.inj hs
      refine .idle hd (by simp) rfl ?_ ?_ <;> cases raises <;> trivial
    · cases hs
  | slept =>
    simp only [step] at hs
    split at hs
    · next hd =>
      obtain rfl := Option.some.inj hs
      exact .idle hd (by simp) rfl rfl trivial
    · cases hs
  | closed raises =>
    simp only [step] at hs
    split at hs
    · next again hd =>
      obtain rfl := Option.some.inj hs
      refine .idle hd (by simp) rfl ?_ ?_ <;> cases again <;> cases raises <;> trivial
    · cases hs
  | fetched rows stale fresh fails => exact move_of_fetched hs
  | gathered fresh fails => exact move_of_gathered hs
  | cancelled =>
    simp only [step] at hs
    split at hs
    · exact move_of_cancelled hs
    · cases hs
  | stop =>
    simp only [step] at hs
    split at hs
    · next hstop =>
      obtain rfl := Option.some.inj hs
      exact .stop hstop
    · cases hs
  | joined =>
    simp only [step] at hs
    split at hs
    · next hstop hd =>
      obtain rfl := Option.some.inj hs
      exact .joined hstop hd rfl
    · cases hs
  | stopGathered =>
    simp only [step] at hs
    split at hs
    · next ids hstop =>
      split at hs
      · next hg =>
        obtain rfl := Option.some.inj hs
        exact .stopGathered hstop hg
      · cases hs
    · cases hs

/-! ## What a step keeps -/

/-- The driver goes on, with its awaited tasks ended and without the registry. -/
lemma Inv.goto (h : Inv s) (hne : s.driver ≠ .ended)
    (hg : s.reg.gathered s.driver.awaited = true) {d : Driver Γ} (haw : d.awaited = [])
    (hready : d.Ready s.reg) : Inv { s with driver := d } := by
  refine .of_core (h.stop_of_running hne) ?_ hready
  show Core s.reg d.awaited
  rw [haw]
  exact (h.core_of_running hne).forget (gathered_done hg)

/-- The event loop acts on the registry. -/
lemma Inv.env (h : Inv s) {reg : Registry Γ} (hcore : Core reg s.awaited)
    (hready : s.driver.Ready reg) (hkeys : s.reg.tasks.keys = [] → reg.tasks.keys = []) :
    Inv { s with reg } :=
  ⟨hcore, hready, fun ids hs => ⟨(h.popped ids hs).1, hkeys (h.popped ids hs).2⟩,
    fun hs => ⟨(h.returned hs).1, hkeys (h.returned hs).2⟩⟩

lemma Driver.Ready.taskEnds {d : Driver Γ} {r r' : Registry Γ} {id : ℕ} {e : Ending}
    (h : d.Ready r) (hcore : Core r d.awaited) (he : r.taskEnds id e = some r') : d.Ready r' := by
  have hspec := Registry.taskEnds_spec he
  obtain ⟨k₀, hrun⟩ := hspec.was
  have hself := hspec.self k₀ hrun
  -- A task that ends during a fetch is tracked.
  have hfetch : ∀ {before : List ℕ}, d.awaited = [] →
      (∀ i ∈ r.callbacks, i ∈ before ∨ ∃ k e, r.info i = some (k, e) ∧ r.tasks.get? k = some i) →
      ∀ i ∈ r'.callbacks, i ∈ before ∨
        ∃ k e, r'.info i = some (k, e) ∧ r'.tasks.get? k = some i := by
    intro before haw hb i hi
    rw [hspec.callbacks, List.mem_append, List.mem_singleton] at hi
    rw [hspec.tasks]
    by_cases hii : i = id
    · subst hii
      have htr := (hcore.tracked i k₀ hrun).resolve_right (by simp [haw])
      exact Or.inr ⟨k₀, some e, hself, htr⟩
    · rw [hspec.others i hii]
      exact hb i (hi.resolve_right hii)
  cases d with
  | fetchAll before => exact hfetch rfl h
  | fetchTenant tenantId before => exact hfetch rfl h
  | gatherStale ids desired current =>
    refine ⟨h.1, fun i k e' hi hor => ?_⟩
    by_cases hii : i = id
    · subst hii
      obtain ⟨rfl, -⟩ : k = k₀ ∧ _ := by simpa using hi.symm.trans hself
      exact h.2 i k none hrun (Or.inl rfl)
    · rw [hspec.others i hii] at hi
      refine h.2 i k e' hi (hor.imp_right fun hm => ?_)
      rw [hspec.callbacks, List.mem_append, List.mem_singleton] at hm
      exact hm.resolve_right hii
  | _ => trivial

lemma Driver.Ready.callback {d : Driver Γ} {r r' : Registry Γ} {awaited : List ℕ} (h : d.Ready r)
    (hcore : Core r awaited) (hc : r.callback = some r') : d.Ready r' := by
  obtain ⟨id, k₀, e₀, hcb, hid, hinfo, htasks⟩ := Registry.callback_spec hc
  have hnodup : (id :: r'.callbacks).Nodup := hcb ▸ hcore.nodup
  have hne : ∀ i ∈ r'.callbacks, i ≠ id := fun i hi hii =>
    (List.nodup_cons.mp hnodup).1 (hii ▸ hi)
  -- The callback pops its own task only.
  have hfetch : ∀ {before : List ℕ},
      (∀ i ∈ r.callbacks, i ∈ before ∨ ∃ k e, r.info i = some (k, e) ∧ r.tasks.get? k = some i) →
      ∀ i ∈ r'.callbacks, i ∈ before ∨
        ∃ k e, r'.info i = some (k, e) ∧ r'.tasks.get? k = some i := by
    intro before hb i hi
    refine (hb i (by simp [hcb, hi])).imp_right fun ⟨k, e, hk, hget⟩ => ⟨k, e, ?_, ?_⟩
    · rw [hinfo, hk]
    · rw [htasks]
      split
      · rw [Dict.get?_pop, if_neg, hget]
        rintro rfl
        obtain ⟨k', e', hk', huniq⟩ := hcore.settled id (by simp [hcb])
        obtain ⟨rfl, -⟩ : k' = k ∧ _ := by simpa using hk'.symm.trans hid
        exact hne i hi (huniq i hget)
      · exact hget
  cases d with
  | fetchAll before => exact hfetch h
  | fetchTenant tenantId before => exact hfetch h
  | gatherStale ids desired current =>
    refine ⟨h.1, fun i k e' hi hor => ?_⟩
    rw [hinfo] at hi
    exact h.2 i k e' hi (hor.imp_right fun hm => by simp [hcb, hm])
  | _ => trivial

lemma Inv.taskEnds (h : Inv s) {id : ℕ} {e : Ending} {reg : Registry Γ}
    (he : s.reg.taskEnds id e = some reg) : Inv { s with reg } := by
  refine h.env (h.core.taskEnds he) ?_ ?_
  · by_cases hd : s.driver = .ended
    · rw [hd]
      trivial
    · exact h.ready.taskEnds (h.core_of_running hd) he
  · rw [(Registry.taskEnds_spec he).tasks]
    exact fun hk => hk

lemma Inv.callback (h : Inv s) {reg : Registry Γ} (hc : s.reg.callback = some reg) :
    Inv { s with reg } := by
  refine h.env (h.core.callback hc) (h.ready.callback h.core hc) fun hk => ?_
  obtain ⟨id, k₀, e₀, -, -, -, htasks⟩ := Registry.callback_spec hc
  rw [List.eq_nil_iff_forall_not_mem] at hk ⊢
  intro k hmem
  rw [htasks] at hmem
  split at hmem
  · exact hk k (Dict.mem_keys_pop.mp hmem).1
  · exact hk k hmem

lemma Inv.reloadTenant (h : Inv s) (hd : s.driver = .listening) (tenantId : PyStr) :
    Inv (s.reloadTenant tenantId) := by
  have hne : s.driver ≠ .ended := by simp [hd]
  unfold State.reloadTenant
  split
  · exact h
  · have hcore := (h.core_of_running hne).cancelTasks (s.reg.tenantKeys tenantId)
    have haw : s.driver.awaited = [] := by simp [hd, Driver.awaited]
    rw [haw, List.append_nil] at hcore
    generalize s.reg.cancelTasks (s.reg.tenantKeys tenantId) = popped at hcore ⊢
    obtain ⟨reg, ids⟩ := popped
    by_cases hnil : ids = []
    · subst hnil
      exact .of_core (h.stop_of_running hne) hcore fun _ hid => Or.inl hid
    · simp only [hnil, if_false]
      exact .of_core (h.stop_of_running hne) hcore trivial

/-- New tasks are started. -/
lemma Inv.startTasks (hstop : s.stop = .notCalled ∨ s.stop = .joining) (hcore : Core s.reg [])
    {rows : List (Row Γ)} (hclear : Clear s.reg rows) (fails : Row Γ → Bool) :
    Inv (s.startTasks known fails rows) := by
  refine .of_core hstop ?_ ?_
  · have hnew : Core (s.reg.startTasks known fails rows).1 [] := hcore.startTasks hclear
    have haw : (s.startTasks known fails rows).driver.awaited = [] := by
      simp only [State.startTasks, State.jobEnds]
      cases s.backend with
      | postgres => dsimp only; split <;> rfl
      | redis => dsimp only; split <;> rfl
    rw [haw]
    exact hnew
  · simp only [State.startTasks, State.jobEnds]
    cases s.backend with
    | postgres => dsimp only; split <;> trivial
    | redis => dsimp only; split <;> trivial

lemma Inv.startMissing (hstop : s.stop = .notCalled ∨ s.stop = .joining) (hcore : Core s.reg [])
    {desired : Dict PyStr (Row Γ)} {current fresh : List PyStr} {fails : Row Γ → Bool}
    (hdesired : ∀ k row, desired.get? k = some row → row.key = k)
    (hcurrent : ∀ id ∈ s.reg.callbacks, ∀ k e, s.reg.info id = some (k, e) → k ∈ current)
    (hs : s.startMissing known desired current fresh fails = some s') :
    Inv s' := by
  unfold State.startMissing at hs
  split at hs
  · next hperm =>
    obtain rfl := Option.some.inj hs
    refine .startTasks hstop hcore (fun row hrow id hid e he => ?_) fails
    obtain ⟨k, hk, hget⟩ := List.mem_filterMap.mp hrow
    obtain rfl := hdesired k row hget
    have hnew : row.key ∉ current := by
      simpa using (List.mem_filter.mp (hperm.mem_iff.mp hk)).2
    exact absurd (hcurrent id hid row.key e he) hnew
  · cases hs

/-- When the fetch of a reconcile has returned, whatever is unfinished, or has its callback still to
run, has its key among the current ones. -/
lemma Driver.Ready.current {r : Registry Γ} {before : List ℕ}
    (h : (Driver.fetchAll before).Ready r) (hcore : Core r []) (hran : r.ran before = true)
    (id : ℕ) (k : PyStr) (e : Option Ending) (hid : r.info id = some (k, e))
    (hor : e = none ∨ id ∈ r.callbacks) : k ∈ r.tasks.keys := by
  rcases hor with rfl | hcb
  · have htr := (hcore.tracked id k hid).resolve_right (by simp)
    exact Dict.mem_keys_iff_get?.mpr ⟨id, htr⟩
  · rcases h id hcb with hb | ⟨k', e', hk', hget⟩
    · have := List.all_eq_true.mp hran id hb
      simp [hcb] at this
    · obtain ⟨rfl, -⟩ : k = k' ∧ _ := by simpa using hid.symm.trans hk'
      exact Dict.mem_keys_iff_get?.mpr ⟨id, hget⟩

lemma Inv.cancelStale (h : Inv s) {before : List ℕ} (hd : s.driver = .fetchAll before)
    (hran : s.reg.ran before = true) {rows : List (Row Γ)} {stale fresh : List PyStr}
    {fails : Row Γ → Bool} (hs : s.cancelStale known rows stale fresh fails = some s') :
    Inv s' := by
  have hne : s.driver ≠ .ended := by simp [hd]
  have hstop := h.stop_of_running hne
  have hcore : Core s.reg [] := by simpa [hd, Driver.awaited] using h.core_of_running hne
  have hready : (Driver.fetchAll before).Ready s.reg := hd ▸ h.ready
  have hcurrent := hready.current hcore hran
  have hspec := s.reg.cancelTasks_spec stale
  have hpopped := hcore.cancelTasks stale
  rw [List.append_nil] at hpopped
  unfold State.cancelStale at hs
  generalize s.reg.cancelTasks stale = popped at hs hspec hpopped
  obtain ⟨reg, ids⟩ := popped
  dsimp only at hs hspec hpopped
  split at hs
  · split at hs
    · next hnil =>
      refine Inv.startMissing (s := { s with reg }) hstop (hnil ▸ hpopped)
        (fun _ _ => desiredOf_key) (fun id hid k e hk => ?_) hs
      rw [hspec.callbacks] at hid
      rw [hspec.info] at hk
      exact hcurrent id k e hk (Or.inr hid)
    · obtain rfl := Option.some.inj hs
      refine .of_core hstop hpopped ⟨fun _ _ => desiredOf_key, fun id k e hk hor => ?_⟩
      rw [hspec.info] at hk
      rw [hspec.callbacks] at hor
      exact hcurrent id k e hk hor
  · cases hs

/-- The rows of a tenant are fetched: a callback that was scheduled during the fetch is that of a task
which is still tracked, and so its row is skipped. -/
lemma Inv.startFetched (h : Inv s) {tenantId : PyStr} {before : List ℕ}
    (hd : s.driver = .fetchTenant tenantId before) (hran : s.reg.ran before = true)
    (rows : List (Row Γ)) (fails : Row Γ → Bool) : Inv (s.startTasks known fails rows) := by
  have hne : s.driver ≠ .ended := by simp [hd]
  have haw : s.driver.awaited = [] := by simp [hd, Driver.awaited]
  have hready : (Driver.fetchTenant tenantId before).Ready s.reg := hd ▸ h.ready
  refine .startTasks (h.stop_of_running hne) (haw ▸ h.core_of_running hne)
    (fun row _ id hid e he => ?_) fails
  rcases hready id hid with hb | ⟨k, e', hk, hget⟩
  · have := List.all_eq_true.mp hran id hb
    simp [hid] at this
  · obtain ⟨rfl, -⟩ : row.key = k ∧ _ := by simpa using he.symm.trans hk
    exact Dict.mem_keys_iff_get?.mpr ⟨id, hget⟩

lemma Inv.startGathered (h : Inv s) {ids : List ℕ} {desired : Dict PyStr (Row Γ)}
    {current fresh : List PyStr} {fails : Row Γ → Bool}
    (hd : s.driver = .gatherStale ids desired current) (hg : s.reg.gathered ids = true)
    (hs : s.startMissing known desired current fresh fails = some s') : Inv s' := by
  have hne : s.driver ≠ .ended := by simp [hd]
  have haw : s.driver.awaited = ids := by simp [hd, Driver.awaited]
  have hcore := haw ▸ h.core_of_running hne
  have hready : (Driver.gatherStale ids desired current).Ready s.reg := hd ▸ h.ready
  exact .startMissing (h.stop_of_running hne) (hcore.forget (gathered_done hg)) hready.1
    (fun id hid k e hk => hready.2 id k e hk (Or.inr hid)) hs

lemma Inv.joined (h : Inv s) {reg : Registry Γ} {ids : List ℕ} (hstop : s.stop = .joining)
    (hd : s.driver = .ended) (hpop : s.reg.cancelTasks s.reg.tasks.keys = (reg, ids)) :
    Inv { s with reg, stop := if ids = [] then .returned else .gathering ids } := by
  have hcore : Core s.reg [] := by
    simpa [State.awaited, hstop, hd, Driver.awaited, Stop.awaited] using h.core
  have hspec := s.reg.cancelTasks_spec s.reg.tasks.keys
  have hpopped := hcore.cancelTasks s.reg.tasks.keys
  rw [List.append_nil] at hpopped
  rw [hpop] at hspec hpopped
  dsimp only at hspec hpopped
  have hempty : reg.tasks.keys = [] := by
    refine List.eq_nil_iff_forall_not_mem.mpr fun k hk => ?_
    obtain ⟨id, hid⟩ := Dict.mem_keys_iff_get?.mp hk
    rw [hspec.get] at hid
    split at hid
    · cases hid
    · next hnot => exact hnot (Dict.mem_keys_iff_get?.mpr ⟨id, hid⟩)
  refine ⟨?_, by rw [hd]; trivial, fun _ _ => ⟨hd, hempty⟩, fun _ => ⟨hd, hempty⟩⟩
  -- `stop` returns at once if every task has ended
  simp only [State.awaited, hd, Driver.awaited, List.nil_append]
  split
  · next hnil =>
    rw [hnil] at hpopped
    exact hpopped
  · exact hpopped

lemma Inv.stopGathered (h : Inv s) {ids : List ℕ} (hstop : s.stop = .gathering ids)
    (hg : s.reg.gathered ids = true) : Inv { s with stop := .returned } := by
  obtain ⟨hd, hkeys⟩ := h.popped ids hstop
  have hcore : Core s.reg ids := by
    simpa [State.awaited, hstop, hd, Driver.awaited, Stop.awaited] using h.core
  refine ⟨?_, h.ready, by rintro _ ⟨⟩, fun _ => ⟨hd, hkeys⟩⟩
  simpa [State.awaited, hd, Driver.awaited, Stop.awaited] using hcore.forget (gathered_done hg)

lemma Inv.move (h : Inv s) (hm : Move known s s') : Inv s' := by
  cases hm with
  | taskEnds he => exact h.taskEnds he
  | callback hc => exact h.callback hc
  | goto d hne hg haw hready => exact h.goto hne hg haw hready
  | reloadTenant tenantId hd => exact h.reloadTenant hd tenantId
  | cancelStale hd hran hs => exact h.cancelStale hd hran hs
  | startMissing hd hg hs => exact h.startGathered hd hg hs
  | startTasks rows fails hd hran => exact h.startFetched hd hran rows fails
  | stop hs =>
    refine ⟨?_, h.ready, fun _ hs => (nomatch hs), fun hs => nomatch hs⟩
    simpa [State.awaited, hs, Stop.awaited] using h.core
  | joined hs hd hpop => exact h.joined hs hd hpop
  | stopGathered hs hg => exact h.stopGathered hs hg

/-- Every step keeps the invariant. -/
theorem Inv.step {a : Action Γ} (h : Inv s) (hs : step known s a = some s') : Inv s' :=
  h.move (move_of_step hs)

end Steps

lemma Inv.start {s : State Γ} {backend : Backend} {fails : Row Γ → Bool} {rows : List (Row Γ)}
    (hs : start known backend fails rows = some s) : Inv s := by
  have hcore : Core ((Registry.empty : Registry Γ).startTasks known fails rows).1 [] :=
    Core.empty.startTasks fun row _ id hid => by simp [Registry.empty] at hid
  unfold Provider.start at hs
  split at hs
  · cases hs
  · next reg hreg =>
    obtain rfl := Option.some.inj hs
    rw [hreg] at hcore
    refine .of_core (Or.inl rfl) ?_ ?_
    · cases backend <;> exact hcore
    · cases backend <;> trivial

theorem inv_of_reachable {s : State Γ} (h : (machine known).Reachable s) : Inv s :=
  h.invariant (fun _ ⟨_, _, _, _, hs⟩ => .start hs) fun _ _ _ hi hs => hi.step hs

/-- **Provider tasks are never duplicated or leaked.**  There is at most one unfinished task for
each tenant and name, an unfinished task is tracked under its own key or awaited by the
`_cancel_tasks` that has popped it, and no task is unfinished once `stop` has returned. -/
theorem tasks_tracked {s : State Γ} (h : (machine known).Reachable s) :
    (∀ {i j t u}, s.reg.Unfinished i t → s.reg.Unfinished j u → t.row.tenant = u.row.tenant →
      t.row.name = u.row.name → i = j) ∧
    (∀ {id t}, s.reg.Unfinished id t →
      s.reg.tasks.get? t.key = some id ∨ s.reg.tasks.get? t.key = none ∧ id ∈ s.awaited) ∧
    (s.stop = .returned → ∀ id t, ¬ s.reg.Unfinished id t) := by
  have hinv := inv_of_reachable h
  refine ⟨fun {i j t u} ht hu htenant hname => ?_, fun {id t} ht => ?_, fun hret id t ht => ?_⟩
  · have hkey : u.key = t.key := by
      simp only [Task.key, Row.key, Row.tenantId, htenant, hname]
    exact hinv.core.unique i j t.key ht.info (hkey ▸ hu.info)
  · rcases hinv.core.tracked id t.key ht.info with htr | haw
    · exact Or.inl htr
    · exact Or.inr ⟨hinv.core.popped id haw t.key none ht.info, haw⟩
  · obtain ⟨hd, hkeys⟩ := hinv.returned hret
    have haw : s.awaited = [] := by simp [State.awaited, hd, hret, Driver.awaited, Stop.awaited]
    have htr := (hinv.core.tracked id t.key ht.info).resolve_right (by simp [haw])
    have hmem := Dict.mem_keys_iff_get?.mpr ⟨id, htr⟩
    simp [hkeys] at hmem

section Example

/-- A row of the tenant 1. -/
def sampleRow : Row Unit := ⟨1, one_lt_uuids, text "weather", ()⟩

/-- The row is no longer enabled at the first poll, and `stop` is called during its `gather`. -/
def stopRun : List (Action Unit) :=
  [.wake, .fetched (some []) [sampleRow.key] [] fun _ => false, .stop, .taskEnds 0 .cancelled,
    .callback, .cancelled, .joined]

lemma stopRun_ends :
    (((start (fun _ => true) .postgres (fun _ => false) [sampleRow]).bind fun s =>
      (machine fun _ => true).run s stopRun).map fun s =>
        (s.reg.created.length, match s.stop with
          | .returned => true
          | _ => false)) = some (1, true) := by
  decide +kernel

theorem stopped_tasks_tracked : ∃ s : State Unit, s.reg.created.length = 1 ∧
    s.stop = .returned ∧ ∀ id t, ¬ s.reg.Unfinished id t := by
  obtain ⟨s, hrun, hs⟩ := Option.map_eq_some_iff.mp stopRun_ends
  obtain ⟨s₀, hstart, hrun⟩ := Option.bind_eq_some_iff.mp hrun
  simp only [Prod.mk.injEq] at hs
  have hinit : (machine fun _ => true).Reachable s₀ :=
    .init ⟨.postgres, _, [sampleRow], by decide, hstart⟩
  have hstop : s.stop = .returned := by
    have := hs.2
    split at this
    · assumption
    · cases this
  exact ⟨s, hs.1, hstop, (tasks_tracked (hinit.run hrun)).2.2 hstop⟩

end Example

end Omkit.Provider
