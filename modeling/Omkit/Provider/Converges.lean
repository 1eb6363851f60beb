import Omkit.Provider.Calls

/-!
# A reconcile converges

After `_reconcile_all` the tracked keys are those of the rows of known classes, what was right is
undisturbed and what is no longer wanted has finished.  The sets are those of the moment at which the
fetch has returned: keys whose tasks had raised are gone by then.
-/

namespace Omkit.Provider

open Lib

variable {Γ : Type} {known : PyStr → Bool} {fails : Row Γ → Bool}

/-! ## The tracked tasks -/

namespace Registry

/-- A key holds a task of its name, of a known class, that was not cancelled. -/
def Sound (known : PyStr → Bool) (r : Registry Γ) : Prop :=
  ∀ k id, r.tasks.get? k = some id →
    ∃ t, r.created[id]? = some t ∧ t.key = k ∧ known t.row.name = true ∧ t.cancelling = false

lemma Sound.empty : Sound known (.empty : Registry Γ) := by
  intro k id h
  simp [Registry.empty] at h

lemma Sound.later {q r : Registry Γ} (h : Sound known q) (hl : Later q r) : Sound known r := by
  intro k id hk
  obtain ⟨t, ht, hkey, hknown, hcancel⟩ := h k id (hl.before hk)
  obtain ⟨t', ht', hlater⟩ := hl.created id t ht
  refine ⟨t', ht', ?_, ?_, hlater.cancelling.trans hcancel⟩
  · rw [← hkey, Task.key, Task.key, hlater.row]
  · rw [hlater.row, hknown]

/-- `_cancel_tasks` leaves the tasks that it does not await as they are. -/
lemma cancelTasks_created (r : Registry Γ) (keys : List PyStr) {j : ℕ}
    (hj : j ∉ (r.cancelTasks keys).2) : (r.cancelTasks keys).1.created[j]? = r.created[j]? := by
  induction keys generalizing r with
  | nil => rfl
  | cons k keys ih =>
    rw [cancelTasks] at hj ⊢
    split at hj
    · next hnone =>
      rw [hnone] at *
      exact ih { r with tasks := r.tasks.pop k } hj
    · next id hid =>
      rw [hid] at *
      dsimp only at hj ⊢
      split at hj
      · next hdone =>
        rw [if_pos hdone]
        exact ih { r with tasks := r.tasks.pop k } hj
      · next hdone =>
        rw [if_neg hdone]
        rw [List.mem_cons, not_or] at hj
        refine (ih _ hj.2).trans ?_
        simp [cancel, Ne.symm hj.1]

lemma Sound.cancelTasks {r : Registry Γ} (h : Sound known r) (keys : List PyStr) :
    Sound known (r.cancelTasks keys).1 := by
  have hspec := r.cancelTasks_spec keys
  intro k id hk
  rw [hspec.get] at hk
  split at hk
  · cases hk
  · next hnot =>
    obtain ⟨t, ht, hkey, hrest⟩ := h k id hk
    refine ⟨t, ?_, hkey, hrest⟩
    rw [cancelTasks_created r keys, ht]
    -- a task that is cancelled was held by one of the keys, which is its own
    intro hid
    obtain ⟨k', hk', hget, -⟩ := (hspec.ids id).mp hid
    obtain ⟨t', ht', hkey', -⟩ := h k' id hget
    obtain rfl := Option.some.inj (ht.symm.trans ht')
    exact hnot (hkey ▸ hkey' ▸ hk')

lemma Sound.started {r r' : Registry Γ} {rows : List (Row Γ)} {raised : Option Raised}
    (h : Sound known r) (hs : Started known fails r rows r' raised) : Sound known r' := by
  intro k id hk
  rcases hs.new k id hk with hold | ⟨row, -, hknown, hkey, hnew⟩
  · obtain ⟨t, ht, hrest⟩ := h k id hold
    exact ⟨t, hs.created id t ht, hrest⟩
  · exact ⟨⟨row, false, none⟩, hnew, hkey, hknown, rfl⟩

end Registry

open Registry (Sound)

lemma startMissing_reg {s s' : State Γ} {desired : Dict PyStr (Row Γ)} {current fresh : List PyStr}
    {fails : Row Γ → Bool} (hs : s.startMissing known desired current fresh fails = some s') :
    ∃ rows, s'.reg = (s.reg.startTasks known fails rows).1 := by
  unfold State.startMissing at hs
  split at hs
  · obtain rfl := Option.some.inj hs
    exact ⟨_, rfl⟩
  · cases hs

/-- What a step does to the registry: the event loop acts on it, or keys are cancelled and rows are
started. -/
lemma step_reg {s s' : State Γ} {a : Action Γ} (hs : step known s a = some s') :
    Meanwhile s.reg s'.reg ∨ ∃ keys fails rows,
      s'.reg = ((s.reg.cancelTasks keys).1.startTasks known fails rows).1 := by
  cases move_of_step hs with
  | taskEnds he => exact Or.inl ((Meanwhile.refl _).ends he)
  | callback hc => exact Or.inl ((Meanwhile.refl _).callback hc)
  | goto | stop | stopGathered => exact Or.inl (.refl _)
  | reloadTenant tenantId =>
    unfold State.reloadTenant
    split
    · exact Or.inl (.refl _)
    · exact Or.inr ⟨s.reg.tenantKeys tenantId, fun _ => false, [], rfl⟩
  | @cancelStale _ rows stale _ fails _ _ _ hs =>
    unfold State.cancelStale at hs
    dsimp only at hs
    split at hs
    · split at hs
      · obtain ⟨started, hreg⟩ := startMissing_reg hs
        exact Or.inr ⟨stale, fails, started, hreg⟩
      · obtain rfl := Option.some.inj hs
        exact Or.inr ⟨stale, fails, [], rfl⟩
    · cases hs
  | @startMissing _ _ _ _ fails _ _ _ hs =>
    obtain ⟨started, hreg⟩ := startMissing_reg hs
    exact Or.inr ⟨[], fails, started, hreg⟩
  | startTasks rows fails => exact Or.inr ⟨[], fails, rows, rfl⟩
  | joined _ _ hpop =>
    exact Or.inr ⟨s.reg.tasks.keys, fun _ => false, [], (congrArg Prod.fst hpop).symm⟩

/-- What the event loop, `_cancel_tasks` and the starting of rows keep holds of every registry. -/
lemma reg_of_reachable {P : Registry Γ → Prop} (hempty : P .empty)
    (hlater : ∀ {q r : Registry Γ}, P q → Later q r → P r)
    (hcancel : ∀ {r : Registry Γ} (keys : List PyStr), P r → P (r.cancelTasks keys).1)
    (hstart : ∀ {r : Registry Γ} (fails : Row Γ → Bool) (rows : List (Row Γ)), P r →
      P (r.startTasks known fails rows).1)
    {s : State Γ} (h : (machine known).Reachable s) : P s.reg := by
  have hinit : ∀ s : State Γ, (machine known).init s → Inv s ∧ P s.reg := by
    rintro s ⟨backend, fails, rows, -, hs⟩
    refine ⟨.start hs, ?_⟩
    have hstarted := hstart fails rows hempty
    unfold start at hs
    split at hs
    · cases hs
    · next reg hreg =>
      obtain rfl := Option.some.inj hs
      rwa [hreg] at hstarted
  have hstep : ∀ (s : State Γ) (a : Action Γ) (s' : State Γ), Inv s ∧ P s.reg →
      (machine known).step s a = some s' → Inv s' ∧ P s'.reg := by
    rintro s a s' ⟨hinv, hreg⟩ hs
    refine ⟨hinv.step hs, ?_⟩
    rcases step_reg hs with hwait | ⟨keys, fails, rows, heq⟩
    · exact hlater hreg (hwait.later hinv.core)
    · exact heq ▸ hstart fails rows (hcancel keys hreg)
  exact (Machine.Reachable.invariant hinit hstep h).2

theorem sound_of_reachable {s : State Γ} (h : (machine known).Reachable s) : Sound known s.reg :=
  reg_of_reachable .empty .later (fun keys hsound => hsound.cancelTasks keys)
    (fun _ rows hsound => hsound.started (startTasks_started _ _ _ rows)) h

/-! ## The reconcile -/

/-- The rows of `desired_keys - current`, of any snapshot. -/
lemma of_mem_missing {rows : List (Row Γ)} {current fresh : List PyStr}
    (hfresh : fresh.Perm (Registry.difference (Registry.desiredOf rows).keys current))
    {row : Row Γ} (h : row ∈ fresh.filterMap (Registry.desiredOf rows).get?) :
    row ∈ rows ∧ row.key ∉ current := by
  obtain ⟨k, hk, hget⟩ := List.mem_filterMap.mp h
  obtain ⟨row', hrow', heq⟩ := List.mem_map.mp (Dict.mem_of_mem_ofList (Dict.get?_eq_some.mp hget))
  obtain ⟨rfl, rfl⟩ := Prod.mk.inj heq
  exact ⟨hrow', (mem_difference.mp (hfresh.mem_iff.mp hk)).2⟩

lemma exists_missing {rows : List (Row Γ)} {current fresh : List PyStr}
    (hfresh : fresh.Perm (Registry.difference (Registry.desiredOf rows).keys current))
    {row : Row Γ} (hrow : row ∈ rows) (hnew : row.key ∉ current) :
    ∃ row' ∈ fresh.filterMap (Registry.desiredOf rows).get?, row'.key = row.key := by
  have hin : row.key ∈ (Registry.desiredOf rows).keys :=
    mem_desiredOf.mpr (List.mem_map_of_mem hrow)
  obtain ⟨row', hget⟩ := Dict.mem_keys_iff_get?.mp hin
  have hk : row.key ∈ fresh := hfresh.mem_iff.mpr (mem_difference.mpr ⟨hin, hnew⟩)
  exact ⟨row', List.mem_filterMap.mpr ⟨row.key, hk, hget⟩, desiredOf_key hget⟩

/-- The class of a row is known by its key. -/
lemma known_of_key {row row' : Row Γ} (h : row.key = row'.key) :
    known row.name = known row'.name := by
  rw [(Row.key_inj.mp h).2]

/-- A reconcile keeps the invariant, if what is unfinished or has its callback still to run is
tracked when the fetch has returned. -/
lemma Reconciled.core {rows : List (Row Γ)} {q r : Registry Γ} {raised : Option Raised}
    (h : Reconciled known fails rows q r raised) (hq : Core q [])
    (hcurrent : ∀ id k e, q.info id = some (k, e) → e = none ∨ id ∈ q.callbacks →
      k ∈ q.tasks.keys) : Core r [] := by
  obtain ⟨p, stale, fresh, -, hjoined, hfresh, hstart⟩ := h
  have hspec := q.cancelTasks_spec stale
  have hready : ∀ ids : List ℕ, (Driver.gatherStale ids (Registry.desiredOf rows)
      q.tasks.keys).Ready (q.cancelTasks stale).1 := by
    refine fun ids => ⟨fun k row => desiredOf_key, fun id k e hid hor => ?_⟩
    rw [hspec.info] at hid
    rw [hspec.callbacks] at hor
    exact hcurrent id k e hid hor
  have hready' : (Driver.gatherStale (q.cancelTasks stale).2 (Registry.desiredOf rows)
      q.tasks.keys).Ready p := by
    rcases hjoined with ⟨-, rfl⟩ | ⟨-, hwait, -⟩
    · exact hready _
    · have hcore := hq.cancelTasks stale
      rw [List.append_nil] at hcore
      exact hwait.ready hcore (hready _)
  have hclear : Clear p (fresh.filterMap (Registry.desiredOf rows).get?) :=
    fun row hrow id hid e he =>
      absurd (hready'.2 id row.key e he (Or.inr hid)) (of_mem_missing hfresh hrow).2
  have hcore : Core (p.startTasks known fails (fresh.filterMap (Registry.desiredOf rows).get?)).1 [] :=
    (hjoined.core hq).startTasks hclear
  rwa [hstart] at hcore

section Converges

variable {s : State Γ} {rows : List (Row Γ)} {q r : Registry Γ}

lemma Inv.core_of_fetchAll {before : List ℕ} (h : Inv s) (hd : s.driver = .fetchAll before) :
    Core s.reg [] := by
  simpa [hd, Driver.awaited] using h.core_of_running (by simp [hd])

/-- A task under a key that is still wanted stays, if the tasks of such keys do not end. -/
lemma Reconciled.kept {raised : Option Raised} (hs : Core s.reg []) (hfetch : Fetched s.reg q)
    (h : Reconciled known fails rows q r raised)
    (hquiet : ∀ id t, s.reg.Unfinished id t → t.key ∈ rows.map Row.key → ∃ t', r.Unfinished id t')
    {k : PyStr} {id : ℕ} (hk : k ∈ rows.map Row.key) (hid : q.tasks.get? k = some id) :
    r.tasks.get? k = some id := by
  have hq := hfetch.1.core hs
  have hlq := hfetch.1.later hs
  obtain ⟨p, stale, fresh, hstale, hjoined, -, hstart⟩ := h
  have hstarted := startTasks_started known fails p
    (fresh.filterMap (Registry.desiredOf rows).get?)
  rw [hstart] at hstarted
  have hspec := q.cancelTasks_spec stale
  have hlp := hjoined.later hq
  have hnot : k ∉ stale := fun hin =>
    (mem_difference.mp (hstale.mem_iff.mp hin)).2 (mem_desiredOf.mpr hk)
  have hpopped : (q.cancelTasks stale).1.tasks.get? k = some id := by rw [hspec.get, if_neg hnot, hid]
  rcases hlp.tasks k with hsame | ⟨-, id', hid', hraised⟩
  · exact hstarted.old k id (hsame.trans hpopped)
  · -- the task has raised: it had not before the call, for its key would have gone with the fetch
    obtain rfl := Option.some.inj (hid'.symm.trans hpopped)
    have hfirst : s.reg.tasks.get? k = some id' := hlq.before hid
    obtain ⟨e, he⟩ := hs.named k id' hfirst
    cases e with
    | none =>
      obtain ⟨t, ht, hkey, hend⟩ := Registry.info_eq_some.mp he
      obtain ⟨t', ht', hend'⟩ := hquiet id' t ⟨ht, hend⟩ (hkey ▸ hk)
      obtain ⟨u, hu, -, hraised⟩ := Registry.info_eq_some.mp hraised
      obtain rfl := Option.some.inj (ht'.symm.trans (hstarted.created id' u hu))
      cases hend'.symm.trans hraised
    | some e =>
      have hlast : p.info id' = some (k, some e) :=
        hlp.info ((hspec.info id').trans (hlq.info he))
      obtain rfl : e = .raised := by simpa using hlast.symm.trans hraised
      cases (hfetch.get_none hs hfirst he).symm.trans hid

/-- **A reconcile converges without disturbing what is right.**  If no task under a key of the
snapshot ends meanwhile, the tracked keys are those of the rows of known classes, every task whose
key was in both sets is the same and was not cancelled, and every task whose key is no longer wanted
has finished. -/
theorem reconcile_converges (hs : (machine known).Reachable s)
    (hcall : s.driver = .fetchAll s.reg.callbacks) (hfetch : Fetched s.reg q)
    (h : Reconciled known fails rows q r none)
    (hquiet : ∀ id t, s.reg.Unfinished id t → t.key ∈ rows.map Row.key →
      ∃ t', r.Unfinished id t') :
    (∀ k, k ∈ r.tasks.keys ↔ ∃ row ∈ rows, known row.name = true ∧ row.key = k) ∧
    (∀ k ∈ rows.map Row.key, ∀ id, q.tasks.get? k = some id →
      r.tasks.get? k = some id ∧ ∃ t, r.created[id]? = some t ∧ t.cancelling = false) ∧
    ∀ (id : ℕ) (t : Task Γ), r.created[id]? = some t → t.key ∉ rows.map Row.key →
      t.ending ≠ none := by
  have hcore : Core s.reg [] := (inv_of_reachable hs).core_of_fetchAll hcall
  have hq : Core q [] := hfetch.1.core hcore
  have hbegins : (Driver.fetchAll s.reg.callbacks).Ready s.reg := fun _ hid => Or.inl hid
  have hready : (Driver.fetchAll s.reg.callbacks).Ready q := hfetch.1.ready hcore hbegins
  have hr : Core r [] := h.core hq (hready.current hq hfetch.2)
  have hsq : Sound known q := (sound_of_reachable hs).later (hfetch.1.later hcore)
  have hkept : ∀ k ∈ rows.map Row.key, ∀ id, q.tasks.get? k = some id → r.tasks.get? k = some id :=
    fun k hk id hid => h.kept hcore hfetch hquiet hk hid
  obtain ⟨p, stale, fresh, hstale, hjoined, hfresh, hstart⟩ := h
  have hstarted := startTasks_started known fails p
    (fresh.filterMap (Registry.desiredOf rows).get?)
  rw [hstart] at hstarted
  have hspec := q.cancelTasks_spec stale
  have hlp := hjoined.later hq
  have hsr : Sound known r := ((hsq.cancelTasks stale).later hlp).started hstarted
  have hkeys : ∀ k, k ∈ r.tasks.keys ↔ ∃ row ∈ rows, known row.name = true ∧ row.key = k := by
    intro k
    constructor
    · intro hk
      obtain ⟨id, hid⟩ := Dict.mem_keys_iff_get?.mp hk
      rcases hstarted.new k id hid with hold | ⟨row, hrow, hknown, hkey, -⟩
      · -- a key that was not popped is wanted, and its task is of a known class
        have hpopped : (q.cancelTasks stale).1.tasks.get? k = some id := hlp.before hold
        rw [hspec.get] at hpopped
        split at hpopped
        · cases hpopped
        · next hnot =>
          have hcur : k ∈ q.tasks.keys := Dict.mem_keys_iff_get?.mpr ⟨id, hpopped⟩
          have hdesired : k ∈ (Registry.desiredOf rows).keys := by
            by_contra hnd
            exact hnot (hstale.mem_iff.mpr (mem_difference.mpr ⟨hcur, hnd⟩))
          obtain ⟨row, hrow, hkey⟩ := List.mem_map.mp (mem_desiredOf.mp hdesired)
          obtain ⟨t, -, hkeyt, hknown, -⟩ := hsq k id hpopped
          exact ⟨row, hrow, (known_of_key (hkey.trans hkeyt.symm)).trans hknown, hkey⟩
      · exact ⟨row, (of_mem_missing hfresh hrow).1, hknown, hkey⟩
    · rintro ⟨row, hrow, hknown, rfl⟩
      by_cases hcur : row.key ∈ q.tasks.keys
      · obtain ⟨id, hid⟩ := Dict.mem_keys_iff_get?.mp hcur
        exact Dict.mem_keys_iff_get?.mpr ⟨id, hkept _ (List.mem_map_of_mem hrow) id hid⟩
      · obtain ⟨row', hrow', hkey⟩ := exists_missing hfresh hrow hcur
        rw [← hkey]
        exact (hstarted.all rfl row' hrow' ((known_of_key hkey).trans hknown)).1
  refine ⟨hkeys, fun k hk id hid => ?_, fun id t ht hk hend => ?_⟩
  · obtain ⟨t, ht, -, -, hcancel⟩ := hsr k id (hkept k hk id hid)
    exact ⟨hkept k hk id hid, t, ht, hcancel⟩
  · have htr := (hr.tracked id t.key (Registry.Unfinished.info ⟨ht, hend⟩)).resolve_right (by simp)
    obtain ⟨row, hrow, -, hkey⟩ := (hkeys t.key).mp (Dict.mem_keys_iff_get?.mpr ⟨id, htr⟩)
    exact hk (hkey ▸ List.mem_map_of_mem hrow)

section Example

lemma fin_lt_uuids (n : Fin 4) : n.val < 2 ^ 128 := by omega

/-- A row of one of the first tenants. -/
def rowOf (n : Fin 4) (name : PyStr) : Row Unit := ⟨n, fin_lt_uuids n, name, ()⟩

/-- One class is known. -/
def weatherOnly : PyStr → Bool := fun name => name = text "weather"

/-- The rows of the tenants 1 and 2. -/
def twoRows : List (Row Unit) := [rowOf 1 (text "weather"), rowOf 2 (text "weather")]

/-- The registry after a start on the tenants 1 and 2. -/
def twoTasks : Registry Unit :=
  (Registry.empty.startTasks weatherOnly (fun _ => false)
    [rowOf 1 (text "weather"), rowOf 2 (text "weather")]).1

/-- The tenant 1 has left, and the tenant 3 has come, also with a class that is not known. -/
def snapshot : List (Row Unit) :=
  [rowOf 2 (text "weather"), rowOf 3 (text "weather"), rowOf 3 (text "tides")]

lemma twoTasks_reachable :
    (machine weatherOnly).Reachable ⟨.postgres, twoTasks, .fetchAll [], .notCalled⟩ := by
  have hstart : start weatherOnly .postgres (fun _ => false)
      [rowOf 1 (text "weather"), rowOf 2 (text "weather")] =
      some ⟨.postgres, twoTasks, .waiting, .notCalled⟩ := rfl
  have hinit : (machine weatherOnly).Reachable ⟨.postgres, twoTasks, .waiting, .notCalled⟩ :=
    .init ⟨.postgres, fun _ => false, _, by decide, hstart⟩
  exact hinit.step (e := .wake) rfl

/-- The run of the reconcile: the task of the tenant 1 is cancelled and ends, and the tenant 3 gets
one. -/
lemma snapshot_run :
    Registry.difference twoTasks.tasks.keys (Registry.desiredOf snapshot).keys =
        [(rowOf 1 (text "weather")).key] ∧
      (twoTasks.cancelTasks [(rowOf 1 (text "weather")).key]).2 = [0] ∧
      (((twoTasks.cancelTasks [(rowOf 1 (text "weather")).key]).1.taskEnds 0 .cancelled).bind
        Registry.callback).map (fun q =>
          let r := q.startTasks weatherOnly (fun _ => false)
            ((Registry.difference (Registry.desiredOf snapshot).keys twoTasks.tasks.keys).filterMap
              (Registry.desiredOf snapshot).get?)
          (q.gathered [0], r.2, (r.1.created[1]?).map Task.ending)) =
        some (true, none, some none) := by
  decide +kernel

/-- The tenant 2 stays, and its task with it. -/
theorem snapshot_converges : ∃ r : Registry Unit,
    Reconciled weatherOnly (fun _ => false) snapshot twoTasks r none ∧
    (∀ k, k ∈ r.tasks.keys ↔ ∃ row ∈ snapshot, weatherOnly row.name = true ∧ row.key = k) ∧
    (∀ k ∈ snapshot.map Row.key, ∀ id, twoTasks.tasks.get? k = some id →
      r.tasks.get? k = some id ∧ ∃ t, r.created[id]? = some t ∧ t.cancelling = false) ∧
    ∀ (id : ℕ) (t : Task Unit), r.created[id]? = some t → t.key ∉ snapshot.map Row.key →
      t.ending ≠ none := by
  obtain ⟨hstale, hids, hrun⟩ := snapshot_run
  obtain ⟨q, hq, hview⟩ := Option.map_eq_some_iff.mp hrun
  obtain ⟨q₀, hends, hcallback⟩ := Option.bind_eq_some_iff.mp hq
  simp only [Prod.mk.injEq] at hview
  obtain ⟨hgathered, hraised, hlast⟩ := hview
  have hjoined : Joined (twoTasks.cancelTasks [(rowOf 1 (text "weather")).key]) q := by
    refine Or.inr ⟨by simp [hids], ((Meanwhile.refl _).ends hends).callback hcallback, ?_⟩
    rw [hids, hgathered]
  have hreconciled : Reconciled weatherOnly (fun _ => false) snapshot twoTasks _ none :=
    ⟨q, _, _, hstale ▸ .refl _, hjoined, .refl _, Prod.ext rfl hraised⟩
  have hfetch : Fetched twoTasks twoTasks := ⟨.refl _, rfl⟩
  refine ⟨_, hreconciled, reconcile_converges twoTasks_reachable rfl hfetch hreconciled ?_⟩
  rintro id t ⟨ht, -⟩ hk
  have htwo : twoTasks.created = [⟨rowOf 1 (text "weather"), false, none⟩,
      ⟨rowOf 2 (text "weather"), false, none⟩] := rfl
  rw [htwo] at ht
  rcases id with _ | _ | id
  · obtain rfl := Option.some.inj ht
    simp [snapshot, Task.key, Row.key_inj, rowOf] at hk
  · obtain ⟨t', ht', hend⟩ := Option.map_eq_some_iff.mp hlast
    exact ⟨t', ht', hend⟩
  · simp at ht

end Example

end Converges

end Omkit.Provider
