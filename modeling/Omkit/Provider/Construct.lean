import Omkit.Provider.Restart

/-!
# Providers that cannot be constructed

The loops that start tasks end at the first row whose constructor raises.  A reconcile leaves the rows
after it, in the order of its set, without a task; `start` raises before it has a driver.
-/

namespace Omkit.Provider

open Lib

variable {Γ : Type} {known : PyStr → Bool} {fails : Row Γ → Bool}

/-- Does `_start_task` raise in the constructor of a row? -/
def Row.breaks (known : PyStr → Bool) (fails : Row Γ → Bool) (row : Row Γ) : Bool :=
  known row.name && fails row

/-- The rows that a loop gets through: those before the first one whose constructor raises. -/
def beforeBreak (known : PyStr → Bool) (fails : Row Γ → Bool) (rows : List (Row Γ)) :
    List (Row Γ) :=
  rows.takeWhile fun row => !row.breaks known fails

lemma beforeBreak_cons {row : Row Γ} (h : row.breaks known fails = false) (rows : List (Row Γ)) :
    beforeBreak known fails (row :: rows) = row :: beforeBreak known fails rows := by
  simp [beforeBreak, h]

variable (known fails) in
/-- A loop over rows whose keys are free: it starts the rows before the first one whose constructor
raises. -/
lemma startTasks_beforeBreak {r : Registry Γ} {rows : List (Row Γ)}
    (hnodup : (rows.map Row.key).Nodup) (hfree : ∀ row ∈ rows, row.key ∉ r.tasks.keys) :
    (∀ k, k ∈ (r.startTasks known fails rows).1.tasks.keys ↔ k ∈ r.tasks.keys ∨
      ∃ row ∈ beforeBreak known fails rows, known row.name = true ∧ row.key = k) ∧
    ((r.startTasks known fails rows).2 = none ↔ ∀ row ∈ rows, row.breaks known fails = false) := by
  induction rows generalizing r with
  | nil => simp [Registry.startTasks, beforeBreak]
  | cons row rows ih =>
    rw [List.map_cons, List.nodup_cons] at hnodup
    have hrest : ∀ row' ∈ rows, row'.key ∉ r.tasks.keys := fun row' h =>
      hfree row' (List.mem_cons_of_mem _ h)
    have hkey : row.key ∉ r.tasks.keys := hfree row List.mem_cons_self
    rw [Registry.startTasks, List.forall_mem_cons]
    by_cases hknown : known row.name = true
    · by_cases hfails : fails row = true
      · -- the loop ends here
        have hbreaks : row.breaks known fails = true := by simp [Row.breaks, hknown, hfails]
        have hstart : r.startTask known fails row = .error .constructor := by
          simp [Registry.startTask, hknown, hkey, hfails]
        rw [hstart]
        simp [beforeBreak, hbreaks]
      · have hbreaks : row.breaks known fails = false := by simp [Row.breaks, hknown, hfails]
        have hstart : r.startTask known fails row = .ok { r with
            tasks := r.tasks.set row.key r.created.length
            created := r.created ++ [⟨row, false, none⟩] } := by
          simp [Registry.startTask, hknown, hkey, hfails]
        rw [hstart]
        obtain ⟨hkeys, hnone⟩ := ih (r := { r with
            tasks := r.tasks.set row.key r.created.length
            created := r.created ++ [⟨row, false, none⟩] }) hnodup.2 fun row' h hin => by
          rcases Dict.mem_keys_set.mp hin with heq | hold
          · exact hnodup.1 (heq ▸ List.mem_map_of_mem h)
          · exact hrest row' h hold
        refine ⟨fun k => ?_, by simp [hnone, hbreaks]⟩
        rw [hkeys, Dict.mem_keys_set, beforeBreak_cons hbreaks]
        simp only [List.mem_cons, exists_eq_or_imp, hknown, true_and]
        rw [eq_comm (a := k), or_comm (a := row.key = k), or_assoc]
    · have hbreaks : row.breaks known fails = false := by simp [Row.breaks, hknown]
      have hstart : r.startTask known fails row = .ok r := by
        simp [Registry.startTask, hknown]
      rw [hstart]
      obtain ⟨hkeys, hnone⟩ := ih hnodup.2 hrest
      refine ⟨fun k => ?_, by simp [hnone, hbreaks]⟩
      rw [hkeys, beforeBreak_cons hbreaks]
      simp [hknown]

/-- `start` begins its driver exactly if no constructor of a known class raises. -/
lemma start_isSome_iff {rows : List (Row Γ)} (hrows : Distinct rows) (backend : Backend) :
    (start known backend fails rows).isSome = true ↔
      ∀ row ∈ rows, row.breaks known fails = false := by
  have hspec := startTasks_beforeBreak known fails (r := .empty) hrows.keys
    fun row _ => by simp [Registry.empty]
  rw [← hspec.2]
  unfold start
  generalize Registry.empty.startTasks known fails rows = p
  obtain ⟨reg, raised⟩ := p
  cases raised <;> simp

section Construct

variable {rows : List (Row Γ)} {q p r : Registry Γ} {stale fresh : List PyStr}
  {raised : Option Raised}

/-- **The rows that can be constructed are up after a reconcile exactly if none comes after one whose
constructor raises in the order of the loop**, and none loses its task while those that are cancelled
are awaited; and `start` begins its driver exactly if no constructor raises. -/
theorem others_up_iff {s : State Γ} (hs : (machine known).Reachable s) {before : List ℕ}
    (hcall : s.driver = .fetchAll before) (hrows : Distinct rows)
    (hjoined : Joined (s.reg.cancelTasks stale) p)
    (hfresh : fresh.Perm (Registry.difference (Registry.desiredOf rows).keys s.reg.tasks.keys))
    (hstart : p.startTasks known fails (fresh.filterMap (Registry.desiredOf rows).get?) =
      (r, raised)) :
    ((∀ row ∈ rows, known row.name = true → fails row = false → row.key ∈ r.tasks.keys) ↔
      ∀ row ∈ rows, known row.name = true → fails row = false →
        if row.key ∈ s.reg.tasks.keys then row.key ∈ p.tasks.keys
        else row ∈ beforeBreak known fails (fresh.filterMap (Registry.desiredOf rows).get?)) ∧
    ∀ backend, (start known backend fails rows).isSome = true ↔
      ∀ row ∈ rows, known row.name = true → fails row = false := by
  have hcore : Core s.reg [] := (inv_of_reachable hs).core_of_fetchAll hcall
  have hmem (row : Row Γ) : row ∈ fresh.filterMap (Registry.desiredOf rows).get? ↔
      row ∈ rows ∧ row.key ∉ s.reg.tasks.keys := mem_missing hrows hfresh
  have hnodup : fresh.Nodup :=
    hfresh.nodup_iff.mpr ((Registry.desiredOf rows).nodup_keys.filter _)
  -- the awaits only drop keys
  have hdropped : ∀ k ∈ p.tasks.keys, k ∈ s.reg.tasks.keys := by
    intro k hk
    by_contra hnot
    have hnone : (s.reg.cancelTasks stale).1.tasks.get? k = none := by
      rw [(s.reg.cancelTasks_spec stale).get, Dict.get?_eq_none.mpr hnot, ite_self]
    exact Dict.get?_eq_none.mp ((hjoined.later hcore).get_none hnone) hk
  have hspec := startTasks_beforeBreak known fails (r := p)
    (missing_keys_nodup hrows hnodup) fun row hrow hin => ((hmem row).mp hrow).2 (hdropped _ hin)
  rw [hstart] at hspec
  clear hfresh hstart
  generalize fresh.filterMap (Registry.desiredOf rows).get? = missing at hmem hspec ⊢
  have hreached : ∀ row ∈ rows, row.key ∉ s.reg.tasks.keys →
      ((∃ row' ∈ beforeBreak known fails missing, known row'.name = true ∧ row'.key = row.key) ↔
        row ∈ beforeBreak known fails missing ∧ known row.name = true) := by
    intro row hrow hnew
    constructor
    · rintro ⟨row', hrow', hknown, hkey⟩
      have hin : row' ∈ rows := ((hmem row').mp ((List.takeWhile_sublist _).subset hrow')).1
      obtain rfl := List.inj_on_of_nodup_map hrows.keys hin hrow hkey
      exact ⟨hrow', hknown⟩
    · exact fun ⟨hrow', hknown⟩ => ⟨row, hrow', hknown, rfl⟩
  constructor
  · refine forall₂_congr fun row hrow => forall₂_congr fun hknown _ => ?_
    rw [hspec.1]
    split
    · next hcur =>
      -- the loop starts rows without a task only
      refine or_iff_left ?_
      rintro ⟨row', hrow', -, hkey⟩
      have hnew := ((hmem row').mp ((List.takeWhile_sublist _).subset hrow')).2
      rw [hkey] at hnew
      exact hnew hcur
    · next hnew =>
      rw [hreached row hrow hnew, or_iff_right fun hin => hnew (hdropped _ hin)]
      exact and_iff_left hknown
  · intro backend
    rw [start_isSome_iff hrows]
    simp [Row.breaks]

end Construct

section Example

lemma nothing_reachable :
    (machine weatherOnly).Reachable ⟨.postgres, (.empty : Registry Unit), .fetchAll [], .notCalled⟩ := by
  have hinit : (machine weatherOnly).Reachable
      ⟨.postgres, (.empty : Registry Unit), .waiting, .notCalled⟩ :=
    .init ⟨.postgres, fun _ => false, [], by decide, rfl⟩
  exact hinit.step (e := .wake) rfl

lemma twoRows_keys : (Registry.desiredOf twoRows).keys = twoRows.map Row.key := by decide +kernel

/-- With no task yet, the loop takes the rows in an order of their keys. -/
lemma twoRows_missing :
    (Registry.desiredOf twoRows).keys.filterMap (Registry.desiredOf twoRows).get? = twoRows := by
  have hne : (rowOf 1 (text "weather")).key ≠ (rowOf 2 (text "weather")).key := by decide +kernel
  have hfirst : (Registry.desiredOf twoRows).get? (rowOf 1 (text "weather")).key =
      some (rowOf 1 (text "weather")) := by
    refine (Dict.get?_set_ne _ _ hne).trans (Dict.get?_set_self _ _ _)
  have hsecond : (Registry.desiredOf twoRows).get? (rowOf 2 (text "weather")).key =
      some (rowOf 2 (text "weather")) := Dict.get?_set_self _ _ _
  rw [twoRows_keys]
  simp only [twoRows, List.map_cons, List.map_nil] at hfirst hsecond ⊢
  simp [hfirst, hsecond]

lemma twoRows_fresh : (Registry.desiredOf twoRows).keys.Perm
    (Registry.difference (Registry.desiredOf twoRows).keys (.empty : Registry Unit).tasks.keys) := by
  simp [Registry.difference, Registry.empty]

/-- The constructor of the second row raises: the first one is up. -/
theorem last_fails_alone : (rowOf 1 (text "weather")).key ∈
    ((.empty : Registry Unit).startTasks weatherOnly (fun row => row.tenant = 2)
      twoRows).1.tasks.keys := by
  have hjoined : Joined ((.empty : Registry Unit).cancelTasks []) .empty := Or.inl ⟨rfl, rfl⟩
  have hiff := (others_up_iff nothing_reachable rfl (by decide) hjoined twoRows_fresh
    (rfl : Registry.empty.startTasks weatherOnly (fun row => decide (row.tenant = 2)) _ = (_, _))).1
  rw [twoRows_missing] at hiff
  refine hiff.mpr (fun row hrow _ hok => ?_) (rowOf 1 (text "weather")) List.mem_cons_self
    (by decide +kernel) (by simp [rowOf])
  rw [if_neg (by simp [Registry.empty])]
  have hone : row = rowOf 1 (text "weather") := by
    rcases List.mem_cons.mp hrow with rfl | hrow
    · rfl
    · obtain rfl := List.mem_singleton.mp hrow
      simp [rowOf] at hok
  rw [hone, twoRows, beforeBreak_cons (by simp [Row.breaks, rowOf])]
  exact List.mem_cons_self

/-- The constructor of the first row raises: the second one is not started. -/
theorem first_fails_all : ¬ ∀ (s : State Unit) (rows : List (Row Unit)) (fails : Row Unit → Bool)
    (r : Registry Unit) (raised : Option Raised), (machine weatherOnly).Reachable s →
    s.driver = .fetchAll [] → Distinct rows → Reconciled weatherOnly fails rows s.reg r raised →
    ∀ row ∈ rows, weatherOnly row.name = true → fails row = false → row.key ∈ r.tasks.keys := by
  intro hall
  have hstale : ([] : List PyStr).Perm (Registry.difference (.empty : Registry Unit).tasks.keys
      (Registry.desiredOf twoRows).keys) := .refl _
  have hup := hall _ twoRows (fun row => row.tenant = 1)
    ((.empty : Registry Unit).startTasks weatherOnly (fun row => row.tenant = 1) twoRows).1
    ((.empty : Registry Unit).startTasks weatherOnly (fun row => row.tenant = 1) twoRows).2
    nothing_reachable rfl (by decide)
    ⟨.empty, [], _, hstale, Or.inl ⟨rfl, rfl⟩, twoRows_fresh, by rw [twoRows_missing]⟩
    (rowOf 2 (text "weather")) (by simp [twoRows]) (by decide) (by decide)
  have hnone : ((.empty : Registry Unit).startTasks weatherOnly (fun row => row.tenant = 1)
      twoRows).1.tasks.keys = [] := rfl
  simp [hnone] at hup

end Example

end Omkit.Provider
