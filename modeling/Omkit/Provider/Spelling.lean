import Omkit.Provider.Converges

/-!
# The spelling of the tenant in a reload

`_reload_tenant` selects the tasks of a tenant by a prefix of their keys, and the database selects
its rows by the value of the UUID.  The two pick the same tenant for the text that the database
writes; for another spelling nothing is cancelled, and the first row that is running trips the
assertion of `_start_task`.
-/

namespace Omkit.Provider

open Lib

variable {Γ : Type} {known : PyStr → Bool} {readUuid : PyStr → Option ℕ}

/-! ## What a reload is for -/

/-- What is relied on in the reader of UUIDs: it reads the text of a UUID as that UUID. -/
structure Reads (readUuid : PyStr → Option ℕ) : Prop where
  text : ∀ n < 2 ^ 128, readUuid (uuidText n) = some n
  lt : ∀ s n, readUuid s = some n → n < 2 ^ 128

lemma driver_reads : Reads driverUuid := ⟨fun _ => driverUuid_uuidText, fun _ _ => driverUuid_lt⟩

/-- A reload stays within its tenant and does there what it is for. -/
structure Contained (known : PyStr → Bool) (table : List (Row Γ)) (tenant : Option ℕ)
    (r r' : Registry Γ) (outcome : Outcome) : Prop where
  /-- The assertion of `_start_task` does not trip. -/
  unasserted : outcome ≠ .raised .assertionError
  /-- The tracked keys of the tenant are those of its rows of known classes. -/
  own : outcome = .returned → ∀ n, tenant = some n → ∀ k, OfTenant (uuidText n) k →
    (k ∈ r'.tasks.keys ↔ ∃ row ∈ table, known row.name = true ∧ row.key = k)
  /-- The tasks of the other tenants are not cancelled, and stay tracked unless they raise. -/
  others : ∀ (id : ℕ) (t : Task Γ), r.created[id]? = some t → tenant ≠ some t.row.tenant →
    ∃ t', r'.created[id]? = some t' ∧ t.Later t' ∧ (r.tasks.get? t.key = some id →
      r'.tasks.get? t.key = some id ∨ t'.ending = some .raised)
  /-- No task of another tenant is started. -/
  unstarted : ∀ (id : ℕ) (t : Task Γ), r'.created[id]? = some t → tenant ≠ some t.row.tenant →
    id < r.created.length

/-! ## The two selections -/

/-- A prefix test that a key passes is made with the text of its tenant. -/
lemma tenantId_of_startsWith {tenantId : PyStr} (hlen : 36 ≤ tenantId.length)
    (hcolon : .scalar ':' ∉ tenantId) {row : Row Γ} (h : OfTenant tenantId row.key) :
    tenantId = row.tenantId := by
  rw [OfTenant, List.isPrefixOf_iff_prefix] at h
  have hkey : row.tenantId ++ text ":" <+: row.key := List.prefix_append _ _
  have htext : row.tenantId.length = 36 := uuidText_length _
  have hpre : tenantId <+: row.key := (List.prefix_append _ _).trans h
  have hshort : tenantId.length ≤ 36 := by
    by_contra hlong
    have hin : row.tenantId ++ text ":" <+: tenantId :=
      List.prefix_of_prefix_length_le hkey hpre (by simp [htext, text]; omega)
    exact hcolon (hin.subset (List.mem_append_right _ List.mem_cons_self))
  have hin : row.tenantId <+: tenantId :=
    List.prefix_of_prefix_length_le ((List.prefix_append _ _).trans hkey) hpre (by omega)
  exact (hin.eq_of_length (by omega)).symm

lemma Registry.cancelTasks_length (r : Registry Γ) (keys : List PyStr) :
    (r.cancelTasks keys).1.created.length = r.created.length := by
  induction keys generalizing r with
  | nil => rfl
  | cons k keys ih =>
    rw [cancelTasks]
    split
    · exact ih _
    · split
      · exact ih _
      · exact (ih _).trans (by simp [cancel])

section Reload

variable {r r₁ r₂ r' : Registry Γ} {keys : List PyStr}

/-- The awaits of a reload. -/
lemma later_of_fetched (hr : Core r []) (hjoined : Joined (r.cancelTasks keys) r₁)
    (hfetch : Fetched r₁ r₂) : Later (r.cancelTasks keys).1 r₂ :=
  (hjoined.later hr).trans (hfetch.1.later (hjoined.core hr))

/-- A task whose key is not popped is not disturbed. -/
lemma spared (hr : Core r []) (hjoined : Joined (r.cancelTasks keys) r₁) (hfetch : Fetched r₁ r₂)
    {id : ℕ} {t : Task Γ} (ht : r.created[id]? = some t) (hkey : t.key ∉ keys) :
    ∃ t', r₂.created[id]? = some t' ∧ t.Later t' ∧ (r.tasks.get? t.key = some id →
      r₂.tasks.get? t.key = some id ∨ t'.ending = some .raised) := by
  have hspec := r.cancelTasks_spec keys
  have hlater := later_of_fetched hr hjoined hfetch
  have hid : id ∉ (r.cancelTasks keys).2 := by
    intro hid
    obtain ⟨k, hk, hget, -⟩ := (hspec.ids id).mp hid
    obtain ⟨e, he⟩ := hr.named k id hget
    obtain ⟨u, hu, rfl, -⟩ := Registry.info_eq_some.mp he
    obtain rfl := Option.some.inj (ht.symm.trans hu)
    exact hkey hk
  obtain ⟨t', ht', hl⟩ := hlater.created id t ((r.cancelTasks_created keys hid).trans ht)
  refine ⟨t', ht', hl, fun hget => ?_⟩
  have hpopped : (r.cancelTasks keys).1.tasks.get? t.key = some id := by
    rw [hspec.get, if_neg hkey, hget]
  rcases hlater.tasks t.key with hsame | ⟨-, id', hid', hraised⟩
  · exact Or.inl (hsame.trans hpopped)
  · obtain rfl := Option.some.inj (hid'.symm.trans hpopped)
    obtain ⟨u, hu, -, hend⟩ := Registry.info_eq_some.mp hraised
    obtain rfl := Option.some.inj (ht'.symm.trans hu)
    exact Or.inr hend

/-- When the fetch has returned, no key of the tenant is in use: its keys were popped, or their tasks
had raised. -/
lemma get_none_of_fetched (hr : Core r []) {tenantId : PyStr} {n : ℕ} (hn : n < 2 ^ 128)
    (hjoined : Joined (r.cancelTasks (r.tenantKeys tenantId)) r₁) (hfetch : Fetched r₁ r₂)
    (h : tenantId = uuidText n ∨ ∀ (id : ℕ) (t : Task Γ), r.tasks.get? t.key = some id →
      r.created[id]? = some t → t.row.tenant = n → t.ending = some .raised)
    {k : PyStr} (hk : OfTenant (uuidText n) k) : r₂.tasks.get? k = none := by
  have hspec := r.cancelTasks_spec (r.tenantKeys tenantId)
  have hlater := later_of_fetched hr hjoined hfetch
  cases hget : (r.cancelTasks (r.tenantKeys tenantId)).1.tasks.get? k with
  | none => exact hlater.get_none hget
  | some id =>
    have hold := hget
    rw [hspec.get] at hold
    split at hold
    · cases hold
    next hnot =>
    rcases h with htext | hraised
    · rw [← htext] at hk
      exact absurd (mem_tenantKeys.mpr ⟨Dict.mem_keys_iff_get?.mpr ⟨id, hold⟩, hk⟩) hnot
    · obtain ⟨e, he⟩ := hr.named k id hold
      obtain ⟨t, ht, rfl, rfl⟩ := Registry.info_eq_some.mp he
      have hend := hraised id t hold ht ((ofTenant_key hn).mp hk)
      rw [hend, ← hspec.info] at he
      rcases (hjoined.later hr).tasks t.key with hsame | ⟨hnone, -⟩
      · exact hfetch.get_none (hjoined.core hr) (hsame.trans hget) ((hjoined.later hr).info he)
      · exact (hfetch.1.later (hjoined.core hr)).get_none hnone

end Reload

/-! ## When a reload is contained -/

lemma Inv.core_of_listening {s : State Γ} (h : Inv s) (hd : s.driver = .listening) :
    Core s.reg [] := by
  simpa [hd, Driver.awaited] using h.core_of_running (by simp [hd])

/-- The rows that the database selects have distinct keys. -/
lemma selected_keys {table rows : List (Row Γ)} (h : Distinct table) {p : Row Γ → Bool}
    (hrows : rows.Perm (table.filter p)) : (rows.map Row.key).Nodup :=
  ((hrows.map Row.key).nodup_iff).mpr (h.sublist List.filter_sublist).keys

/-- A call is contained if no key of the tenant is left in use when its fetch has returned. -/
lemma Reloaded.contained {r r' : Registry Γ} (hread : Reads readUuid) (hr : Core r [])
    {table : List (Row Γ)} (htable : Distinct table) {tenantId : PyStr}
    (hlen : 36 ≤ tenantId.length) (hcolon : .scalar ':' ∉ tenantId)
    (hfree : ∀ n, readUuid tenantId = some n → tenantId = uuidText n ∨
      ∀ (id : ℕ) (t : Task Γ), r.tasks.get? t.key = some id → r.created[id]? = some t →
        t.row.tenant = n → t.ending = some .raised)
    {fails : Row Γ → Bool} {outcome : Outcome}
    (h : Reloaded readUuid known fails table tenantId r r' outcome) :
    Contained known table (readUuid tenantId) r r' outcome := by
  obtain ⟨r₁, r₂, hjoined, hfetch, hend⟩ := h
  have hlater := later_of_fetched hr hjoined hfetch
  have hlength : r₂.created.length = r.created.length :=
    hlater.length.trans (r.cancelTasks_length _)
  -- the keys that were popped are those of the tenant whose text was given
  have hspared : ∀ (id : ℕ) (t : Task Γ), r.created[id]? = some t →
      readUuid tenantId ≠ some t.row.tenant → ∃ t', r₂.created[id]? = some t' ∧ t.Later t' ∧
        (r.tasks.get? t.key = some id → r₂.tasks.get? t.key = some id ∨
          t'.ending = some .raised) := by
    intro id t ht hne
    refine spared hr hjoined hfetch ht fun hkey => hne ?_
    rw [tenantId_of_startsWith hlen hcolon (mem_tenantKeys.mp hkey).2]
    exact hread.text _ t.row.tenant_lt
  rcases hend with ⟨rfl, rfl⟩ | ⟨rows, raised, hsome, hperm, hstart, rfl⟩
  · exact
      { unasserted := by simp
        own := fun hret => by cases hret
        others := hspared
        unstarted := fun id t ht _ => hlength ▸ (List.getElem?_eq_some_iff.mp ht).1 }
  obtain ⟨n, hn⟩ := Option.isSome_iff_exists.mp hsome
  have hlt : n < 2 ^ 128 := hread.lt _ _ hn
  have hnone : ∀ k, OfTenant (uuidText n) k → r₂.tasks.get? k = none := fun k =>
    get_none_of_fetched hr hlt hjoined hfetch (hfree n hn)
  have hmem : ∀ row, row ∈ rows ↔ row ∈ table ∧ row.tenant = n := by
    intro row
    rw [hperm.mem_iff, List.mem_filter, decide_eq_true_eq, hn, Option.some.injEq, eq_comm (a := n)]
  have hstarted := startTasks_started known fails r₂ rows
  rw [hstart] at hstarted
  refine
    { unasserted := fun hclash => ?unasserted
      own := fun hret m hm k hk => ?own
      others := fun id t ht hne => ?others
      unstarted := fun id t ht hne => ?unstarted }
  case unasserted =>
    cases raised with
    | none => cases hclash
    | some e =>
      obtain rfl : e = .assertionError := by simpa [Outcome.of] using hclash
      obtain ⟨row, hrow, -, hin⟩ := hstarted.clash rfl (selected_keys htable hperm)
      obtain ⟨id, hid⟩ := Dict.mem_keys_iff_get?.mp hin
      cases hid.symm.trans (hnone _ ((ofTenant_key hlt).mpr ((hmem row).mp hrow).2))
  case own =>
    obtain rfl := Option.some.inj (hn.symm.trans hm)
    constructor
    · intro hin
      obtain ⟨id, hid⟩ := Dict.mem_keys_iff_get?.mp hin
      rcases hstarted.new k id hid with hold | ⟨row, hrow, hknown, hkey, -⟩
      · cases hold.symm.trans (hnone k hk)
      · exact ⟨row, ((hmem row).mp hrow).1, hknown, hkey⟩
    · rintro ⟨row, hrow, hknown, rfl⟩
      have hraised : raised = none := by
        cases raised with
        | none => rfl
        | some e => cases hret
      exact (hstarted.all hraised row ((hmem row).mpr ⟨hrow, (ofTenant_key hlt).mp hk⟩) hknown).1
  case others =>
    obtain ⟨t', ht', hl, htracked⟩ := hspared id t ht hne
    refine ⟨t', hstarted.created id t' ht', hl, fun hget => ?_⟩
    exact (htracked hget).imp_left (hstarted.old t.key id)
  case unstarted =>
    rcases hstarted.fresh id t ht with hold | hrow
    · exact hlength ▸ hold
    · exact absurd (hn.trans (congrArg some ((hmem t.row).mp hrow).2.symm)) hne

/-- **A reload stays within its tenant exactly when the text that it was given is the one that the
database writes, or no task of the tenant is tracked but those that have raised.** -/
theorem reload_contained_iff (hread : Reads readUuid) {s : State Γ}
    (hs : (machine known).Reachable s) (hd : s.driver = .listening) {table : List (Row Γ)}
    (htable : Distinct table) {tenantId : PyStr} (hlen : 36 ≤ tenantId.length)
    (hcolon : .scalar ':' ∉ tenantId) :
    (∀ fails r outcome, Reloaded readUuid known fails table tenantId s.reg r outcome →
      Contained known table (readUuid tenantId) s.reg r outcome) ↔
    ∀ n, readUuid tenantId = some n → tenantId = uuidText n ∨
      ∀ (id : ℕ) (t : Task Γ), s.reg.tasks.get? t.key = some id → s.reg.created[id]? = some t →
        t.row.tenant = n → t.ending = some .raised := by
  have hr : Core s.reg [] := (inv_of_reachable hs).core_of_listening hd
  constructor
  · intro hall n hn
    by_contra hnot
    simp only [not_or, not_forall, exists_prop] at hnot
    obtain ⟨htext, id, t, hid, ht, htenant, hend⟩ := hnot
    have hof : OfTenant (uuidText n) t.key :=
      (ofTenant_key (hread.lt _ _ hn)).mpr htenant
    -- nothing is cancelled
    have hkeys : s.reg.tenantKeys tenantId = [] := by
      refine List.eq_nil_iff_forall_not_mem.mpr fun k hk => htext ?_
      obtain ⟨hin, hpre⟩ := mem_tenantKeys.mp hk
      obtain ⟨j, hj⟩ := Dict.mem_keys_iff_get?.mp hin
      obtain ⟨e, he⟩ := hr.named k j hj
      obtain ⟨u, -, rfl, -⟩ := Registry.info_eq_some.mp he
      have hu := tenantId_of_startsWith hlen hcolon hpre
      rw [hu, Row.tenantId, hread.text _ u.row.tenant_lt] at hn
      rw [hu, Row.tenantId, Option.some.inj hn]
    obtain ⟨r₂, hfetch⟩ := exists_fetch hr
    have hstill : r₂.tasks.get? t.key = some id := by
      have haw := hfetch.1.spec hr
      rcases haw.tasks t.key with hsame | ⟨-, id', hid', hraised⟩
      · exact hsame.trans hid
      · obtain rfl := Option.some.inj (hid'.symm.trans hid)
        obtain ⟨u, hu, -, hraised⟩ := Registry.info_eq_some.mp hraised
        obtain rfl := Option.some.inj (ht.symm.trans hu)
        exact absurd hraised hend
    have hjoined : Joined (s.reg.cancelTasks (s.reg.tenantKeys tenantId)) s.reg := by
      rw [hkeys]
      exact Or.inl ⟨rfl, rfl⟩
    have hstarted := startTasks_started known (fun _ => false) r₂
      (table.filter fun row => readUuid tenantId = some row.tenant)
    have hcall : Reloaded readUuid known (fun _ => false) table tenantId s.reg _ _ :=
      ⟨s.reg, r₂, hjoined, hfetch.fetched,
        Or.inr ⟨_, _, by simp [hn], .refl _, rfl, rfl⟩⟩
    have hcontained := hall _ _ _ hcall
    generalize r₂.startTasks known (fun _ => false)
      (table.filter fun row => readUuid tenantId = some row.tenant) = p at hstarted hcontained
    obtain ⟨r', raised⟩ := p
    cases raised with
    | none =>
      -- the key of the task is not one of a row, for no row was running
      have hin : t.key ∈ r'.tasks.keys :=
        Dict.mem_keys_iff_get?.mpr ⟨id, hstarted.old _ _ hstill⟩
      obtain ⟨row, hrow, hknown, hkey⟩ := (hcontained.own rfl n hn t.key hof).mp hin
      have htenant' : row.tenant = n := by
        rw [← hkey] at hof
        exact (ofTenant_key (hread.lt _ _ hn)).mp hof
      have hsel : row ∈ table.filter fun row => readUuid tenantId = some row.tenant := by
        simp [hrow, hn, htenant']
      have hfree := (hstarted.all rfl row hsel hknown).2.1
      exact hfree (hkey ▸ Dict.mem_keys_iff_get?.mpr ⟨id, hstill⟩)
    | some e =>
      cases e with
      | assertionError => exact hcontained.unasserted rfl
      | constructor =>
        obtain ⟨row, -, -, hfails⟩ := hstarted.failed rfl
        cases hfails
  · intro hfree fails r outcome h
    exact h.contained hread hr htable hlen hcolon hfree

section Example

lemma ten_lt_uuids : 10 < 2 ^ 128 := by norm_num

/-- A row of a tenant whose text has a letter. -/
def tenRow : Row Unit := ⟨10, ten_lt_uuids, text "weather", ()⟩

/-- The registry after a start on the row. -/
def tenTask : Registry Unit :=
  (Registry.empty.startTasks (fun _ => true) (fun _ => false) [tenRow]).1

lemma tenTask_listening :
    (machine fun _ => true).Reachable ⟨.redis, tenTask, .listening, .notCalled⟩ := by
  have hinit : (machine fun _ => true).Reachable ⟨.redis, tenTask, .connecting, .notCalled⟩ :=
    .init ⟨.redis, fun _ => false, [tenRow], by decide, rfl⟩
  have hkeys : (Registry.desiredOf [tenRow]).keys = tenTask.tasks.keys := rfl
  have hnone : Registry.difference tenTask.tasks.keys tenTask.tasks.keys = [] := by
    simp [Registry.difference]
  refine (hinit.step (e := .subscribed) rfl).step
    (e := .fetched (some [tenRow]) [] [] fun _ => false) ?_
  have hdistinct : Distinct [tenRow] := by decide
  have hcallbacks : tenTask.callbacks = [] := rfl
  simp [machine, step, State.fetchAll, Registry.ran, State.cancelStale, State.startMissing, hkeys,
    hnone, hdistinct, hcallbacks, Registry.cancelTasks, State.startTasks, Registry.startTasks,
    State.jobEnds]

/-- The text of the tenant in capitals. -/
def capitals : PyStr := text "00000000-0000-0000-0000-00000000000A"

lemma capitals_read : driverUuid capitals = some 10 ∧ tenTask.tenantKeys capitals = [] ∧
    PyChar.scalar ':' ∉ capitals ∧ 36 ≤ capitals.length ∧
    PyChar.scalar ':' ∉ uuidText 10 ∧ capitals ≠ uuidText 10 := by
  decide +kernel

theorem text_contained :
    (∀ fails r outcome, Reloaded driverUuid (fun _ => true) fails [tenRow] (uuidText 10) tenTask r
      outcome → Contained (fun _ => true) [tenRow] (driverUuid (uuidText 10)) tenTask r outcome) ∧
    ¬ ∀ fails r outcome, Reloaded driverUuid (fun _ => true) fails [tenRow] capitals tenTask r
      outcome → Contained (fun _ => true) [tenRow] (driverUuid capitals) tenTask r outcome := by
  obtain ⟨hread, -, hcolon, hlen, hcolon', hne⟩ := capitals_read
  have htext : driverUuid (uuidText 10) = some 10 := driverUuid_uuidText ten_lt_uuids
  constructor
  · refine (reload_contained_iff driver_reads tenTask_listening rfl (by decide)
      (uuidText_length 10).ge hcolon').mpr fun n hn => Or.inl ?_
    rw [Option.some.inj (htext.symm.trans hn)]
  · intro hall
    have hcond := (reload_contained_iff driver_reads tenTask_listening rfl (by decide) hlen
      hcolon).mp hall 10 hread
    have hraised := hcond.resolve_left hne 0 ⟨tenRow, false, none⟩ (Dict.get?_set_self _ _ _) rfl rfl
    cases hraised

/-- A message in capitals for a tenant that is running trips the assertion. -/
theorem capitals_trip_assertion : ¬ ∀ (s : State Unit) (table : List (Row Unit))
    (tenantId : PyStr), (machine fun _ => true).Reachable s → s.driver = .listening →
    Distinct table → 36 ≤ tenantId.length → PyChar.scalar ':' ∉ tenantId →
    ∀ fails r outcome, Reloaded driverUuid (fun _ => true) fails table tenantId s.reg r outcome →
      outcome ≠ .raised .assertionError := by
  obtain ⟨hread, hkeys, hcolon, hlen, -, -⟩ := capitals_read
  intro hall
  have hjoined : Joined (tenTask.cancelTasks (tenTask.tenantKeys capitals)) tenTask := by
    rw [hkeys]
    exact Or.inl ⟨rfl, rfl⟩
  have hrows : [tenRow].Perm ([tenRow].filter fun row => driverUuid capitals = some row.tenant) := by
    simp [hread, tenRow]
  have hstart : tenTask.startTasks (fun _ => true) (fun _ => false) [tenRow] =
      (tenTask, some .assertionError) := by
    have hin : tenRow.key ∈ tenTask.tasks.keys := Dict.mem_keys_set.mpr (Or.inl rfl)
    simp [Registry.startTasks, Registry.startTask, hin]
  exact hall ⟨.redis, tenTask, .listening, .notCalled⟩ [tenRow] capitals tenTask_listening rfl
    (by decide) hlen hcolon (fun _ => false) tenTask _
    ⟨tenTask, tenTask, hjoined, ⟨.refl _, rfl⟩,
      Or.inr ⟨[tenRow], _, by simp [hread], hrows, hstart, rfl⟩⟩ rfl

end Example

end Omkit.Provider
