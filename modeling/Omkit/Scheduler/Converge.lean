import Omkit.Scheduler.Entries

/-!
# What one reconcile leaves

`RowAfter` says what a `_reconcile` in which no call fails does to the entry of one row, and
`reconcile_spec` that it does this to every row.  From it follows when the entries are afterwards
those of the table: a row that the deriver skips keeps the entry that it has.
-/

namespace Omkit.Scheduler

open Lib Jobqueue

variable {F : Type} [JsonRuntime F] [Pydantic F]

/-! ## Bodies -/

section Bodies

variable {p : Provider F} {spec hash : PyStr}

omit [Pydantic F]

lemma configHash_eq_ok (h : configHash spec p.config = .ok hash) :
    check (JsonRuntime.maxDepth F) (sortKeys p.config) = .ok () := by
  unfold configHash hashInput at h
  cases hd : dumps .compact (sortKeys p.config) with
  | error e => simp [hd, bind, Except.bind, Except.map] at h
  | ok s => exact (dumps_eq_ok.mp hd).1

/-- A row that can be hashed has a payload, of two strings. -/
lemma exists_buildPayload (h : check (JsonRuntime.maxDepth F) (sortKeys p.config) = .ok ()) :
    ∃ cfg, buildPayload p =
      .ok [(text "provider_name", .str p.name), (text "config", .str cfg)] := by
  have hd : dumps .default (sortKeys p.config) = .ok (render .default (sortKeys p.config)) :=
    dumps_eq_ok.mpr ⟨h, rfl⟩
  refine ⟨render .default (sortKeys p.config), ?_⟩
  simp [buildPayload, hd]

end Bodies

omit [Pydantic F] in
/-- The encoder accepts the envelope of a payload of two strings. -/
lemma check_strings (tenantId name cfg : PyStr) :
    check (JsonRuntime.maxDepth F) (.obj (envelopeObject tenantId
      [(text "provider_name", .str name), (text "config", (.str cfg : Json F))] [])) = .ok () := by
  obtain ⟨d, hd⟩ := Nat.exists_eq_add_of_le (JsonRuntime.maxDepth_ge (F := F))
  have hdepth : JsonRuntime.maxDepth F = d + 1 + 1 := by omega
  rw [hdepth]
  refine check_envelopeObject ?_
  simp [check, checkMembers, bind, Except.bind]

/-- A payload of strings is wrapped exactly for a tenant that is a UUID. -/
lemma wrap_strings (tenantId name cfg : PyStr) :
    (∃ body, wrap tenantId
      [(text "provider_name", .str name), (text "config", (.str cfg : Json F))] = .ok body) ↔
      (uuidOf tenantId).isSome = true := by
  constructor
  · rintro ⟨body, h⟩
    exact (wrap_eq_ok.mp h).1
  · intro ht
    have hcheck := check_strings (F := F) tenantId name cfg
    have hs := dumps_eq_ok (o := .compact) |>.mpr ⟨hcheck, rfl⟩
    obtain ⟨b, hb, -⟩ := loadsBytes_dumps DumpOpts.compact_ok DumpOpts.compact_ascii hs
    exact ⟨b, wrap_eq_ok.mpr ⟨ht, by simp, _, hs, hb⟩⟩

/-! ## A reconcile in which no call fails -/

/-- The answers of a reconcile in which the deriver answers as `derive` does and no call to the
backend raises. -/
def succeeds (derive : Provider F → PyStr × Bool) : (c : Call F) → Answer c → Bool
  | .deriveCron p, (a : Option (PyStr × Bool)) => decide (a = some (derive p))
  | .unregister _, ok => ok
  | .register .., id => id.isSome
  | .enqueue .., _ => true

/-- The outside, when it answers so. -/
def World.succeed (derive : Provider F → PyStr × Bool) (w : World F) (c : Call F) (a : Answer c) :
    Option (World F) :=
  if succeeds derive c a then w.answer c a else none

/-- The entry that a row has after a reconcile, given the one that it had before. -/
inductive RowAfter (derive : Provider F → PyStr × Bool) (p : Provider F) (old : Option Entry) :
    Option Entry → Prop
  /-- The deriver skips the row. -/
  | skipped (h : (derive p).2 = false) : RowAfter derive p old old
  | unchanged {e} (h : (derive p).2 = true) (he : old = some e)
      (hhash : configHash (derive p).1 p.config = .ok e.hash) : RowAfter derive p old old
  | registered {id hash} (h : (derive p).2 = true) (hold : ∀ e, old = some e → e.hash ≠ hash)
      (hhash : configHash (derive p).1 p.config = .ok hash)
      (ht : (uuidOf p.tenantId).isSome = true) :
      RowAfter derive p old (some ⟨id, hash, (derive p).1⟩)
  /-- The tenant of the row is no UUID: its payload cannot be wrapped. -/
  | dropped {hash} (h : (derive p).2 = true) (hold : ∀ e, old = some e → e.hash ≠ hash)
      (hhash : configHash (derive p).1 p.config = .ok hash)
      (ht : (uuidOf p.tenantId).isSome = false) : RowAfter derive p old none

/-- A row on which `_config_hash` raises. -/
def Unhashable (derive : Provider F → PyStr × Bool) (p : Provider F) : Prop :=
  (derive p).2 = true ∧ ∃ e, configHash (derive p).1 p.config = .error e

section Loops

variable {derive : Provider F → PyStr × Bool} {cfg : Config} {entries : Dict PyStr Entry}
  {w : World F}

section Calls

omit [JsonRuntime F] [Pydantic F]

lemma succeed_eq_some {c : Call F} {a : Answer c} {v : World F}
    (h : w.succeed derive c a = some v) : succeeds derive c a = true ∧ w.answer c a = some v := by
  unfold World.succeed at h
  split_ifs at h with hs
  exact ⟨hs, h⟩

lemma wp_deriveCron_succeed {p : Provider F}
    {Q : Option (PyStr × Bool) → Dict PyStr Entry → World F → Prop}
    (h : ∀ v, Q (some (derive p)) entries v) :
    (deriveCron p).wp (World.succeed derive) Q entries w := by
  intro a v hv
  have ha : succeeds derive (.deriveCron p) a = true := (succeed_eq_some hv).1
  simp only [succeeds, decide_eq_true_eq] at ha
  exact ha ▸ h v

lemma wp_unregister_succeed {id : PyStr} {Q : Bool → Dict PyStr Entry → World F → Prop}
    (h : ∀ v, Q true entries v) : (unregister id).wp (World.succeed derive) Q entries w := by
  intro ok v hv
  obtain rfl : ok = true := (succeed_eq_some hv).1
  exact h v

lemma wp_register_succeed {spec taskType queue : PyStr} {body : Bytes}
    {Q : Option PyStr → Dict PyStr Entry → World F → Prop} (h : ∀ id v, Q (some id) entries v) :
    (register spec taskType body queue).wp (World.succeed derive) Q entries w := by
  intro a v hv
  obtain ⟨id, rfl⟩ := Option.isSome_iff_exists.mp (succeed_eq_some hv).1
  exact h id v

lemma wp_enqueue_succeed {taskType tenantId queue : PyStr} {payload : List (PyStr × Json F)}
    {Q : Bool → Dict PyStr Entry → World F → Prop} (h : ∀ ok v, Q ok entries v) :
    (enqueue taskType tenantId payload queue).wp (World.succeed derive) Q entries w :=
  fun ok v _ => h ok v

end Calls

omit [JsonRuntime F] [Pydantic F] in
lemma unregisterStale_after (ks : List PyStr) :
    (unregisterStale ks).wp (World.succeed derive)
      (fun _ entries' _ => ∀ k, entries'.get? k = if k ∈ ks then none else entries.get? k)
      entries w := by
  induction ks generalizing entries w with
  | nil => simp [unregisterStale]
  | cons k ks ih =>
    simp only [unregisterStale, Coro.bind_eq, Coro.wp_bind, Coro.wp_read]
    cases he : entries.get? k with
    | none =>
      refine (@ih entries _).mono fun _ entries' _ h k' => ?_
      rw [h]
      by_cases hk : k' = k <;> simp [hk, he]
    | some e =>
      simp only [Coro.wp_bind]
      refine wp_unregister_succeed fun v => ?_
      simp only [if_true, Coro.wp_bind, Coro.wp_modify]
      refine (@ih (entries.pop k) _).mono fun _ entries' _ h k' => ?_
      rw [h, Dict.get?_pop]
      by_cases hk : k' = k <;> simp [hk]

/-- `registerNew` changes the entry of its own key only, and sets it exactly if the tenant of the
row is a UUID. -/
lemma registerNew_after {p : Provider F} {spec hash : PyStr} (hk : entries.get? p.key = none)
    (hhash : configHash spec p.config = .ok hash) :
    (registerNew cfg p.key p spec hash).wp (World.succeed derive)
      (fun _ entries' _ => (∀ k, k ≠ p.key → entries'.get? k = entries.get? k) ∧
        if (uuidOf p.tenantId).isSome then ∃ id, entries'.get? p.key = some ⟨id, hash, spec⟩
        else entries'.get? p.key = none) entries w := by
  obtain ⟨c, hpay⟩ := exists_buildPayload (configHash_eq_ok hhash)
  simp only [registerNew, registerOne, Coro.bind_eq, Coro.wp_bind, hpay]
  have hwrap := wrap_strings (F := F) p.tenantId p.name c
  cases hb : wrap p.tenantId
      [(text "provider_name", .str p.name), (text "config", (.str c : Json F))] with
  | error e =>
    have hno : ¬ (uuidOf p.tenantId).isSome = true := by
      rw [← hwrap]
      simp [hb]
    simp only [Coro.pure_eq, Coro.wp_ret, if_neg hno]
    exact ⟨fun k _ => trivial, hk⟩
  | ok body =>
    have hyes : (uuidOf p.tenantId).isSome = true := hwrap.mp ⟨body, hb⟩
    refine wp_register_succeed fun id v => ?_
    have hafter : (∀ k, k ≠ p.key → (entries.set p.key ⟨id, hash, spec⟩).get? k = entries.get? k) ∧
        ∃ id', (entries.set p.key ⟨id, hash, spec⟩).get? p.key = some ⟨id', hash, spec⟩ :=
      ⟨fun k hk => Dict.get?_set_ne _ _ hk, id, Dict.get?_set_self _ _ _⟩
    simp only [Coro.wp_bind, Coro.wp_modify, if_pos hyes]
    cases cfg.enqueuer with
    | false => exact hafter
    | true =>
      simp only [Coro.wp_bind]
      exact wp_enqueue_succeed fun _ _ => hafter

/-- What the second loop leaves: the entries of other keys as they were, and for the rows what
`RowAfter` says, unless a row cannot be hashed. -/
def LoopAfter (derive : Provider F → PyStr × Bool) (items : List (PyStr × Provider F))
    (entries : Dict PyStr Entry) (r : Except Raised Unit) (entries' : Dict PyStr Entry) : Prop :=
  match r with
  | .ok () => (∀ k, k ∉ items.map Prod.fst → entries'.get? k = entries.get? k) ∧
      ∀ x ∈ items, RowAfter derive x.2 (entries.get? x.1) (entries'.get? x.1)
  | .error _ => ∃ x ∈ items, Unhashable derive x.2

omit [Pydantic F] in
/-- A step of the second loop: the head of the rows is done, and the tail leaves its entry. -/
lemma LoopAfter.cons {k : PyStr} {p : Provider F} {items : List (PyStr × Provider F)}
    {entries₁ entries₂ : Dict PyStr Entry} {r : Except Raised Unit}
    (hk : k ∉ items.map Prod.fst) (hother : ∀ k', k' ≠ k → entries₁.get? k' = entries.get? k')
    (hrow : RowAfter derive p (entries.get? k) (entries₁.get? k))
    (h : LoopAfter derive items entries₁ r entries₂) :
    LoopAfter derive ((k, p) :: items) entries r entries₂ := by
  cases r with
  | error e =>
    obtain ⟨x, hx, hun⟩ := h
    exact ⟨x, List.mem_cons_of_mem _ hx, hun⟩
  | ok u =>
    obtain ⟨hout, hin⟩ := h
    refine ⟨fun k' hk' => ?_, List.forall_mem_cons.mpr ⟨?_, fun x hx => ?_⟩⟩
    · simp only [List.map_cons, List.mem_cons, not_or] at hk'
      rw [hout k' hk'.2, hother k' hk'.1]
    · simpa only [hout k hk] using hrow
    · have hne : x.1 ≠ k := fun heq => hk (heq ▸ List.mem_map_of_mem hx)
      rw [← hother x.1 hne]
      exact hin x hx

lemma registerDesired_after {items : List (PyStr × Provider F)}
    (hkey : ∀ x ∈ items, x.2.key = x.1) (hn : (items.map Prod.fst).Nodup) :
    (registerDesired cfg items).wp (World.succeed derive)
      (fun r entries' _ => LoopAfter derive items entries r entries') entries w := by
  induction items generalizing entries w with
  | nil => exact ⟨fun _ _ => rfl, by simp⟩
  | cons x items ih =>
    obtain ⟨k, p⟩ := x
    obtain ⟨hp, hrest⟩ := List.forall_mem_cons.mp hkey
    obtain rfl : p.key = k := hp
    obtain ⟨hk, hn⟩ := List.nodup_cons.mp hn
    -- what is left to do after the row, whatever entry it then has
    have htail : ∀ {entries₁ : Dict PyStr Entry} {v : World F},
        (∀ k', k' ≠ p.key → entries₁.get? k' = entries.get? k') →
        RowAfter derive p (entries.get? p.key) (entries₁.get? p.key) →
        (registerDesired cfg items).wp (World.succeed derive)
          (fun r entries' _ => LoopAfter derive ((p.key, p) :: items) entries r entries')
          entries₁ v :=
      fun hother hrow => (ih hrest hn).mono fun _ _ _ h => h.cons hk hother hrow
    simp only [registerDesired, Coro.bind_eq, Coro.wp_bind]
    refine wp_deriveCron_succeed fun v => ?_
    cases hok : (derive p).2 with
    | false =>
      have hd : derive p = ((derive p).1, false) := Prod.ext rfl hok
      rw [hd]
      exact htail (fun _ _ => rfl) (.skipped hok)
    | true =>
      have hd : derive p = ((derive p).1, true) := Prod.ext rfl hok
      rw [hd]
      simp only
      cases hhash : configHash (derive p).1 p.config with
      | error e => exact ⟨(p.key, p), by simp, hok, e, hhash⟩
      | ok hash =>
        -- a new registration, over entries in which the key is free
        have hnew : ∀ {entries₁ : Dict PyStr Entry} {v : World F},
            entries₁.get? p.key = none →
            (∀ k', k' ≠ p.key → entries₁.get? k' = entries.get? k') →
            (∀ e, entries.get? p.key = some e → e.hash ≠ hash) →
            (registerNew cfg p.key p (derive p).1 hash).wp (World.succeed derive)
              (fun _ entries₂ v => (registerDesired cfg items).wp (World.succeed derive)
                (fun r entries' _ => LoopAfter derive ((p.key, p) :: items) entries r entries')
                entries₂ v) entries₁ v := by
          intro entries₁ v hfree hother hold
          refine (registerNew_after hfree hhash).mono fun _ entries₂ v hafter => ?_
          obtain ⟨hout, hset⟩ := hafter
          refine htail (fun k' hk' => (hout k' hk').trans (hother k' hk')) ?_
          split_ifs at hset with ht
          · obtain ⟨id, hid⟩ := hset
            rw [hid]
            exact .registered hok hold hhash ht
          · rw [hset]
            exact .dropped hok hold hhash (by simpa using ht)
        simp only [Coro.wp_bind, Coro.wp_read]
        cases he : entries.get? p.key with
        | none =>
          simp only [Coro.wp_bind]
          exact hnew he (fun _ _ => rfl) (by simp [he])
        | some existing =>
          simp only
          split_ifs with hsame
          · exact htail (fun _ _ => rfl) (.unchanged hok he (hsame ▸ hhash))
          · simp only [Coro.wp_bind]
            refine wp_unregister_succeed fun v => ?_
            simp only [if_true, Coro.wp_bind, Coro.wp_modify]
            refine hnew (by simp) (fun k' hk' => Dict.get?_pop_ne _ hk') ?_
            intro e he'
            rw [← Option.some.inj (he.symm.trans he')]
            exact hsame

/-! ## Convergence -/

/-- The entries are those of the rows that the deriver accepts, with their current hashes. -/
structure Converged (derive : Provider F → PyStr × Bool) (rows : List (Provider F))
    (entries : Dict PyStr Entry) : Prop where
  keys : ∀ k, k ∈ entries.keys ↔ ∃ p ∈ rows, (derive p).2 = true ∧ p.key = k
  hashes : ∀ p ∈ rows, (derive p).2 = true → ∀ e, entries.get? p.key = some e →
    configHash (derive p).1 p.config = .ok e.hash

/-- The states and rows from which `_reconcile` converges: no row that the deriver skips has an
entry, and every row that it accepts can be hashed and registered. -/
structure Convergent (derive : Provider F → PyStr × Bool) (rows : List (Provider F))
    (entries : Dict PyStr Entry) : Prop where
  skipped : ∀ p ∈ rows, (derive p).2 = false → p.key ∉ entries.keys
  accepted : ∀ p ∈ rows, (derive p).2 = true →
    ∃ hash, configHash (derive p).1 p.config = .ok hash ∧
      ((∃ e, entries.get? p.key = some e ∧ e.hash = hash) ∨ (uuidOf p.tenantId).isSome = true)

/-- What `_reconcile` leaves for rows with distinct keys: the entries of other keys are gone, and
those of the rows are as `RowAfter` says, unless a row cannot be hashed. -/
def ReconcileAfter (derive : Provider F → PyStr × Bool) (rows : List (Provider F))
    (entries : Dict PyStr Entry) (r : Except Raised Unit) (entries' : Dict PyStr Entry) : Prop :=
  match r with
  | .ok () => (∀ k, k ∉ rows.map Provider.key → entries'.get? k = none) ∧
      ∀ p ∈ rows, RowAfter derive p (entries.get? p.key) (entries'.get? p.key)
  | .error _ => ∃ p ∈ rows, Unhashable derive p

omit [JsonRuntime F] [Pydantic F] in
lemma items_desiredOf {rows : List (Provider F)} (hrows : (rows.map Provider.key).Nodup) :
    (desiredOf rows).items = rows.map fun p => (p.key, p) := by
  refine Dict.items_ofList ?_
  rw [List.map_map]
  exact hrows

/-- **One `_reconcile` in which no call fails treats every row by itself.** -/
theorem reconcile_after {rows : List (Provider F)} (hrows : (rows.map Provider.key).Nodup) :
    (reconcile cfg (desiredOf rows)).wp (World.succeed derive)
      (fun r entries' _ => ReconcileAfter derive rows entries r entries') entries w := by
  have hitems := items_desiredOf hrows
  have hkeys : (desiredOf rows).keys = rows.map Provider.key := by
    rw [Dict.keys, hitems, List.map_map]
    rfl
  simp only [reconcile, Coro.bind_eq, Coro.wp_bind, Coro.wp_read]
  refine (unregisterStale_after _).mono fun _ entries₁ w₁ hstale => ?_
  -- the first loop keeps the entries of the rows and no others
  have hkept : ∀ k, entries₁.get? k = if k ∈ rows.map Provider.key then entries.get? k else none := by
    intro k
    rw [hstale, hkeys]
    by_cases hk : k ∈ rows.map Provider.key
    · rw [if_pos hk, if_neg]
      intro hmem
      exact absurd hk (by simpa using (List.mem_filter.mp hmem).2)
    · rw [if_neg hk]
      split_ifs with hmem
      · rfl
      · rw [Dict.get?_eq_none]
        exact fun hin => hmem (List.mem_filter.mpr ⟨hin, by simpa using hk⟩)
  have hloop : (registerDesired cfg (desiredOf rows).items).wp (World.succeed derive)
      (fun r entries' _ => LoopAfter derive (desiredOf rows).items entries₁ r entries')
      entries₁ w₁ :=
    registerDesired_after (by simp [hitems]) (by rw [hitems, List.map_map]; exact hrows)
  refine hloop.mono fun r entries' _ h => ?_
  cases r with
  | error e =>
    obtain ⟨x, hx, hun⟩ := h
    rw [hitems] at hx
    obtain ⟨p, hp, rfl⟩ := List.mem_map.mp hx
    exact ⟨p, hp, hun⟩
  | ok u =>
    obtain ⟨hout, hin⟩ := h
    rw [hitems] at hout hin
    refine ⟨fun k hk => ?_, fun p hp => ?_⟩
    · have hout := hout k (by rw [List.map_map]; exact hk)
      rw [hout, hkept, if_neg hk]
    · have hrow := hin (p.key, p) (List.mem_map_of_mem hp)
      have hk := hkept p.key
      rw [if_pos (List.mem_map_of_mem hp)] at hk
      rw [← hk]
      exact hrow

omit [Pydantic F] in
/-- A row has an entry after a reconcile exactly if it had one and is skipped, or is accepted and
registered. -/
lemma RowAfter.isSome_iff {p : Provider F} {old new : Option Entry}
    (h : RowAfter derive p old new) :
    new.isSome = true ↔ ((derive p).2 = false ∧ old.isSome = true) ∨ ((derive p).2 = true ∧
      ((∃ e, old = some e ∧ configHash (derive p).1 p.config = .ok e.hash) ∨
        (uuidOf p.tenantId).isSome = true)) := by
  cases h with
  | skipped h => simp [h]
  | unchanged h he hhash => simp [h, he, hhash]
  | registered h hold hhash ht => simp [h, ht]
  | @dropped hash h hold hhash ht =>
    simp only [h, ht, Option.isSome_none, Bool.false_eq_true, false_iff, hhash]
    rintro (⟨h', -⟩ | ⟨-, ⟨e, he, heq⟩ | h'⟩)
    · simp at h'
    · exact hold e he (Except.ok.inj heq).symm
    · simp at h'

omit [Pydantic F] in
/-- An accepted row can be hashed, and the entry that it has afterwards has its hash. -/
lemma RowAfter.hash {p : Provider F} {old new : Option Entry} (h : RowAfter derive p old new)
    (hok : (derive p).2 = true) : ∃ hash, configHash (derive p).1 p.config = .ok hash ∧
      ∀ e, new = some e → e.hash = hash := by
  cases h with
  | skipped h => simp [hok] at h
  | unchanged h he hhash => exact ⟨_, hhash, fun e' he' => by rw [← Option.some.inj (he.symm.trans he')]⟩
  | @registered id hash h hold hhash ht =>
    exact ⟨hash, hhash, fun e he => by rw [← Option.some.inj he]⟩
  | @dropped hash h hold hhash ht => exact ⟨hash, hhash, by simp⟩

omit [Pydantic F] in
/-- The converged states among those that a reconcile leaves. -/
lemma converged_iff_of_after {rows : List (Provider F)} (hrows : (rows.map Provider.key).Nodup)
    {r : Except Raised Unit} {entries' : Dict PyStr Entry}
    (h : ReconcileAfter derive rows entries r entries') :
    Converged derive rows entries' ↔ Convergent derive rows entries := by
  have hmem : ∀ {d : Dict PyStr Entry} {k : PyStr}, k ∈ d.keys ↔ (d.get? k).isSome = true := by
    intro d k
    rw [Dict.mem_keys_iff_get?, Option.isSome_iff_exists]
  cases r with
  | error e =>
    -- a row that cannot be hashed is in the way of both
    obtain ⟨p, hp, hok, e, hhash⟩ := h
    refine iff_of_false (fun hc => ?_) (fun hc => ?_)
    · obtain ⟨e', he'⟩ := Dict.mem_keys_iff_get?.mp ((hc.keys p.key).mpr ⟨p, hp, hok, rfl⟩)
      have hnot := hc.hashes p hp hok e' he'
      simp [hhash] at hnot
    · obtain ⟨hash, hnot, -⟩ := hc.accepted p hp hok
      simp [hhash] at hnot
  | ok u =>
    obtain ⟨hout, hin⟩ := h
    have hinj : ∀ p ∈ rows, ∀ q ∈ rows, q.key = p.key → q = p := fun p hp q hq hk =>
      List.inj_on_of_nodup_map hrows hq hp hk
    constructor
    · intro hc
      refine ⟨fun p hp hskip hk => ?_, fun p hp hok => ?_⟩
      · have hsome := (hin p hp).isSome_iff.mpr (Or.inl ⟨hskip, hmem.mp hk⟩)
        obtain ⟨q, hq, hqok, hqk⟩ := (hc.keys p.key).mp (hmem.mpr hsome)
        rw [hinj p hp q hq hqk, hskip] at hqok
        exact absurd hqok (by simp)
      · obtain ⟨hash, hhash, -⟩ := (hin p hp).hash hok
        have hsome := hmem.mp ((hc.keys p.key).mpr ⟨p, hp, hok, rfl⟩)
        refine ⟨hash, hhash, ?_⟩
        rcases (hin p hp).isSome_iff.mp hsome with ⟨hskip, -⟩ | ⟨-, ⟨e, he, heq⟩ | ht⟩
        · simp [hok] at hskip
        · exact Or.inl ⟨e, he, Except.ok.inj (heq.symm.trans hhash)⟩
        · exact Or.inr ht
    · intro hc
      refine ⟨fun k => ⟨fun hk => ?_, ?_⟩, fun p hp hok e he => ?_⟩
      · by_cases hrow : k ∈ rows.map Provider.key
        · obtain ⟨p, hp, rfl⟩ := List.mem_map.mp hrow
          rcases (hin p hp).isSome_iff.mp (hmem.mp hk) with ⟨hskip, hold⟩ | ⟨hok, -⟩
          · exact absurd (hmem.mpr hold) (hc.skipped p hp hskip)
          · exact ⟨p, hp, hok, rfl⟩
        · simp [hmem, hout k hrow] at hk
      · rintro ⟨p, hp, hok, rfl⟩
        obtain ⟨hash, hhash, hreg⟩ := hc.accepted p hp hok
        refine hmem.mpr ((hin p hp).isSome_iff.mpr (Or.inr ⟨hok, ?_⟩))
        rcases hreg with ⟨e, he, heq⟩ | ht
        · exact Or.inl ⟨e, he, heq ▸ hhash⟩
        · exact Or.inr ht
      · obtain ⟨hash, hhash, hnew⟩ := (hin p hp).hash hok
        rw [hnew e he, hhash]

/-- **A `_reconcile` in which no call fails converges to its rows exactly when no row that the
deriver skips has an entry**, provided that the rows that it accepts can be hashed and
registered. -/
theorem converged_iff {rows : List (Provider F)} (hrows : (rows.map Provider.key).Nodup)
    {r : Except Raised Unit} {entries' : Dict PyStr Entry} {w' : World F}
    (hrun : Coro.Runs (World.succeed derive) (reconcile cfg (desiredOf rows)) entries w r entries'
      w') :
    Converged derive rows entries' ↔ Convergent derive rows entries :=
  converged_iff_of_after hrows ((reconcile_after hrows).runs hrun)

end Loops

/-! ## A row that is skipped after it was registered -/

section Example

/-- A deriver that skips every row. -/
def skipAll : Provider Empty → PyStr × Bool := fun _ => ([], false)

/-- A deriver that runs every row once a minute. -/
def acceptAll : Provider Empty → PyStr × Bool := fun _ => (text "@every 1m", true)

/-- The answers of a deriver and of a backend that has no entry called `e1`. -/
def answers (derive : Provider Empty → PyStr × Bool) : World Empty → (c : Call Empty) → Answer c
  | _, .deriveCron p => some (derive p)
  | _, .unregister _ => true
  | _, .register .. => some (text "e1")
  | _, .enqueue .. => true

/-- One reconcile registers the row; in the next one the deriver skips it. -/
lemma skipped_keys :
    (((machine syncs).run fresh oneReconcile).bind fun s =>
      (Coro.eval (World.succeed skipAll) (answers skipAll) (reconcile syncs (desiredOf [openai]))
        s.entries s.world).map fun x => (s.holder.isNone, x.2.1.keys)) =
      some (true, [openai.key]) := by
  decide +kernel

/-- A reconcile in which no call fails, and after which a row that the deriver skips still has its
entry. -/
theorem skipped_row_keeps_entry :
    ¬ ∀ (s : State Empty) (rows : List (Provider Empty)) (derive : Provider Empty → PyStr × Bool)
      (r : Except Raised Unit) (entries' : Dict PyStr Entry) (w' : World Empty),
      (machine syncs).Reachable s → s.holder = none → (rows.map Provider.key).Nodup →
      Coro.Runs (World.succeed derive) (reconcile syncs (desiredOf rows)) s.entries s.world r
        entries' w' → Converged derive rows entries' := by
  intro hall
  obtain ⟨s, hrun, hs⟩ := Option.bind_eq_some_iff.mp skipped_keys
  obtain ⟨⟨r, entries', w'⟩, heval, hkeys⟩ := Option.map_eq_some_iff.mp hs
  simp only [Prod.mk.injEq] at hkeys
  have hreach : (machine syncs).Reachable s :=
    (Machine.Reachable.init (M := machine syncs) rfl).run hrun
  have hconv := hall s [openai] skipAll r entries' w' hreach (by simpa using hkeys.1) (by simp)
    (Coro.runs_of_eval heval)
  obtain ⟨p, -, hok, -⟩ := (hconv.keys openai.key).mp (by simp [hkeys.2])
  simp [skipAll] at hok

/-- The first reconcile of a row, in which no call fails. -/
lemma accepted_returns :
    (Coro.eval (World.succeed acceptAll) (answers acceptAll)
      (reconcile syncs (desiredOf [openai])) .empty ⟨.empty, []⟩).isSome = true := by
  decide +kernel

theorem accepted_converged :
    ∃ (r : Except Raised Unit) (entries' : Dict PyStr Entry) (w' : World Empty),
      Coro.Runs (World.succeed acceptAll) (reconcile syncs (desiredOf [openai])) .empty
        ⟨.empty, []⟩ r entries' w' ∧ Converged acceptAll [openai] entries' := by
  obtain ⟨⟨r, entries', w'⟩, heval⟩ := Option.isSome_iff_exists.mp accepted_returns
  have hrun := Coro.runs_of_eval heval
  obtain ⟨hash, hhash⟩ :
      ∃ hash, configHash (acceptAll openai).1 openai.config = .ok hash := ⟨_, rfl⟩
  refine ⟨r, entries', w', hrun, (converged_iff (by simp) hrun).mpr ⟨fun p _ hskip => ?_, ?_⟩⟩
  · simp [acceptAll] at hskip
  · intro p hp _
    obtain rfl := List.mem_singleton.mp hp
    exact ⟨hash, hhash, Or.inr (by decide)⟩

end Example

end Omkit.Scheduler
