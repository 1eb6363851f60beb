import Omkit.Scheduler.Reconcile

/-!
# The entries of the scheduler and of its backend

Whatever calls fail, `_entries` and the backend agree whenever the lock is free.  Inside the lock
the agreement also holds at every call, and that is how it is proved: each loop of `_reconcile`
keeps `Consistent` as its invariant.
-/

namespace Omkit.Scheduler

open Lib Jobqueue

variable {F : Type} [JsonRuntime F] [Pydantic F]

/-! ## The calls -/

section Calls

variable {entries : Dict PyStr Entry} {w : World F}

omit [JsonRuntime F] [Pydantic F]

lemma wp_deriveCron {p : Provider F} {Q : Option (PyStr × Bool) → Dict PyStr Entry → World F → Prop}
    (hraise : Q none entries w) (hskip : ∀ spec, Q (some (spec, false)) entries w)
    (hok : ∀ spec, Q (some (spec, true)) entries { w with derived := (p, spec) :: w.derived }) :
    (deriveCron p).wp World.answer Q entries w := by
  rintro (_ | ⟨spec, _ | _⟩) v hv
  · obtain rfl := Option.some.inj hv
    exact hraise
  · obtain rfl := Option.some.inj hv
    exact hskip spec
  · obtain rfl := Option.some.inj hv
    exact hok spec

lemma wp_unregister {id : PyStr} {Q : Bool → Dict PyStr Entry → World F → Prop}
    (hraise : Q false entries w) (hok : Q true entries { w with live := w.live.pop id }) :
    (unregister id).wp World.answer Q entries w := by
  rintro (_ | _) v hv
  · obtain rfl := Option.some.inj hv
    exact hraise
  · obtain rfl := Option.some.inj hv
    exact hok

lemma wp_register {spec taskType queue : PyStr} {body : Bytes}
    {Q : Option PyStr → Dict PyStr Entry → World F → Prop} (hraise : Q none entries w)
    (hok : ∀ id, id ∉ w.live.keys →
      Q (some id) entries { w with live := w.live.set id ⟨spec, taskType, body, queue⟩ }) :
    (register spec taskType body queue).wp World.answer Q entries w := by
  rintro (_ | id) v hv
  · obtain rfl := Option.some.inj hv
    exact hraise
  · have hv' : (if id ∈ w.live.keys then none else
        some { w with live := w.live.set id ⟨spec, taskType, body, queue⟩ }) = some v := hv
    split_ifs at hv' with hid
    obtain rfl := Option.some.inj hv'
    exact hok id hid

lemma wp_enqueue {taskType tenantId queue : PyStr} {payload : List (PyStr × Json F)}
    {Q : Bool → Dict PyStr Entry → World F → Prop} (h : ∀ ok, Q ok entries w) :
    (enqueue taskType tenantId payload queue).wp World.answer Q entries w := by
  intro ok v hv
  obtain rfl := Option.some.inj hv
  exact h ok

end Calls

/-! ## The agreement of `_entries` and the backend -/

/-- An entry under the key `k` runs the job of a row with that key: its specification is one that
the deriver gave for the row, its hash is that of the row, and the body that runs is the row's
payload, wrapped for the row's tenant. -/
def RunsRow (cfg : Config) (w : World F) (k : PyStr) (e : Entry) : Prop :=
  ∃ (p : Provider F) (payload : List (PyStr × Json F)) (body : Bytes) (env : Envelope F),
    p.key = k ∧ (p, e.cronspec) ∈ w.derived ∧ configHash e.cronspec p.config = .ok e.hash ∧
    buildPayload p = .ok payload ∧ wrap p.tenantId payload = .ok body ∧
    w.live.get? e.entryId = some ⟨e.cronspec, cfg.taskType, body, cfg.queue⟩ ∧
    unwrap (.bytes body) = .ok env ∧ env.tenantId = p.tenantId

/-- `_entries` and the backend agree. -/
structure Consistent (cfg : Config) (entries : Dict PyStr Entry) (w : World F) : Prop where
  /-- No two keys have the same entry. -/
  distinct : ∀ k k' e e', entries.get? k = some e → entries.get? k' = some e' →
    e.entryId = e'.entryId → k = k'
  /-- The live entries are those of `_entries`. -/
  live : ∀ id, id ∈ w.live.keys ↔ ∃ k e, entries.get? k = some e ∧ e.entryId = id
  runs : ∀ k e, entries.get? k = some e → RunsRow cfg w k e

variable {cfg : Config} {entries : Dict PyStr Entry} {w : World F}

lemma RunsRow.mono {w' : World F} {k : PyStr} {e : Entry} (h : RunsRow cfg w k e)
    (hd : w.derived ⊆ w'.derived) (hl : w'.live.get? e.entryId = w.live.get? e.entryId) :
    RunsRow cfg w' k e := by
  obtain ⟨p, payload, body, env, hk, hder, hhash, hpay, hwrap, hlive, hun, ht⟩ := h
  exact ⟨p, payload, body, env, hk, hd hder, hhash, hpay, hwrap, hl.trans hlive, hun, ht⟩

lemma Consistent.derive (h : Consistent cfg entries w) (x : Provider F × PyStr) :
    Consistent cfg entries { w with derived := x :: w.derived } where
  distinct := h.distinct
  live := h.live
  runs k e he := (h.runs k e he).mono (List.subset_cons_self _ _) rfl

/-- The agreement after an entry is removed on both sides. -/
lemma Consistent.unregister (h : Consistent cfg entries w) {k : PyStr} {e : Entry}
    (he : entries.get? k = some e) :
    Consistent cfg (entries.pop k) { w with live := w.live.pop e.entryId } where
  distinct k₁ k₂ e₁ e₂ h₁ h₂ hid := by
    rw [Dict.get?_pop] at h₁ h₂
    split_ifs at h₁ h₂
    exact h.distinct k₁ k₂ e₁ e₂ h₁ h₂ hid
  live id := by
    rw [Dict.mem_keys_pop, h.live]
    constructor
    · rintro ⟨⟨k', e', he', rfl⟩, hne⟩
      refine ⟨k', e', ?_, rfl⟩
      rw [Dict.get?_pop_ne _ (fun hk => hne ?_)]
      · exact he'
      · subst hk
        rw [Option.some.inj (he'.symm.trans he)]
    · rintro ⟨k', e', he', rfl⟩
      rw [Dict.get?_pop] at he'
      split_ifs at he' with hk
      exact ⟨⟨k', e', he', rfl⟩, fun hid => hk (h.distinct k' k e' e he' he hid)⟩
  runs k' e' he' := by
    rw [Dict.get?_pop] at he'
    split_ifs at he' with hk
    refine (h.runs k' e' he').mono (List.Subset.refl _) ?_
    exact Dict.get?_pop_ne _ fun hid => hk (h.distinct k' k e' e he' he hid)

/-- The agreement after an entry with a fresh id is added on both sides. -/
lemma Consistent.register (h : Consistent cfg entries w) {k id spec hash : PyStr}
    (hk : entries.get? k = none) (hid : id ∉ w.live.keys) {job : Job}
    (hrow : RunsRow cfg { w with live := w.live.set id job } k ⟨id, hash, spec⟩) :
    Consistent cfg (entries.set k ⟨id, hash, spec⟩) { w with live := w.live.set id job } where
  distinct k₁ k₂ e₁ e₂ h₁ h₂ heq := by
    have hfresh : ∀ k' e', entries.get? k' = some e' → e'.entryId ≠ id :=
      fun k' e' he' hid' => hid ((h.live id).mpr ⟨k', e', he', hid'⟩)
    rw [Dict.get?_set] at h₁ h₂
    split_ifs at h₁ h₂ with hk₁ hk₂ hk₂
    · rw [hk₁, hk₂]
    · obtain rfl := Option.some.inj h₁
      exact absurd heq.symm (hfresh k₂ e₂ h₂)
    · obtain rfl := Option.some.inj h₂
      exact absurd heq (hfresh k₁ e₁ h₁)
    · exact h.distinct k₁ k₂ e₁ e₂ h₁ h₂ heq
  live id' := by
    rw [Dict.mem_keys_set, h.live]
    constructor
    · rintro (rfl | ⟨k', e', he', rfl⟩)
      · exact ⟨k, _, Dict.get?_set_self _ _ _, rfl⟩
      · refine ⟨k', e', ?_, rfl⟩
        rw [Dict.get?_set_ne _ _ (fun hkk => ?_)]
        · exact he'
        · subst hkk
          rw [hk] at he'
          simp at he'
    · rintro ⟨k', e', he', rfl⟩
      rw [Dict.get?_set] at he'
      split_ifs at he'
      · obtain rfl := Option.some.inj he'
        exact Or.inl rfl
      · exact Or.inr ⟨k', e', he', rfl⟩
  runs k' e' he' := by
    rw [Dict.get?_set] at he'
    split_ifs at he' with hkk
    · obtain rfl := Option.some.inj he'
      exact hkk ▸ hrow
    · refine (h.runs k' e' he').mono (List.Subset.refl _) ?_
      exact Dict.get?_set_ne _ _ fun hid' => hid ((h.live id).mpr ⟨k', e', he', hid'⟩)

/-! ## The loops -/

/-- The postcondition of every part of `_reconcile`. -/
def Agree (cfg : Config) {α : Type} (_ : α) (entries : Dict PyStr Entry) (w : World F) : Prop :=
  Consistent cfg entries w

lemma unregisterStale_spec (ks : List PyStr) (h : Consistent cfg entries w) :
    (unregisterStale ks).wp World.answer (Agree cfg) entries w := by
  induction ks generalizing entries w with
  | nil => exact h
  | cons k ks ih =>
    simp only [unregisterStale, Coro.bind_eq, Coro.wp_bind, Coro.wp_read]
    cases he : entries.get? k with
    | none => exact ih h
    | some e =>
      simp only [Coro.wp_bind]
      refine wp_unregister ?_ ?_
      · simpa using ih h
      · simpa using ih (h.unregister he)

/-- A row whose payload is wrapped for its tenant makes a job that runs it. -/
lemma runsRow_of_wrap {p : Provider F} {payload : List (PyStr × Json F)} {body : Bytes}
    {spec hash id : PyStr} (hder : (p, spec) ∈ w.derived)
    (hhash : configHash spec p.config = .ok hash) (hpay : buildPayload p = .ok payload)
    (hwrap : wrap p.tenantId payload = .ok body) :
    RunsRow cfg { w with live := w.live.set id ⟨spec, cfg.taskType, body, cfg.queue⟩ } p.key
      ⟨id, hash, spec⟩ :=
  ⟨p, payload, body, _, rfl, hder, hhash, hpay, hwrap, Dict.get?_set_self _ _ _, unwrap_wrap hwrap,
    rfl⟩

lemma registerNew_spec {p : Provider F} {spec hash : PyStr} (h : Consistent cfg entries w)
    (hk : entries.get? p.key = none) (hder : (p, spec) ∈ w.derived)
    (hhash : configHash spec p.config = .ok hash) :
    (registerNew cfg p.key p spec hash).wp World.answer (Agree cfg) entries w := by
  simp only [registerNew, registerOne, Coro.bind_eq, Coro.wp_bind]
  cases hpay : buildPayload p with
  | error e => exact h
  | ok payload =>
    simp only
    cases hwrap : wrap p.tenantId payload with
    | error e => exact h
    | ok body =>
      simp only
      refine wp_register h fun id hid => ?_
      have hreg := h.register hk hid (runsRow_of_wrap hder hhash hpay hwrap)
      simp only [Coro.wp_bind, Coro.wp_modify]
      cases cfg.enqueuer with
      | false => exact hreg
      | true =>
        simp only [Coro.wp_bind]
        exact wp_enqueue fun ok => hreg

lemma registerDesired_spec (items : List (PyStr × Provider F)) (hkey : ∀ x ∈ items, x.2.key = x.1)
    (h : Consistent cfg entries w) :
    (registerDesired cfg items).wp World.answer (Agree cfg) entries w := by
  induction items generalizing entries w with
  | nil => exact h
  | cons x items ih =>
    obtain ⟨k, p⟩ := x
    obtain ⟨hp, hrest⟩ := List.forall_mem_cons.mp hkey
    obtain rfl : p.key = k := hp
    simp only [registerDesired, Coro.bind_eq, Coro.wp_bind]
    refine wp_deriveCron h (fun spec => ih hrest h) fun spec => ?_
    have hd := h.derive (p, spec)
    have hmem : (p, spec) ∈ (p, spec) :: w.derived := List.mem_cons_self
    simp only
    cases hhash : configHash spec p.config with
    | error e => exact hd
    | ok hash =>
      simp only [Coro.wp_bind, Coro.wp_read]
      cases he : entries.get? p.key with
      | none =>
        simp only [Coro.wp_bind]
        exact (registerNew_spec hd he hmem hhash).mono fun _ _ _ h => ih hrest h
      | some existing =>
        simp only
        split_ifs with hsame
        · exact ih hrest hd
        · simp only [Coro.wp_bind]
          refine wp_unregister ?_ ?_
          · simpa using ih hrest hd
          · have hpop := hd.unregister he
            simp only [if_true, Coro.wp_bind, Coro.wp_modify]
            exact (registerNew_spec hpop (by simp) hmem hhash).mono fun _ _ _ h => ih hrest h

/-- **One `_reconcile` keeps the agreement, whatever calls fail.** -/
theorem reconcile_spec {desired : Dict PyStr (Provider F)}
    (hkey : ∀ x ∈ desired.items, x.2.key = x.1) (h : Consistent cfg entries w) :
    (reconcile cfg desired).wp World.answer (Agree cfg) entries w := by
  simp only [reconcile, Coro.bind_eq, Coro.wp_bind, Coro.wp_read]
  exact (unregisterStale_spec _ h).mono fun _ _ _ h => registerDesired_spec _ hkey h

omit [JsonRuntime F] [Pydantic F] in
lemma key_desiredOf {rows : List (Provider F)} : ∀ x ∈ (desiredOf rows).items, x.2.key = x.1 := by
  intro x hx
  obtain ⟨p, -, rfl⟩ := List.mem_map.mp (Dict.mem_of_mem_ofList hx)
  rfl

/-! ## Runs -/

/-- The invariant of the scheduler: with the lock free the two sides agree, and with the lock held
they will when the holder returns. -/
structure Inv (cfg : Config) (s : State F) : Prop where
  free : s.holder = none → Consistent cfg s.entries s.world
  held : ∀ h, s.holder = some h → h.Pre World.answer (Agree cfg) s.entries s.world
  keyed : ∀ desired ∈ s.waiting, ∀ x ∈ desired.items, x.2.key = x.1

lemma Inv.step {s s' : State F} {a : Action F} (hI : Inv cfg s) (h : step cfg s a = some s') :
    Inv cfg s' := by
  cases a with
  | fetch rows =>
    cases rows with
    | none =>
      obtain rfl := Option.some.inj h
      exact hI
    | some rows =>
      obtain rfl := Option.some.inj h
      refine ⟨hI.free, hI.held, fun desired hd => ?_⟩
      rcases List.mem_append.mp hd with hd | hd
      · exact hI.keyed desired hd
      · obtain rfl := List.mem_singleton.mp hd
        exact key_desiredOf
  | acquire i =>
    simp only [Scheduler.step] at h
    split at h
    · next hfree hw =>
      obtain rfl := Option.some.inj h
      have hkey := hI.keyed _ (List.mem_of_getElem? hw)
      refine ⟨by simp, ?_, fun desired hd => hI.keyed desired (List.mem_of_mem_eraseIdx hd)⟩
      rintro _ ⟨⟩
      exact (reconcile_spec hkey (hI.free hfree)).advance
    · simp at h
  | answer f =>
    simp only [Scheduler.step] at h
    split at h
    · next c k hheld =>
      obtain ⟨world, hworld, rfl⟩ := Option.map_eq_some_iff.mp h
      refine ⟨by simp, ?_, hI.keyed⟩
      rintro _ ⟨⟩
      exact (hI.held _ hheld (f c) world hworld).advance
    · simp at h
  | release =>
    simp only [Scheduler.step] at h
    split at h
    · next r hheld =>
      obtain rfl := Option.some.inj h
      exact ⟨fun _ => hI.held _ hheld, by simp, hI.keyed⟩
    · simp at h

/-- **Whenever the lock is free, the entries held in `_entries` are distinct, they are the live
entries of the backend, and each runs the job of the row whose hash it records.** -/
theorem consistent_of_free {s : State F} (h : (machine cfg).Reachable s) (hfree : s.holder = none) :
    Consistent cfg s.entries s.world := by
  have hI : Inv cfg s := by
    refine Machine.Reachable.invariant (I := Inv cfg) ?_ (fun s a s' hI hs => hI.step hs) h
    rintro _ rfl
    refine ⟨fun _ => ⟨by simp, by simp, by simp⟩, by simp, by simp⟩
  exact hI.free hfree

section Example

/-- A scheduler of provider syncs without an enqueuer. -/
def syncs : Config := ⟨text "scheduler", text "scheduler:provider-sync", false⟩

/-- A row of the provider table. -/
def openai : Provider Empty :=
  ⟨text "11111111-1111-1111-1111-111111111111", text "openai", .obj [(text "region", .str (text "us"))]⟩

/-- The answers of a deriver that runs every row once a minute, and of a backend that has no entry
called `e1`. -/
def everyMinute : (c : Call Empty) → Answer c
  | .deriveCron _ => some (text "@every 1m", true)
  | .unregister _ => true
  | .register .. => some (text "e1")
  | .enqueue .. => true

/-- One reconcile that registers the row. -/
def oneReconcile : List (Action Empty) :=
  [.fetch (some [openai]), .acquire 0, .answer everyMinute, .answer everyMinute, .release]

/-- The scheduler as it is made. -/
def fresh : State Empty := ⟨.empty, ⟨.empty, []⟩, [], none⟩

lemma oneReconcile_free :
    ((machine syncs).run fresh oneReconcile).map
      (fun s => (s.holder.isNone, s.entries.keys, s.world.live.keys)) =
      some (true, [openai.key], [text "e1"]) := by
  decide +kernel

theorem oneReconcile_consistent : ∃ s, (machine syncs).run fresh oneReconcile = some s ∧
    openai.key ∈ s.entries.keys ∧ Consistent syncs s.entries s.world := by
  obtain ⟨s, hrun, hs⟩ := Option.map_eq_some_iff.mp oneReconcile_free
  obtain ⟨hfree, hkeys, -⟩ : s.holder.isNone = true ∧ s.entries.keys = [openai.key] ∧ _ := by
    simpa using hs
  have hreach : (machine syncs).Reachable s :=
    (Machine.Reachable.init (M := machine syncs) rfl).run hrun
  exact ⟨s, hrun, by simp [hkeys], consistent_of_free hreach (by simpa using hfree)⟩

end Example

end Omkit.Scheduler
