import Omkit.Jobqueue.Request
import Omkit.Lib.Json.Injective
import Omkit.Scheduler.Entries
import Omkit.Scheduler.Source

/-!
# From the provider table to the worker

What the cron engine runs for an entry, and what the scheduler hands to the enqueuer, is a job of a
row of the provider table: the middleware of a worker calls the handler under the tenant of the row,
with its name and with a text from which its config is read back.
-/

namespace Omkit.Scheduler

open Lib Jobqueue
open Tenant (Context InContext)

variable {F : Type} [JsonRuntime F] [Pydantic F] {cfg : Config}

/-! ## The calls of a reconcile -/

/-- The payload of a row whose config can be hashed. -/
def PayloadOf (p : Provider F) (payload : List (PyStr × Json F)) : Prop :=
  buildPayload p = .ok payload ∧ ∃ spec hash, configHash spec p.config = .ok hash

/-- The calls that a reconcile may make for rows that satisfy `R`. -/
def Asks (cfg : Config) (R : Provider F → Prop) : Call F → Prop
  | .deriveCron p => R p
  | .unregister _ => True
  | .register _ taskType body queue => taskType = cfg.taskType ∧ queue = cfg.queue ∧
    ∃ p payload, R p ∧ PayloadOf p payload ∧ wrap p.tenantId payload = .ok body
  | .enqueue taskType tenantId payload queue => taskType = cfg.taskType ∧ queue = cfg.queue ∧
    ∃ p, R p ∧ PayloadOf p payload ∧ tenantId = p.tenantId ∧ ∃ body, wrap p.tenantId payload = .ok body

section Calls

variable {R : Provider F → Prop}

omit [JsonRuntime F] [Pydantic F] in
lemma only_unregisterStale {P : Call F → Prop} (hP : ∀ id, P (.unregister id)) (ks : List PyStr) :
    (unregisterStale ks : Sched F Unit).Only P := by
  induction ks with
  | nil => trivial
  | cons k ks ih =>
    refine Coro.Only.bind Coro.only_read fun entries => ?_
    cases entries.get? k with
    | none => exact ih
    | some ent =>
      refine Coro.Only.bind (Coro.only_ask.mpr (hP _)) fun ok => ?_
      cases ok with
      | false => exact Coro.Only.bind Coro.only_ret fun _ => ih
      | true => exact Coro.Only.bind Coro.only_modify fun _ => ih

lemma only_registerNew {k : PyStr} {p : Provider F} {spec hash : PyStr} (hp : R p)
    (hhash : configHash spec p.config = .ok hash) :
    (registerNew cfg k p spec hash : Sched F Unit).Only (Asks cfg R) := by
  cases hpay : buildPayload p with
  | error e =>
    simp only [registerNew, registerOne, hpay]
    trivial
  | ok payload =>
    have hpayload : PayloadOf p payload := ⟨hpay, spec, hash, hhash⟩
    cases hwrap : wrap p.tenantId payload with
    | error e =>
      simp only [registerNew, registerOne, hpay, hwrap]
      trivial
    | ok body =>
      simp only [registerNew, registerOne, hpay, hwrap]
      refine Coro.Only.bind (Coro.only_ask.mpr ⟨rfl, rfl, p, payload, hp, hpayload, hwrap⟩) ?_
      rintro (_ | entryId)
      · trivial
      · refine Coro.Only.bind Coro.only_modify fun _ => ?_
        cases cfg.enqueuer with
        | false => trivial
        | true =>
          refine Coro.Only.bind (Coro.only_ask.mpr ?_) fun _ => trivial
          exact ⟨rfl, rfl, p, hp, hpayload, rfl, body, hwrap⟩

lemma only_registerDesired {items : List (PyStr × Provider F)} (h : ∀ x ∈ items, R x.2) :
    (registerDesired cfg items).Only (Asks cfg R) := by
  induction items with
  | nil => trivial
  | cons x items ih =>
    obtain ⟨k, p⟩ := x
    obtain ⟨hp, hrest⟩ := List.forall_mem_cons.mp h
    have ih := ih hrest
    refine Coro.Only.bind (Coro.only_ask.mpr hp) ?_
    rintro (_ | ⟨spec, _ | _⟩)
    · trivial
    · exact ih
    · cases hhash : configHash spec p.config with
      | error e =>
        simp only [hhash]
        trivial
      | ok hash =>
        simp only [hhash]
        refine Coro.Only.bind Coro.only_read fun entries => ?_
        cases entries.get? k with
        | none => exact Coro.Only.bind (only_registerNew hp hhash) fun _ => ih
        | some existing =>
          simp only
          split_ifs with hsame
          · exact ih
          · refine Coro.Only.bind (Coro.only_ask.mpr trivial) fun ok => ?_
            cases ok with
            | false => exact Coro.Only.bind Coro.only_ret fun _ => ih
            | true =>
              refine Coro.Only.bind Coro.only_modify fun _ => ?_
              exact Coro.Only.bind (only_registerNew hp hhash) fun _ => ih

/-- **A reconcile asks the deriver, the backend and the enqueuer about its rows only.** -/
theorem only_reconcile {desired : Dict PyStr (Provider F)} (h : ∀ x ∈ desired.items, R x.2) :
    (reconcile cfg desired).Only (Asks cfg R) := by
  refine Coro.Only.bind Coro.only_read fun entries => ?_
  refine Coro.Only.bind (only_unregisterStale (fun _ => trivial) _) fun _ => ?_
  exact only_registerDesired h

end Calls

/-! ## Runs over rows that satisfy a condition -/

/-- Every fetch gives rows that satisfy `R`. -/
def Fetches (R : Provider F → Prop) : State F → Action F → Prop
  | _, .fetch (some rows) => ∀ p ∈ rows, R p
  | _, _ => True

/-- What is kept while every fetched row satisfies `R`. -/
structure Fed (cfg : Config) (R : Provider F → Prop) (s : State F) : Prop where
  waiting : ∀ desired ∈ s.waiting, ∀ x ∈ desired.items, R x.2
  held : ∀ c k, s.holder = some (.waiting c k) →
    Asks cfg R c ∧ ∀ b, (k b).Only (Asks cfg R)
  derived : ∀ x ∈ s.world.derived, R x.1

variable {R : Provider F → Prop} {s s' : State F}

omit [JsonRuntime F] [Pydantic F] in
/-- An answer adds to what was derived the row that the deriver was asked about, if any. -/
lemma derived_answer {w w' : World F} {c : Call F} {b : Answer c} (h : w.answer c b = some w')
    {x : Provider F × PyStr} (hx : x ∈ w'.derived) : x ∈ w.derived ∨ c = .deriveCron x.1 := by
  cases c with
  | deriveCron p =>
    obtain _ | ⟨spec, _ | _⟩ := (b : Option (PyStr × Bool))
    · obtain rfl := Option.some.inj h
      exact .inl hx
    · obtain rfl := Option.some.inj h
      exact .inl hx
    · obtain rfl := Option.some.inj h
      rcases List.mem_cons.mp hx with rfl | hx
      · exact .inr rfl
      · exact .inl hx
  | unregister id =>
    cases (b : Bool) <;> (obtain rfl := Option.some.inj h; exact .inl hx)
  | register spec taskType body queue =>
    obtain _ | id := (b : Option PyStr)
    · obtain rfl := Option.some.inj h
      exact .inl hx
    · have h' : (if id ∈ w.live.keys then none else
        some { w with live := w.live.set id ⟨spec, taskType, body, queue⟩ }) = some w' := h
      split_ifs at h' with hid
      obtain rfl := Option.some.inj h'
      exact .inl hx
  | enqueue taskType tenantId payload queue =>
    obtain rfl := Option.some.inj h
    exact .inl hx

lemma Fed.step {a : Action F} (hF : Fed cfg R s) (hg : Fetches R s a)
    (h : step cfg s a = some s') : Fed cfg R s' := by
  cases a with
  | fetch rows =>
    cases rows with
    | none =>
      obtain rfl := Option.some.inj h
      exact hF
    | some rows =>
      obtain rfl := Option.some.inj h
      refine ⟨fun desired hd => ?_, hF.held, hF.derived⟩
      rcases List.mem_append.mp hd with hd | hd
      · exact hF.waiting desired hd
      · obtain rfl := List.mem_singleton.mp hd
        intro x hx
        obtain ⟨p, hp, rfl⟩ := List.mem_map.mp (Dict.mem_of_mem_ofList hx)
        exact hg p hp
  | acquire i =>
    simp only [Scheduler.step] at h
    split at h
    · next hfree hw =>
      obtain rfl := Option.some.inj h
      refine ⟨fun desired hd => hF.waiting desired (List.mem_of_mem_eraseIdx hd), ?_, hF.derived⟩
      intro c k hk
      exact (only_reconcile (hF.waiting _ (List.mem_of_getElem? hw))).advance (Option.some.inj hk)
    · simp at h
  | answer f =>
    simp only [Scheduler.step] at h
    split at h
    · next c k hheld =>
      obtain ⟨world, hworld, rfl⟩ := Option.map_eq_some_iff.mp h
      obtain ⟨hc, hk⟩ := hF.held c k hheld
      refine ⟨hF.waiting, fun c' k' hk' => (hk (f c)).advance (Option.some.inj hk'), ?_⟩
      intro x hx
      rcases derived_answer hworld hx with hx | rfl
      · exact hF.derived x hx
      · exact hc
    · simp at h
  | release =>
    simp only [Scheduler.step] at h
    split at h
    · next r hheld =>
      obtain rfl := Option.some.inj h
      exact ⟨hF.waiting, by simp, hF.derived⟩
    · simp at h

/-! ## The worker -/

/-- A worker that is given `data` calls the handler under the tenant of the row, with its name and
with a text from which its config is read back. -/
def Delivers (row : ProviderRow F) (data : Data F) : Prop :=
  ∃ p s, row.provider = .ok p ∧ loads s = .ok (sortKeys p.config) ∧
    ∀ {K ε α : Type} (nextHandler : List (PyStr × Json F) → List (Data F) → K → InContext ε α)
      (args : List (Data F)) (kwargs : K) (c : Context),
      tenantMiddleware nextHandler (data :: args) kwargs c =
        ((nextHandler [(text "provider_name", .str row.name), (text "config", .str s)] args kwargs
          ⟨some row.tenantId, none⟩).1.mapError .handler, c)

/-- The names and configs of a row hold no surrogates, and the keys of its config are distinct. -/
def ProviderRow.Clean (row : ProviderRow F) : Prop :=
  WellFormed row.name ∧ ∀ p, row.provider = .ok p → p.config.Wf

omit [Pydantic F] in
lemma provider_eq_ok {row : ProviderRow F} {p : Provider F} (h : row.provider = .ok p) :
    p.tenantId = row.tenantId ∧ p.name = row.name := by
  cases hp : row.parse with
  | error e => simp [ProviderRow.provider, hp, Except.map] at h
  | ok cfg =>
    simp only [ProviderRow.provider, hp, Except.map, Except.ok.injEq] at h
    subst h
    exact ⟨rfl, rfl⟩

omit [Pydantic F] in
/-- The payload of a row: its config as a text that is read back. -/
lemma PayloadOf.eq {p : Provider F} {payload : List (PyStr × Json F)} (h : PayloadOf p payload)
    (hwf : p.config.Wf) : ∃ s, WellFormed s ∧ loads s = .ok (sortKeys p.config) ∧
      payload = [(text "provider_name", .str p.name), (text "config", .str s)] := by
  obtain ⟨hpay, spec, hash, hhash⟩ := h
  have hcheck : check (JsonRuntime.maxDepth F) (sortKeys p.config) = .ok () := by
    cases hd : dumps .compact (sortKeys p.config) with
    | error e => simp [configHash, hashInput, hd, bind, Except.bind, Except.map] at hhash
    | ok s => exact (dumps_eq_ok.mp hd).1
  have hdumps : dumps .default (sortKeys p.config) = .ok (render .default (sortKeys p.config)) :=
    dumps_eq_ok.mpr ⟨hcheck, rfl⟩
  simp only [buildPayload, hdumps] at hpay
  refine ⟨_, ?_, ?_, (Except.ok.inj hpay).symm⟩
  · obtain ⟨l, hl, -⟩ := printable_wellFormed (printable_render DumpOpts.default_ascii
      (sortKeys p.config))
    exact ⟨l, hl⟩
  · rw [loads_dumps DumpOpts.default_ok hdumps, readBack_wf _ _ (wf_sortKeys hwf)]

omit [JsonRuntime F] [Pydantic F] in
/-- The payload of a row is received as it was sent. -/
lemma received_payload {name s : PyStr} (hn : WellFormed name) (hs : WellFormed s) :
    received ([(text "provider_name", .str name), (text "config", .str s)] :
      List (PyStr × Json F)) = [(text "provider_name", .str name), (text "config", .str s)] := by
  have hne : text "provider_name" ≠ text "config" := by decide
  refine received_wf ⟨by simp [hne], wellFormed_text _, hn, wellFormed_text _, hs, trivial⟩

/-- A worker delivers what is wrapped for a row. -/
lemma delivers_of_wrap {row : ProviderRow F} {p : Provider F} {payload : List (PyStr × Json F)}
    {body : Bytes} (hrow : row.provider = .ok p) (hclean : row.Clean) (hpay : PayloadOf p payload)
    (hwrap : wrap p.tenantId payload = .ok body) :
    Delivers row (.bytes body) ∧
      ∀ {O α : Type} (task : Json F → O → α) (opts : O), ∃ dict,
        Jobqueue.enqueue task p.tenantId payload opts = .ok (task (.obj dict) opts) ∧
          Delivers row (.dict dict) := by
  obtain ⟨ht, hname⟩ := provider_eq_ok hrow
  obtain ⟨s, hs, hload, rfl⟩ := hpay.eq (hclean.2 p hrow)
  have hreceived := received_payload (F := F) (hname ▸ hclean.1) hs
  have hbytes := unwrap_wrap hwrap
  have hdict := unwrap_received hwrap
  rw [hreceived, hname, ht] at hbytes hdict
  refine ⟨⟨p, s, hrow, hload, fun nextHandler => ?_⟩, fun task opts => ⟨_, ?_, p, s, hrow, hload,
    fun nextHandler => tenantMiddleware_ok nextHandler hdict⟩⟩
  · exact tenantMiddleware_ok nextHandler hbytes
  · rw [enqueue_eq, hwrap, hreceived, hname, ht]
    rfl

/-- Every fetch is one of `fetch_providers`, over rows that satisfy `T`. -/
def Sourced (T : ProviderRow F → Prop) : State F → Action F → Prop
  | _, .fetch (some ps) => ∃ rows, (∀ row ∈ rows, T row) ∧ fetchProviders rows = .ok ps
  | _, _ => True

lemma fed_of_sourced {T : ProviderRow F → Prop} (h : (machine cfg).Reach (Sourced T) s) :
    Fed cfg (fun p => ∃ row, T row ∧ row.provider = .ok p) s := by
  refine h.invariant ?_ fun s a s' hs hg hstep => hs.step ?_ hstep
  · rintro _ rfl
    exact ⟨by simp, by simp, by simp⟩
  · cases a with
    | fetch rows =>
      cases rows with
      | none => trivial
      | some ps =>
        obtain ⟨rows, hT, hfetch⟩ := hg
        intro p hp
        obtain ⟨row, hrow, hprov⟩ := exists_row_of_mem hfetch hp
        exact ⟨row, hT row hrow, hprov⟩
    | _ => trivial

/-- **Every job of the scheduler is the job of a row of the provider table.**  Whatever calls fail,
and in whatever order reconciles fetch and take the lock: a live entry of the cron engine, whenever
the lock is free, and a job that is being handed to the enqueuer at any time, have the task type and
the queue of the scheduler, and a worker that gets them calls the handler under the tenant of an
enabled row, with its name and its config. -/
theorem jobs_of_rows {T : ProviderRow F → Prop} (hT : ∀ row, T row → row.Clean)
    (h : (machine cfg).Reach (Sourced T) s) :
    (s.holder = none → ∀ id job, s.world.live.get? id = some job →
      job.taskType = cfg.taskType ∧ job.queue = cfg.queue ∧
        ∃ row p, T row ∧ row.provider = .ok p ∧ (p, job.cronspec) ∈ s.world.derived ∧
          Delivers row (.bytes job.body)) ∧
    ∀ taskType tenantId payload queue k,
      s.holder = some (.waiting (.enqueue taskType tenantId payload queue) k) →
      taskType = cfg.taskType ∧ queue = cfg.queue ∧ ∃ row, T row ∧ tenantId = row.tenantId ∧
        ∀ {O α : Type} (task : Json F → O → α) (opts : O), ∃ dict,
          Jobqueue.enqueue task tenantId payload opts = .ok (task (.obj dict) opts) ∧
            Delivers row (.dict dict) := by
  have hfed := fed_of_sourced h
  constructor
  · intro hfree id job hlive
    have hcons := consistent_of_free h.reachable hfree
    obtain ⟨k, e, he, rfl⟩ := (hcons.live id).mp (Dict.mem_keys_iff_get?.mpr ⟨job, hlive⟩)
    obtain ⟨p, payload, body, env, -, hder, hhash, hpay, hwrap, hjob, -⟩ := hcons.runs k e he
    obtain rfl := Option.some.inj (hlive.symm.trans hjob)
    obtain ⟨row, hrow, hprov⟩ := hfed.derived _ hder
    have hdeliver := delivers_of_wrap hprov (hT row hrow) ⟨hpay, _, _, hhash⟩ hwrap
    exact ⟨rfl, rfl, row, p, hrow, hprov, hder, hdeliver.1⟩
  · intro taskType tenantId payload queue k hheld
    obtain ⟨rfl, rfl, p, ⟨row, hrow, hprov⟩, hpay, rfl, body, hwrap⟩ := (hfed.held _ _ hheld).1
    refine ⟨rfl, rfl, row, hrow, (provider_eq_ok hprov).1, ?_⟩
    exact (delivers_of_wrap hprov (hT row hrow) hpay hwrap).2

/-! ## A row that stops all others -/

/-- Every fetch reads a table with a barred row. -/
def BarredTable : State F → Action F → Prop
  | _, .fetch (some ps) => ∃ rows, (∃ row ∈ rows, row.Barred) ∧ fetchProviders rows = .ok ps
  | _, _ => True

/-- **One row stops the reconciles of all tenants.**  A fetch raises exactly if the config of some
row, of any tenant, is beyond the limits of `json.loads`; and for as long as the table has such a
row, a scheduler with no reconcile under way does nothing at all. -/
theorem one_row_stops_all :
    (∀ rows : List (ProviderRow F),
      (∃ e, fetchProviders rows = .error e) ↔ ∃ row ∈ rows, row.Barred) ∧
    ∀ (s s' : State F) (es : List (Action F)), s.waiting = [] → s.holder = none →
      (machine cfg).Along BarredTable s es → (machine cfg).run s es = some s' → s' = s := by
  refine ⟨fun rows => fetchProviders_raises_iff, fun s s' es hw hh halong hrun => ?_⟩
  induction es generalizing s with
  | nil => simpa using hrun.symm
  | cons a es ih =>
    obtain ⟨t, ht, hrest⟩ := Machine.run_cons.mp hrun
    obtain ⟨ha, hes⟩ := halong
    -- with nothing under way the only step is a fetch, and it raises
    have hstep : step cfg s a = some t := ht
    have hsame : t = s := by
      cases a with
      | fetch rows =>
        cases rows with
        | none => exact (Option.some.inj hstep).symm
        | some ps =>
          obtain ⟨rows, hbarred, hfetch⟩ := ha
          obtain ⟨e, he⟩ := fetchProviders_raises_iff.mpr hbarred
          rw [he] at hfetch
          cases hfetch
      | acquire i => simp [step, hh, hw] at hstep
      | answer f => simp [step, hh] at hstep
      | release => simp [step, hh] at hstep
    subst hsame
    exact ih t hw hh (hes t ht) hrest

section Example

/-- `openai` as it is fetched. -/
def openaiRow : ProviderRow Empty :=
  ⟨openai.tenantId, openai.name, some (.text (render .default openai.config))⟩

lemma openai_config_wf : openai.config.Wf := ⟨by simp, wellFormed_text _, wellFormed_text _, trivial⟩

lemma openaiRow_provider : openaiRow.provider = .ok openai := by
  have hdumps : dumps .default openai.config = .ok (render .default openai.config) := rfl
  have hloads := loads_dumps DumpOpts.default_ok hdumps
  rw [readBack_wf _ _ openai_config_wf] at hloads
  simp only [ProviderRow.provider, ProviderRow.parse, openaiRow, loadConfig, hloads]
  rfl

lemma openaiRow_clean : openaiRow.Clean := by
  refine ⟨wellFormed_text _, fun p hp => ?_⟩
  obtain rfl := Except.ok.inj (openaiRow_provider.symm.trans hp)
  exact openai_config_wf

theorem openai_delivered : ∃ s : State Empty, ∃ id job, s.world.live.get? id = some job ∧
    Delivers openaiRow (.bytes job.body) := by
  obtain ⟨s, hrun, hs⟩ := Option.map_eq_some_iff.mp oneReconcile_free
  obtain ⟨hfree, -, hlive⟩ : s.holder.isNone = true ∧ _ ∧ s.world.live.keys = [text "e1"] := by
    simpa using hs
  have hfetch : fetchProviders [openaiRow] = .ok [openai] := by
    simp [fetchProviders, openaiRow_provider, bind, Except.bind, pure, Except.pure]
  have halong : (machine syncs).Along (Sourced (· = openaiRow)) fresh oneReconcile := by
    refine ⟨⟨[openaiRow], by simp, hfetch⟩, fun _ _ => ⟨trivial, fun _ _ => ⟨trivial, fun _ _ => ?_⟩⟩⟩
    exact ⟨trivial, fun _ _ => ⟨trivial, fun _ _ => trivial⟩⟩
  have hreach : (machine syncs).Reach (Sourced (· = openaiRow)) s :=
    Machine.Reach.run (.init rfl) halong hrun
  have hclean : ∀ row, row = openaiRow → row.Clean := by
    rintro _ rfl
    exact openaiRow_clean
  have hmem : text "e1" ∈ s.world.live.keys := by simp [hlive]
  obtain ⟨job, hjob⟩ := Dict.mem_keys_iff_get?.mp hmem
  obtain ⟨-, -, row, p, rfl, -, -, hdeliver⟩ :=
    (jobs_of_rows hclean hreach).1 (by simpa using hfree) _ _ hjob
  exact ⟨s, _, _, hjob, hdeliver⟩

/-- A row of another tenant, whose config is not UTF-8. -/
def latinRow : ProviderRow Empty := ⟨text "t2", text "mistral", some (.bytes [233])⟩

lemma oneReconcile_idle : ((machine syncs).run fresh oneReconcile).map
    (fun s => (s.waiting.isEmpty, s.holder.isNone, s.world.live.keys)) =
      some (true, true, [text "e1"]) := by
  decide +kernel

/-- The entry of a row stays as it is once another tenant has a row that cannot be read. -/
theorem openai_stays : ∃ s : State Empty, s.world.live.keys = [text "e1"] ∧
    (∃ e, fetchProviders [openaiRow, latinRow] = .error e) ∧
    ∀ s', (machine syncs).run s [.fetch none, .fetch none] = some s' →
      s'.world.live.keys = [text "e1"] := by
  obtain ⟨s, hrun, hs⟩ := Option.map_eq_some_iff.mp oneReconcile_idle
  obtain ⟨hwaiting, hfree, hlive⟩ :
      s.waiting = [] ∧ s.holder = none ∧ s.world.live.keys = [text "e1"] := by simpa using hs
  obtain ⟨hraises, hstays⟩ := @one_row_stops_all Empty _ _ syncs
  refine ⟨s, hlive, (hraises _).mpr ⟨latinRow, by simp, .inl ⟨[233], rfl, by decide⟩⟩, ?_⟩
  intro s' hrun'
  have hsame := hstays s s' [.fetch none, .fetch none] hwaiting hfree
    ⟨trivial, fun _ _ => ⟨trivial, fun _ _ => trivial⟩⟩ hrun'
  rw [hsame, hlive]

end Example

end Omkit.Scheduler
