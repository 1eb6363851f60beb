import Omkit.Scheduler.Converge

/-!
# What one row can do to the others

A `_reconcile` with outcomes: for every key, what the calls that are made for it return or whether
they raise.  It treats every key as it would if there were no other, and the loop goes on, exactly
if neither the deriver nor `_config_hash` raises: nobody catches these two.
-/

namespace Omkit.Scheduler

open Lib Jobqueue

variable {F : Type}

/-! ## Outcomes -/

/-- The outcomes of the calls for one key; `none` and `false` stand for an exception. -/
structure Outcomes where
  deriveCron : Option (PyStr × Bool)
  unregister : Bool
  register : Option PyStr
  enqueue : Bool

/-- The answer to a call. -/
def Outcomes.answer (o : Outcomes) : (c : Call F) → Answer c
  | .deriveCron _ => o.deriveCron
  | .unregister _ => o.unregister
  | .register .. => o.register
  | .enqueue .. => o.enqueue

/-- The calls that have been made, each with the key that it was made for. -/
structure Book (F : Type) where
  /-- The keys whose entries the first loop has still to remove. -/
  stale : List PyStr
  /-- The key of the last call. -/
  key : PyStr
  calls : List (PyStr × Call F)

/-- The key that the next call is made for: the first loop unregisters the stale keys in order, and
the second loop starts with the deriver on every row. -/
def Book.owner (b : Book F) : Call F → PyStr
  | .deriveCron p => p.key
  | .unregister _ => b.stale.headD b.key
  | .register .. => b.key
  | .enqueue .. => b.key

/-- Book a call. -/
def Book.note (b : Book F) (c : Call F) : Book F where
  stale := match c with
    | .deriveCron _ => b.stale
    | .unregister _ => b.stale.tail
    | .register .. => b.stale
    | .enqueue .. => b.stale
  key := b.owner c
  calls := b.calls ++ [(b.owner c, c)]

/-- The calls that were made for a key. -/
def Book.callsFor (b : Book F) (k : PyStr) : List (Call F) :=
  (b.calls.filter fun c => c.1 = k).map Prod.snd

/-- The outside of a `_reconcile`, with an outcome for every call. -/
def outside (o : PyStr → Outcomes) (b : Book F) (c : Call F) : Answer c × Book F :=
  ((o (b.owner c)).answer c, b.note c)

variable [JsonRuntime F] [Pydantic F]

/-- `_reconcile` on the rows that it has fetched. -/
def perform (cfg : Config) (o : PyStr → Outcomes) (rows : List (Provider F))
    (entries : Dict PyStr Entry) : Except Raised Unit × Dict PyStr Entry × Book F :=
  (reconcile cfg (desiredOf rows)).play (outside o) entries
    ⟨entries.keys.filter fun k => k ∉ (desiredOf rows).keys, [], []⟩

/-- The calls of a `_reconcile` for a key, and the entry that it leaves. -/
def doneFor (k : PyStr) (r : Except Raised Unit × Dict PyStr Entry × Book F) :
    List (Call F) × Option Entry :=
  (r.2.2.callsFor k, r.2.1.get? k)

/-- The entries of a scheduler that knows one key at most. -/
def onlyEntry (k : PyStr) (prev : Option Entry) : Dict PyStr Entry :=
  prev.elim .empty fun e => .set .empty k e

/-- What `_reconcile` does for a key when there is nothing else than its row and its entry. -/
def alone (cfg : Config) (k : PyStr) (row : Option (Provider F)) (prev : Option Entry)
    (o : Outcomes) : List (Call F) × Option Entry :=
  doneFor k (perform cfg (fun _ => o) row.toList (onlyEntry k prev))

/-! ## The loop -/

/-- Where the task of `_run_loop` stands. -/
inductive LoopTask
  /-- It waits for the stop event or the next tick. -/
  | waiting
  | crashed (e : Raised)
deriving DecidableEq

/-- A tick: what the fetch returns, if it does not raise, and the outcomes of the calls. -/
structure Tick (F : Type) where
  rows : Option (List (Provider F))
  outcomes : PyStr → Outcomes

/-- `_reconcile`, with its fetch. -/
def Tick.reconcile (cfg : Config) (t : Tick F) (entries : Dict PyStr Entry) :
    Except Raised Unit × Dict PyStr Entry :=
  match t.rows with
  | none => (.ok (), entries)
  | some rows =>
    let r := perform cfg t.outcomes rows entries
    (r.1, r.2.1)

/-- `_run_loop` over the ticks that come before the stop event. -/
def runLoop (cfg : Config) : List (Tick F) → Dict PyStr Entry → LoopTask × Dict PyStr Entry
  | [], entries => (.waiting, entries)
  | t :: ticks, entries => match t.reconcile cfg entries with
    | (.ok _, entries') => runLoop cfg ticks entries'
    | (.error e, entries') => (.crashed e, entries')

/-! ## The property and its condition -/

/-- Every key is treated as if there were no other. -/
def Isolated (cfg : Config) (o : PyStr → Outcomes) (rows : List (Provider F))
    (entries : Dict PyStr Entry) : Prop :=
  ∀ k, doneFor k (perform cfg o rows entries) =
    alone cfg k (rows.find? fun p => p.key = k) (entries.get? k) (o k)

omit [Pydantic F] in
/-- The deriver raises on the row, or it accepts the row and `_config_hash` raises. -/
def Fatal (o : Outcomes) (p : Provider F) : Prop :=
  o.deriveCron = none ∨
    ∃ spec e, o.deriveCron = some (spec, true) ∧ configHash spec p.config = .error e

/-! ## Steps for one key -/

section Steps

variable {o : PyStr → Outcomes} {oc : Outcomes} {k : PyStr} {prev e e' : Option Entry}
  {cs cs' : List (Call F)} {b : Book F} {s s' : Dict PyStr Entry}

omit [JsonRuntime F] [Pydantic F]

/-- The book after some calls for a key. -/
def Book.made (b : Book F) (k : PyStr) (cs : List (Call F)) : Book F :=
  ⟨b.stale, k, b.calls ++ cs.map fun c => (k, c)⟩

lemma Book.made_made : (b.made k cs).made k cs' = b.made k (cs ++ cs') := by
  simp [Book.made]

lemma Book.callsFor_made (k' : PyStr) :
    (b.made k cs).callsFor k' = b.callsFor k' ++ if k' = k then cs else [] := by
  by_cases h : k' = k
  · subst h
    simp [Book.made, Book.callsFor, List.filter_map, Function.comp_def]
  · have hne : ¬ k = k' := fun heq => h heq.symm
    simp [Book.made, Book.callsFor, List.filter_map, Function.comp_def, h, hne]

/-- The entry of one key is changed. -/
def Changes (k : PyStr) (e : Option Entry) (s s' : Dict PyStr Entry) : Prop :=
  ∀ k', s'.get? k' = if k' = k then e else s.get? k'

/-- With the outcomes `oc` for the key `k` and the entry `prev` under it, the coroutine `x` makes
the calls `cs` for `k`, leaves the entry `e`, and goes on as `y`, whatever the other keys are. -/
def Steps {α : Type} (k : PyStr) (oc : Outcomes) (x y : Sched F α) (prev : Option Entry)
    (cs : List (Call F)) (e : Option Entry) : Prop :=
  ∀ (o : PyStr → Outcomes) (s : Dict PyStr Entry) (b : Book F), o k = oc → s.get? k = prev →
    b.stale = [] → b.key = k → ∃ s', Changes k e s s' ∧
      x.play (outside o) s b = y.play (outside o) s' (b.made k cs)

variable {α β : Type} {x y z : Sched F α}

lemma Changes.refl (h : s.get? k = e) : Changes k e s s := by
  intro k'
  split
  · next heq => rw [heq, h]
  · rfl

lemma Changes.trans {s'' : Dict PyStr Entry} (h : Changes k e s s') (h' : Changes k e' s' s'') :
    Changes k e' s s'' := by
  intro k'
  rw [h' k']
  split
  · rfl
  · next hne => rw [h k', if_neg hne]

lemma Steps.refl : Steps k oc x x prev [] prev := by
  intro o s b _ hprev _ hkey
  refine ⟨s, .refl hprev, ?_⟩
  simp [Book.made, ← hkey]

lemma Steps.trans (h : Steps k oc x y prev cs e) (h' : Steps k oc y z e cs' e') :
    Steps k oc x z prev (cs ++ cs') e' := by
  intro o s b ho hprev hstale hkey
  obtain ⟨s', hs, hx⟩ := h o s b ho hprev hstale hkey
  have hnext : s'.get? k = e := by simpa using hs k
  obtain ⟨s'', hs', hy⟩ := h' o s' (b.made k cs) ho hnext hstale rfl
  exact ⟨s'', hs.trans hs', by rw [hx, hy, Book.made_made]⟩

lemma Steps.read {f : Dict PyStr Entry → Sched F α}
    (h : ∀ s, s.get? k = prev → Steps k oc (f s) y prev cs e) :
    Steps k oc (Coro.read.bind f) y prev cs e :=
  fun o s b ho hprev hstale hkey => h s hprev o s b ho hprev hstale hkey

/-- A call, after which the coroutine goes on. -/
lemma Steps.ask {c : Call F} {f : Answer c → Sched F α}
    (howner : ∀ b : Book F, b.stale = [] → b.key = k → b.owner c = k)
    (h : Steps k oc (f (oc.answer c)) y prev cs e) :
    Steps k oc ((Coro.ask c).bind f) y prev (c :: cs) e := by
  have hcall : Steps k oc ((Coro.ask c).bind f) (f (oc.answer c)) prev [c] prev := by
    intro o s b ho hprev hstale hkey
    refine ⟨s, .refl hprev, ?_⟩
    have hnote : b.note c = b.made k [c] := by
      cases c <;> simp [Book.note, Book.made, howner b hstale hkey, hstale]
    show (f ((o (b.owner c)).answer c)).play (outside o) s (b.note c) = _
    rw [howner b hstale hkey, ho, hnote]
  exact hcall.trans h

lemma Steps.pop {f : Unit → Sched F α} (h : Steps k oc (f ()) y none cs e) :
    Steps k oc ((Coro.modify (·.pop k)).bind f) y prev cs e := by
  intro o s b ho hprev hstale hkey
  obtain ⟨s', hs, hx⟩ := h o (s.pop k) b ho (by simp) hstale hkey
  refine ⟨s', fun k' => ?_, hx⟩
  rw [hs k']
  split
  · rfl
  · next hne => exact Dict.get?_pop_ne s hne

lemma Steps.set {f : Unit → Sched F α} {v : Entry} (h : Steps k oc (f ()) y (some v) cs e) :
    Steps k oc ((Coro.modify (·.set k v)).bind f) y prev cs e := by
  intro o s b ho hprev hstale hkey
  obtain ⟨s', hs, hx⟩ := h o (s.set k v) b ho (by simp) hstale hkey
  refine ⟨s', fun k' => ?_, hx⟩
  rw [hs k']
  split
  · rfl
  · next hne => exact Dict.get?_set_ne s v hne

end Steps

/-! ## One row -/

section Row

variable {cfg : Config} {oc : Outcomes} {k : PyStr} {prev : Option Entry} {p : Provider F}

/-- `_register_one` raises before its call, or makes it for a row that has a payload. -/
lemma registerOne_cases (cfg : Config) (p : Provider F) (spec : PyStr) :
    registerOne cfg p spec = .ret none ∨ ∃ payload body, buildPayload p = .ok payload ∧
      registerOne cfg p spec = register spec cfg.taskType body cfg.queue := by
  unfold registerOne
  cases buildPayload p with
  | error err => exact Or.inl rfl
  | ok payload =>
    dsimp only
    cases wrap p.tenantId payload with
    | error err => exact Or.inl rfl
    | ok body => exact Or.inr ⟨payload, body, rfl, rfl⟩

/-- The end of the body of the second loop, for a row without an entry. -/
lemma registerNew_steps (cfg : Config) (oc : Outcomes) (k : PyStr) (p : Provider F)
    (spec hash : PyStr) : ∃ cs e, ∀ y : Sched F (Except Raised Unit),
      Steps k oc ((registerNew cfg k p spec hash).bind fun _ => y) y none cs e := by
  simp only [registerNew, Coro.bind_eq, Coro.pure_eq, Coro.bind_assoc]
  rcases registerOne_cases cfg p spec with hone | ⟨payload, body, hpay, hone⟩
  · rw [hone]
    exact ⟨[], none, fun y => .refl⟩
  rw [hone, hpay]
  let reg : Call F := .register spec cfg.taskType body cfg.queue
  have hask : ∀ {y : Sched F (Except Raised Unit)}
      {f : Option PyStr → Sched F (Except Raised Unit)} {cs e},
      Steps k oc (f oc.register) y none cs e →
      Steps k oc ((register spec cfg.taskType body cfg.queue).bind f) y none
        (reg :: cs) e :=
    fun h => Steps.ask (fun b _ hkey => hkey) h
  cases hreg : oc.register with
  | none =>
    refine ⟨[reg], none, fun y => hask ?_⟩
    rw [hreg]
    exact .refl
  | some id =>
    cases henq : cfg.enqueuer with
    | false =>
      refine ⟨[reg], some ⟨id, hash, spec⟩, fun y => hask ?_⟩
      rw [hreg]
      exact .set .refl
    | true =>
      let enq : Call F := .enqueue cfg.taskType p.tenantId payload cfg.queue
      refine ⟨[reg, enq], some ⟨id, hash, spec⟩, fun y => hask ?_⟩
      rw [hreg]
      simp only [Coro.bind_assoc]
      exact .set (.ask (c := enq) (fun b _ hkey => hkey) .refl)

/-- The body of the second loop, for a row on which nothing raises that nobody catches.  The calls
and the entry depend on the row, its old entry and its outcomes only. -/
lemma registerDesired_steps (cfg : Config) (hk : p.key = k) (hsafe : ¬ Fatal oc p)
    (prev : Option Entry) : ∃ cs e, ∀ rest,
      Steps k oc (registerDesired cfg ((k, p) :: rest)) (registerDesired cfg rest) prev cs e := by
  have hderive : ∀ {y : Sched F (Except Raised Unit)}
      {f : Option (PyStr × Bool) → Sched F (Except Raised Unit)} {cs e},
      Steps k oc (f oc.deriveCron) y prev cs e →
      Steps k oc ((deriveCron p).bind f) y prev (.deriveCron p :: cs) e :=
    fun h => Steps.ask (c := .deriveCron p) (fun b _ _ => hk) h
  simp only [registerDesired, Coro.bind_eq, Coro.pure_eq]
  cases hd : oc.deriveCron with
  | none => exact absurd (Or.inl hd) hsafe
  | some derived =>
    obtain ⟨spec, ok⟩ := derived
    cases ok with
    | false =>
      refine ⟨[.deriveCron p], prev, fun rest => hderive ?_⟩
      rw [hd]
      exact .refl
    | true =>
      cases hhash : configHash spec p.config with
      | error err => exact absurd (Or.inr ⟨spec, err, hd, hhash⟩) hsafe
      | ok hash =>
        obtain ⟨cs, e, hnew⟩ := registerNew_steps cfg oc k p spec hash
        cases prev with
        | none =>
          refine ⟨.deriveCron p :: cs, e, fun rest => hderive ?_⟩
          rw [hd]
          simp only [hhash]
          refine .read fun s hs => ?_
          rw [hs]
          exact hnew _
        | some existing =>
          by_cases hsame : existing.hash = hash
          · refine ⟨[.deriveCron p], some existing, fun rest => hderive ?_⟩
            rw [hd]
            simp only [hhash]
            refine .read fun s hs => ?_
            rw [hs]
            simp only [if_pos hsame]
            exact .refl
          · have hunregister : ∀ {y : Sched F (Except Raised Unit)}
                {f : Bool → Sched F (Except Raised Unit)} {cs e},
                Steps k oc (f oc.unregister) y (some existing) cs e →
                Steps k oc ((unregister existing.entryId).bind f) y (some existing)
                  (.unregister existing.entryId :: cs) e :=
              fun h => Steps.ask (c := .unregister existing.entryId)
                (fun b hstale hkey => by simp [Book.owner, hstale, hkey]) h
            have hsteps : ∃ cs e, ∀ rest, Steps k oc
                (if oc.unregister = true then (Coro.modify (·.pop k)).bind fun _ =>
                    (registerNew cfg k p spec hash).bind fun _ => registerDesired cfg rest
                  else registerDesired cfg rest)
                (registerDesired cfg rest) (some existing) cs e := by
              cases oc.unregister with
              | false =>
                simp only [if_neg Bool.false_ne_true]
                exact ⟨[], some existing, fun rest => .refl⟩
              | true =>
                simp only [if_true]
                exact ⟨cs, e, fun rest => .pop (hnew _)⟩
            obtain ⟨cs', e', hsteps⟩ := hsteps
            refine ⟨.deriveCron p :: .unregister existing.entryId :: cs', e',
              fun rest => hderive ?_⟩
            rw [hd]
            simp only [hhash]
            refine .read fun s hs => ?_
            rw [hs]
            simp only [if_neg hsame]
            exact hunregister (hsteps rest)

/-- The same, after a row with another key. -/
lemma registerDesired_cons (cfg : Config) (hk : p.key = k) (hsafe : ¬ Fatal oc p)
    (prev : Option Entry) : ∃ cs e, ∀ rest (o : PyStr → Outcomes) (s : Dict PyStr Entry)
      (b : Book F), o k = oc → s.get? k = prev → b.stale = [] → ∃ s', Changes k e s s' ∧
        (registerDesired cfg ((k, p) :: rest)).play (outside o) s b =
          (registerDesired cfg rest).play (outside o) s' (b.made k cs) := by
  obtain ⟨cs, e, hsteps⟩ := registerDesired_steps cfg hk hsafe prev
  refine ⟨cs, e, fun rest o s b ho hprev hstale => ?_⟩
  -- the deriver comes first, and its call does not depend on the key before it
  exact hsteps rest o s { b with key := k } ho hprev hstale rfl

end Row

/-! ## The loops -/

section Loops

variable {cfg : Config} {o : PyStr → Outcomes} {oc : Outcomes} {k : PyStr} {prev : Option Entry}
  {s : Dict PyStr Entry} {b : Book F}

omit [JsonRuntime F] [Pydantic F] in
@[simp] lemma get?_onlyEntry (k : PyStr) (prev : Option Entry) :
    (onlyEntry k prev).get? k = prev := by
  cases prev <;> simp [onlyEntry]

omit [JsonRuntime F] [Pydantic F] in
lemma keys_onlyEntry {k' : PyStr} (h : k' ∈ (onlyEntry k prev).keys) : k' = k := by
  cases prev with
  | none => simp [onlyEntry] at h
  | some e => simpa [onlyEntry] using h

/-- The keys that the first loop removes. -/
def staleKeys (rows : List (Provider F)) (entries : Dict PyStr Entry) : List PyStr :=
  entries.keys.filter fun k => k ∉ (desiredOf rows).keys

/-- The first loop: the entries and the calls after it. -/
def cleanUp (o : PyStr → Outcomes) (stale : List PyStr) (entries : Dict PyStr Entry) :
    Dict PyStr Entry × Book F :=
  ((unregisterStale stale).play (outside o) entries ⟨stale, [], []⟩).2

/-- The two loops. -/
lemma perform_eq (cfg : Config) (o : PyStr → Outcomes) (rows : List (Provider F))
    (entries : Dict PyStr Entry) : perform cfg o rows entries =
      (registerDesired cfg (desiredOf rows).items).play (outside o)
        (cleanUp (F := F) o (staleKeys rows entries) entries).1
        (cleanUp o (staleKeys rows entries) entries).2 := by
  rw [perform, reconcile, Coro.bind_eq, Coro.play_bind, Coro.bind_eq, Coro.play_bind]
  rfl

omit [JsonRuntime F] [Pydantic F] in
/-- The first loop, for one key. -/
lemma unregisterStale_cons {ks : List PyStr} {e : Entry} (he : s.get? k = some e)
    (hstale : b.stale = k :: ks) :
    (unregisterStale (k :: ks)).play (outside o) s b =
      (unregisterStale ks).play (outside o) (if (o k).unregister then s.pop k else s)
        { b.made k [.unregister e.entryId] with stale := ks } := by
  have howner : b.owner (.unregister e.entryId) = k := by simp [Book.owner, hstale]
  have hnote : b.note (.unregister e.entryId) =
      { b.made k [.unregister e.entryId] with stale := ks } := by
    simp [Book.note, Book.made, howner, hstale]
  have hcall : (unregister e.entryId).play (outside o) s b =
      ((o k).unregister, s, { b.made k [.unregister e.entryId] with stale := ks }) := by
    rw [← hnote]
    exact congrArg (fun k => ((o k).unregister, s, b.note (.unregister e.entryId))) howner
  simp only [unregisterStale, Coro.bind_eq, Coro.play_bind, Coro.play_read, he, hcall]
  cases (o k).unregister <;> rfl

/-- What is done for a row alone is what is done for it before any other rows. -/
lemma registerDesired_alone (cfg : Config) {p : Provider F} (hk : p.key = k)
    (hsafe : ¬ Fatal (o k) p) (rest)
    (hstale : b.stale = []) : ∃ s', Changes k (alone cfg k (some p) (s.get? k) (o k)).2 s s' ∧
      (registerDesired cfg ((k, p) :: rest)).play (outside o) s b =
        (registerDesired cfg rest).play (outside o) s'
          (b.made k (alone cfg k (some p) (s.get? k) (o k)).1) := by
  obtain ⟨cs, e, hsteps⟩ := registerDesired_cons cfg hk hsafe (s.get? k)
  have halone : alone cfg k (some p) (s.get? k) (o k) = (cs, e) := by
    have hitems : (desiredOf [p]).items = [(k, p)] := by
      rw [items_desiredOf (by simp)]
      simp [hk]
    have hstale' : staleKeys [p] (onlyEntry k (s.get? k)) = [] := by
      refine List.filter_eq_nil_iff.mpr fun k' hk' => ?_
      obtain rfl := keys_onlyEntry hk'
      simp [Dict.keys, hitems]
    obtain ⟨s', hs', hplay⟩ := hsteps [] (fun _ => o k) (onlyEntry k (s.get? k)) ⟨[], [], []⟩ rfl
      (get?_onlyEntry k _) rfl
    have hperform : perform cfg (fun _ => o k) [p] (onlyEntry k (s.get? k)) =
        (.ok (), s', (⟨[], [], []⟩ : Book F).made k cs) := by
      rw [perform_eq, hstale', hitems]
      exact hplay
    have hcalls : ((⟨[], [], []⟩ : Book F).made k cs).callsFor k = [] ++ if k = k then cs else [] :=
      Book.callsFor_made k
    rw [alone, doneFor, Option.toList_some, hperform]
    exact Prod.ext (by simpa using hcalls) (by simpa using hs' k)
  rw [halone]
  exact hsteps rest o s b rfl rfl hstale

/-- A key without a row: its entry is unregistered. -/
lemma alone_stale (cfg : Config) (k : PyStr) (e : Entry) (oc : Outcomes) :
    alone cfg k (none : Option (Provider F)) (some e) oc =
      ([.unregister e.entryId], if oc.unregister then none else some e) := by
  have hstale : staleKeys ([] : List (Provider F)) (onlyEntry k (some e)) = [k] := rfl
  have hperform : perform (F := F) cfg (fun _ => oc) [] (onlyEntry k (some e)) =
      (.ok (), if oc.unregister then (onlyEntry k (some e)).pop k else onlyEntry k (some e),
        ⟨[], k, [(k, .unregister e.entryId)]⟩) := by
    rw [perform_eq, cleanUp, hstale, unregisterStale_cons (get?_onlyEntry k _) rfl]
    cases oc.unregister <;> rfl
  rw [alone, doneFor, Option.toList_none, hperform]
  cases oc.unregister <;> simp [Book.callsFor]

lemma alone_absent (cfg : Config) (k : PyStr) (oc : Outcomes) :
    alone cfg k (none : Option (Provider F)) none oc = ([], none) := rfl

/-- Between two moments, the calls `d.1` were made for `k`, and its entry has become `d.2`. -/
def Did (k : PyStr) (d : List (Call F) × Option Entry) (b : Book F) (s' : Dict PyStr Entry)
    (b' : Book F) : Prop :=
  b'.callsFor k = b.callsFor k ++ d.1 ∧ s'.get? k = d.2

omit [JsonRuntime F] [Pydantic F] in
lemma Did.idle (k : PyStr) (s : Dict PyStr Entry) (b : Book F) : Did k ([], s.get? k) b s b :=
  ⟨(List.append_nil _).symm, rfl⟩

/-- The first loop treats its keys as if each were alone, and leaves the others as they are. -/
lemma unregisterStale_isolated (cfg : Config) {ks : List PyStr} (hn : ks.Nodup)
    (hks : ∀ k ∈ ks, k ∈ s.keys) (hstale : b.stale = ks) : ∃ s' b',
      (unregisterStale ks).play (outside o) s b = ((), s', b') ∧ b'.stale = [] ∧
      (∀ k ∈ ks, Did k (alone cfg k none (s.get? k) (o k)) b s' b') ∧
      ∀ k ∉ ks, Did k ([], s.get? k) b s' b' := by
  induction ks generalizing s b with
  | nil => exact ⟨s, b, rfl, hstale, by simp, fun k _ => .idle k s b⟩
  | cons k ks ih =>
    obtain ⟨hk, hn⟩ := List.nodup_cons.mp hn
    obtain ⟨hmem, hks⟩ := List.forall_mem_cons.mp hks
    obtain ⟨e, he⟩ := Dict.mem_keys_iff_get?.mp hmem
    have hother : ∀ k' ≠ k, (if (o k).unregister then s.pop k else s).get? k' = s.get? k' := by
      intro k' hne
      split
      · exact Dict.get?_pop_ne s hne
      · rfl
    have hkept : ∀ k' ∈ ks, k' ∈ (if (o k).unregister then s.pop k else s).keys := by
      intro k' hk'
      rw [Dict.mem_keys_iff_get?, hother k' fun heq => hk (heq ▸ hk')]
      exact Dict.mem_keys_iff_get?.mp (hks k' hk')
    let b₁ : Book F := { b.made k [.unregister e.entryId] with stale := ks }
    have hcalls : ∀ k', b₁.callsFor k' =
        b.callsFor k' ++ if k' = k then [.unregister e.entryId] else [] := Book.callsFor_made
    obtain ⟨s', b', hplay, hstale', hin, hout⟩ := ih (b := b₁) hn hkept rfl
    refine ⟨s', b', (unregisterStale_cons he hstale).trans hplay, hstale', fun k' hk' => ?_,
      fun k' hk' => ?_⟩
    · rcases List.mem_cons.mp hk' with rfl | hk'
      · -- the rest of the loop has nothing to do with this key
        obtain ⟨hcalls', hentry⟩ := hout k' hk
        rw [he, alone_stale]
        refine ⟨by rw [hcalls', hcalls]; simp, ?_⟩
        rw [hentry]
        cases (o k').unregister <;> simp [he]
      · have hne : k' ≠ k := fun heq => hk (heq ▸ hk')
        obtain ⟨hcalls', hentry⟩ := hin k' hk'
        rw [hother k' hne] at hcalls' hentry
        exact ⟨by rw [hcalls', hcalls, if_neg hne, List.append_nil], hentry⟩
    · obtain ⟨hne, hk'⟩ := not_or.mp fun h => hk' (List.mem_cons.mpr h)
      obtain ⟨hcalls', hentry⟩ := hout k' hk'
      rw [hother k' hne] at hentry
      exact ⟨by rw [hcalls', hcalls, if_neg hne, List.append_nil], hentry⟩

/-- So does the second loop, if no row is fatal. -/
lemma registerDesired_isolated (cfg : Config) {items : List (PyStr × Provider F)}
    (hkey : ∀ x ∈ items, x.2.key = x.1) (hn : (items.map Prod.fst).Nodup)
    (hsafe : ∀ x ∈ items, ¬ Fatal (o x.1) x.2) (hstale : b.stale = []) : ∃ s' b',
      (registerDesired cfg items).play (outside o) s b = (.ok (), s', b') ∧
      (∀ x ∈ items, Did x.1 (alone cfg x.1 (some x.2) (s.get? x.1) (o x.1)) b s' b') ∧
      ∀ k ∉ items.map Prod.fst, Did k ([], s.get? k) b s' b' := by
  induction items generalizing s b with
  | nil => exact ⟨s, b, rfl, by simp, fun k _ => .idle k s b⟩
  | cons x items ih =>
    obtain ⟨k, p⟩ := x
    obtain ⟨hp, hkey⟩ := List.forall_mem_cons.mp hkey
    obtain ⟨hk, hn⟩ := List.nodup_cons.mp hn
    obtain ⟨hsafe₁, hsafe⟩ := List.forall_mem_cons.mp hsafe
    obtain ⟨s₁, hs₁, hplay₁⟩ := registerDesired_alone cfg (s := s) hp hsafe₁ items hstale
    obtain ⟨s', b', hplay, hin, hout⟩ := ih (s := s₁)
      (b := b.made k (alone cfg k (some p) (s.get? k) (o k)).1) hkey hn hsafe hstale
    refine ⟨s', b', hplay₁.trans hplay, List.forall_mem_cons.mpr ⟨?_, fun x hx => ?_⟩,
      fun k' hk' => ?_⟩
    · obtain ⟨hcalls, hentry⟩ := hout k hk
      refine ⟨by rw [hcalls, Book.callsFor_made]; simp, ?_⟩
      simpa using hentry.trans (hs₁ k)
    · have hne : x.1 ≠ k := by
        rintro rfl
        exact hk (List.mem_map.mpr ⟨x, hx, rfl⟩)
      obtain ⟨hcalls, hentry⟩ := hin x hx
      rw [hs₁ x.1, if_neg hne] at hcalls hentry
      exact ⟨by rw [hcalls, Book.callsFor_made, if_neg hne, List.append_nil], hentry⟩
    · obtain ⟨hne, hk'⟩ := not_or.mp fun h => hk' (List.mem_cons.mpr h)
      obtain ⟨hcalls, hentry⟩ := hout k' hk'
      have hne : k' ≠ k := hne
      rw [hs₁ k', if_neg hne] at hentry
      exact ⟨by rw [hcalls, Book.callsFor_made, if_neg hne, List.append_nil], hentry⟩

/-- A fatal row ends the second loop. -/
lemma registerDesired_fatal (cfg : Config) {p : Provider F} (hk : p.key = k)
    (hfatal : Fatal (o k) p) (rest) :
    ∃ err, ((registerDesired cfg ((k, p) :: rest)).play (outside o) s b).1 = .error err := by
  subst hk
  have hderive : (deriveCron p).play (outside o) s b =
      ((o p.key).deriveCron, s, b.note (.deriveCron p)) := rfl
  simp only [registerDesired, Coro.bind_eq, Coro.play_bind, hderive]
  rcases hfatal with hd | ⟨spec, err, hd, hhash⟩
  · rw [hd]
    exact ⟨.deriveCron, rfl⟩
  · rw [hd]
    simp only [hhash]
    exact ⟨.std err, rfl⟩

/-- A second loop that returns has met no fatal row. -/
lemma not_fatal_of_registerDesired {items : List (PyStr × Provider F)}
    (hkey : ∀ x ∈ items, x.2.key = x.1) (hstale : b.stale = [])
    (hok : ((registerDesired cfg items).play (outside o) s b).1 = .ok ()) :
    ∀ x ∈ items, ¬ Fatal (o x.1) x.2 := by
  induction items generalizing s b with
  | nil => simp
  | cons x items ih =>
    obtain ⟨k, p⟩ := x
    obtain ⟨hp, hkey⟩ := List.forall_mem_cons.mp hkey
    by_cases hfatal : Fatal (o k) p
    · obtain ⟨err, herr⟩ := registerDesired_fatal cfg (s := s) (b := b) hp hfatal items
      cases herr.symm.trans hok
    · obtain ⟨s₁, -, hplay⟩ := registerDesired_alone cfg (s := s) hp hfatal items hstale
      rw [hplay] at hok
      have hrest := ih (s := s₁)
        (b := b.made k (alone cfg k (some p) (s.get? k) (o k)).1) hkey hstale hok
      exact List.forall_mem_cons.mpr ⟨hfatal, hrest⟩

end Loops

/-! ## Whole reconciles and the loop around them -/

section Whole

variable {cfg : Config} {o : PyStr → Outcomes} {rows : List (Provider F)}
  {entries : Dict PyStr Entry}

/-- What the first loop leaves: the stale keys are treated as if each were alone. -/
lemma cleanUp_isolated (cfg : Config) (o : PyStr → Outcomes) (rows : List (Provider F))
    (entries : Dict PyStr Entry) : ∃ s b, cleanUp o (staleKeys rows entries) entries = (s, b) ∧
      b.stale = [] ∧
      (∀ k ∈ staleKeys rows entries,
        (b.callsFor k, s.get? k) = alone (F := F) cfg k none (entries.get? k) (o k)) ∧
      ∀ k ∉ staleKeys rows entries, b.callsFor k = [] ∧ s.get? k = entries.get? k := by
  have hn : (staleKeys rows entries).Nodup := entries.nodup_keys.filter _
  have hmem : ∀ k ∈ staleKeys rows entries, k ∈ entries.keys := fun k hk =>
    (List.mem_filter.mp hk).1
  obtain ⟨s, b, hplay, hstale, hin, hout⟩ := unregisterStale_isolated (o := o)
    (b := (⟨staleKeys rows entries, [], []⟩ : Book F)) cfg hn hmem rfl
  refine ⟨s, b, by rw [cleanUp, hplay], hstale, fun k hk => ?_, hout⟩
  obtain ⟨hcalls, hentry⟩ := hin k hk
  exact Prod.ext hcalls hentry

/-- A reconcile without a fatal row returns, and treats every key as if it were alone. -/
theorem isolated_of_safe (hrows : (rows.map Provider.key).Nodup)
    (hsafe : ∀ p ∈ rows, ¬ Fatal (o p.key) p) :
    (perform cfg o rows entries).1 = .ok () ∧ Isolated cfg o rows entries := by
  have hitems := items_desiredOf hrows
  have hkeys : ∀ k, k ∈ (desiredOf rows).keys ↔ ∃ p ∈ rows, p.key = k := by
    intro k
    simp [Dict.keys, hitems]
  have hstale : ∀ k, k ∈ staleKeys rows entries ↔ k ∈ entries.keys ∧ ¬ ∃ p ∈ rows, p.key = k := by
    intro k
    rw [staleKeys, List.mem_filter, decide_eq_true_eq, hkeys]
  obtain ⟨s, b, hclean, hb, hremoved, hkept⟩ := cleanUp_isolated cfg o rows entries
  have hkey : ∀ x ∈ rows.map (fun p => (p.key, p)), x.2.key = x.1 := by simp
  obtain ⟨s', b', hplay, hin, hout⟩ := registerDesired_isolated cfg (o := o) (s := s) hkey
    (by rw [List.map_map]; exact hrows) (by simpa using hsafe) hb
  have hperform : perform cfg o rows entries = (.ok (), s', b') := by
    rw [perform_eq, hclean, hitems, hplay]
  refine ⟨by rw [hperform], fun k => ?_⟩
  rw [hperform, doneFor]
  by_cases hrow : ∃ p ∈ rows, p.key = k
  · obtain ⟨p, hp, rfl⟩ := hrow
    have hfind : rows.find? (fun q => q.key = p.key) = some p := by
      obtain ⟨q, hq⟩ := Option.isSome_iff_exists.mp
        (List.find?_isSome (p := fun q : Provider F => decide (q.key = p.key)) |>.mpr
          ⟨p, hp, by simp⟩)
      have hqk : q.key = p.key := by simpa using List.find?_some hq
      rw [hq, List.inj_on_of_nodup_map hrows (List.mem_of_find?_eq_some hq) hp hqk]
    obtain ⟨hcalls₀, hentry₀⟩ := hkept p.key fun h => ((hstale _).mp h).2 ⟨p, hp, rfl⟩
    obtain ⟨hcalls, hentry⟩ := hin (p.key, p) (List.mem_map_of_mem hp)
    rw [hcalls₀, hentry₀] at hcalls
    rw [hentry₀] at hentry
    rw [hfind]
    exact Prod.ext hcalls hentry
  · have hfind : rows.find? (fun q => q.key = k) = none := by
      simpa using hrow
    obtain ⟨hcalls, hentry⟩ := hout k (by simpa using hrow)
    rw [List.append_nil] at hcalls
    rw [hfind]
    by_cases hk : k ∈ entries.keys
    · rw [← hremoved k ((hstale k).mpr ⟨hk, hrow⟩)]
      exact Prod.ext hcalls hentry
    · obtain ⟨hcalls₀, hentry₀⟩ := hkept k fun h => hk ((hstale k).mp h).1
      rw [Dict.get?_eq_none.mpr hk] at hentry₀ ⊢
      rw [alone_absent]
      exact Prod.ext (hcalls.trans hcalls₀) (hentry.trans hentry₀)

/-- A reconcile that returns has met no fatal row. -/
lemma safe_of_ok (hrows : (rows.map Provider.key).Nodup)
    (hok : (perform cfg o rows entries).1 = .ok ()) : ∀ p ∈ rows, ¬ Fatal (o p.key) p := by
  obtain ⟨s, b, hclean, hb, -⟩ := cleanUp_isolated cfg o rows entries
  rw [perform_eq, hclean, items_desiredOf hrows] at hok
  have hall := not_fatal_of_registerDesired (by simp) hb hok
  exact fun p hp => hall (p.key, p) (List.mem_map_of_mem hp)

lemma perform_ok_iff (hrows : (rows.map Provider.key).Nodup) :
    (perform cfg o rows entries).1 = .ok () ↔ ∀ p ∈ rows, ¬ Fatal (o p.key) p :=
  ⟨safe_of_ok hrows, fun hsafe => (isolated_of_safe hrows hsafe).1⟩

/-- The loop reaches its next tick exactly if there was no fatal row; a failed fetch does it no
harm. -/
theorem runLoop_waiting_iff {ticks : List (Tick F)} (hticks : ∀ t ∈ ticks, ∀ rows,
    t.rows = some rows → (rows.map Provider.key).Nodup) :
    (runLoop cfg ticks entries).1 = .waiting ↔ ∀ t ∈ ticks, ∀ rows, t.rows = some rows →
      ∀ p ∈ rows, ¬ Fatal (t.outcomes p.key) p := by
  induction ticks generalizing entries with
  | nil => simp [runLoop]
  | cons t ticks ih =>
    obtain ⟨ht, hticks⟩ := List.forall_mem_cons.mp hticks
    have hstep : (t.reconcile cfg entries).1 = .ok () ↔
        ∀ rows, t.rows = some rows → ∀ p ∈ rows, ¬ Fatal (t.outcomes p.key) p := by
      unfold Tick.reconcile
      cases hr : t.rows with
      | none => simp
      | some rows =>
        simp only [Option.some.injEq, forall_eq']
        exact perform_ok_iff (ht rows hr)
    rw [List.forall_mem_cons, ← hstep, runLoop]
    cases hrec : t.reconcile cfg entries with
    | mk r entries' =>
      cases r with
      | ok u => simpa using ih hticks
      | error err => simp

end Whole

/-- **Every key is treated as if it were alone and the loop goes on exactly if no row is fatal.** -/
theorem isolated_iff (cfg : Config) (o : PyStr → Outcomes) (rows : List (Provider F))
    (entries : Dict PyStr Entry) (hrows : (rows.map Provider.key).Nodup) :
    (Isolated cfg o rows entries ∧ (runLoop cfg [⟨some rows, o⟩] entries).1 = .waiting) ↔
      ∀ p ∈ rows, ¬ Fatal (o p.key) p := by
  have hticks : ∀ t ∈ [(⟨some rows, o⟩ : Tick F)], ∀ rows, t.rows = some rows →
      (rows.map Provider.key).Nodup := by
    simpa using hrows
  rw [runLoop_waiting_iff hticks]
  constructor
  · exact fun h => h.2 _ List.mem_cons_self rows rfl
  · exact fun hsafe => ⟨(isolated_of_safe hrows hsafe).2, by simpa using hsafe⟩

section Example

/-- A row on which the deriver raises. -/
def broken : Provider Empty := ⟨text "22222222-2222-2222-2222-222222222222", text "openai", .obj []⟩

/-- The deriver raises on that row, and runs every other row once a minute. -/
def brokenOutcomes (k : PyStr) : Outcomes :=
  ⟨if k = broken.key then none else some (text "@every 1m", true), true, some (text "e1"), true⟩

theorem openai_isolated :
    Isolated syncs brokenOutcomes [openai] .empty ∧
      (runLoop syncs [⟨some [openai], brokenOutcomes⟩] .empty).1 = .waiting := by
  refine (isolated_iff syncs brokenOutcomes [openai] .empty (by simp)).mpr ?_
  have hne : openai.key ≠ broken.key := by decide
  have hhashed : (configHash (text "@every 1m") openai.config).isOk = true := by decide +kernel
  rintro p hp hfatal
  obtain rfl := List.mem_singleton.mp hp
  rcases hfatal with hd | ⟨spec, e, hd, hhash⟩
  · simp [brokenOutcomes, hne] at hd
  · obtain rfl : text "@every 1m" = spec := by simpa [brokenOutcomes, hne] using hd
    rw [hhash] at hhashed
    cases hhashed

/-- The row after it is not registered, and the loop ends. -/
theorem broken_row_stops_others :
    ¬ Isolated syncs brokenOutcomes [broken, openai] .empty ∧
      (runLoop syncs [⟨some [broken, openai], brokenOutcomes⟩] .empty).1 =
        .crashed .deriveCron := by
  refine ⟨fun h => ?_, by decide +kernel⟩
  have hkey := congrArg Prod.snd (h openai.key)
  have hmissing : (doneFor openai.key
      (perform syncs brokenOutcomes [broken, openai] .empty)).2 = none := by decide +kernel
  have halone : (alone syncs openai.key (some openai) none (brokenOutcomes openai.key)).2.isSome =
      true := by decide +kernel
  have hfind : [broken, openai].find? (fun p => p.key = openai.key) = some openai := by rfl
  rw [hmissing, hfind] at hkey
  rw [Dict.get?_empty] at hkey
  rw [← hkey] at halone
  cases halone

end Example

end Omkit.Scheduler
