import Omkit.Lib.Json.Limits
import Omkit.Settings.Secrets

/-!
# The messages of the channel

`_handle_message` from the text of a message to the last callback.  It stands on its own between the
messages: what it raises ends the subscription, and every message published until the manager has
subscribed again is lost.
-/

namespace Omkit.Settings

open Lib

/-! ## `_handle_message` -/

/-- How a callback ends: it returns, or it raises an `Exception`, or something that is none, as a
`CancelledError`. -/
inductive CallbackEnd
  | returned
  | exception
  | baseException
deriving DecidableEq

/-- What leaves `_handle_message`. -/
inductive Escaped
  | std (e : StdExc)
  | callback
deriving DecidableEq

/-- The loop over the callbacks of a key. -/
def fireCallbacks : List CallbackEnd → Except Escaped Unit
  | [] => .ok ()
  | .returned :: l | .exception :: l => fireCallbacks l
  | .baseException :: _ => .error .callback

variable {F : Type} [JsonRuntime F] [DecidableEq F] [FloatKeys F] [PyNumbers F]

/-- `_write_cache`, if the message has come that far. -/
def Manager.writeMessage (m : Manager F) (replaced : Bool) : Manager F :=
  if m.fileStep = .message then m.writeCache replaced else m

/-- `_handle_message`: what it raises, and the manager after it.  A key without a hash raises a
`TypeError`, at the latest when its listeners are looked up. -/
def Manager.handleMessageFully (m : Manager F) (listeners : CacheKey F → List CallbackEnd)
    (replaced : Bool) (data : PyStr) : Except Escaped Unit × Manager F :=
  match loads data with
  | .error e => (if e = .jsonDecodeError then .ok () else .error (.std e), m)
  | .ok payload => match payload.get (text "key") with
    | .error e => (.error (.std e), m)
    | .ok key =>
      if key.truthy then
        (match CacheKey.of? key with
          | none => .error (.std .typeError)
          | some k => fireCallbacks (listeners k),
          (m.handleMessage data).writeMessage replaced)
      else (.ok (), m)

/-! ## What a message may do -/

/-- The message is a JSON object with this non-empty string as its `key`. -/
def Names (F : Type) [JsonRuntime F] (data k : PyStr) : Prop :=
  ∃ payload, loads (F := F) data = .ok (.obj payload) ∧ payload.lookup (text "key") = some (.str k) ∧
    k ≠ []

/-- The two managers differ in nothing but their caches and their files. -/
structure SameBeside (m m' : Manager F) : Prop where
  secretKeys : m'.secretKeys = m.secretKeys
  lastSeen : m'.lastSeen = m.lastSeen
  poll : m'.poll = m.poll

/-- The message has done no harm: `_handle_message` has returned, no entry has changed but that of
the key that the message names, and without such a key nothing has. -/
structure Harmless (m : Manager F) (data : PyStr) (r : Except Escaped Unit × Manager F) : Prop where
  returns : r.1 = .ok ()
  cache : ∀ key, (∀ k, Names F data k → key ≠ .str k) →
    r.2.cache.get? key = m.cache.get? key
  beside : SameBeside m r.2
  nothing : (∀ k, ¬ Names F data k) → r.2 = m

/-- The text does not exceed the limits of the decoder; if it is JSON, it is an object whose `key`
is false or a string; and no callback of that key raises what is no `Exception`. -/
structure Sound (F : Type) [JsonRuntime F] [PyNumbers F] (listeners : CacheKey F → List CallbackEnd)
    (data : PyStr) : Prop where
  limits : data.head? = some (.scalar '\ufeff') ∨ ∀ e, ¬ Exceeds F data e
  object : ∀ v : Json F, loads data = .ok v → ∃ payload, v = .obj payload
  key : ∀ payload (v : Json F), loads data = .ok (.obj payload) →
    payload.lookup (text "key") = some v → v.truthy = true →
      ∃ k, v = .str k ∧ .baseException ∉ listeners (.str k)

omit [JsonRuntime F] [DecidableEq F] [FloatKeys F] [PyNumbers F] in
lemma SameBeside.trans {m m' m'' : Manager F} (h : SameBeside m m') (h' : SameBeside m' m'') :
    SameBeside m m'' :=
  ⟨h'.secretKeys.trans h.secretKeys, h'.lastSeen.trans h.lastSeen, h'.poll.trans h.poll⟩

lemma fireCallbacks_eq_ok {l : List CallbackEnd} :
    fireCallbacks l = .ok () ↔ CallbackEnd.baseException ∉ l := by
  induction l with
  | nil => simp [fireCallbacks]
  | cons c l ih => cases c <;> simp [fireCallbacks, ih]

section

variable {m : Manager F} {listeners : CacheKey F → List CallbackEnd} {replaced : Bool}
  {data k : PyStr} {payload : List (PyStr × Json F)} {key : Json F}

/-! ### The steps of a message -/

omit [FloatKeys F] [PyNumbers F] in
/-- Writing the file changes no entry. -/
lemma Manager.writeMessage_frame (m : Manager F) (replaced : Bool) :
    (m.writeMessage replaced).cache = m.cache ∧ SameBeside m (m.writeMessage replaced) := by
  unfold writeMessage writeCache
  split
  · split <;> exact ⟨rfl, rfl, rfl, rfl⟩
  · exact ⟨rfl, rfl, rfl, rfl⟩

omit [JsonRuntime F] [FloatKeys F] [PyNumbers F] in
lemma Cache.get?_put_ne {c : Cache F} {key key' : CacheKey F} (h : key' ≠ key) (name : PyStr)
    (v : Json F) : (c.put key name v).get? key' = c.get? key' :=
  Dict.get?_set_ne c _ h

/-- A payload with a string for its key changes the entry of that key. -/
lemma Manager.handlePayload_cache {key : CacheKey F} (h : key ≠ .str k) :
    (m.handlePayload payload (.str k)).cache.get? key = m.cache.get? key := by
  unfold handlePayload
  split
  · exact Cache.get?_put_ne h _ _
  · split
    · exact Dict.get?_pop_ne m.cache h
    · rfl

lemma Manager.handlePayload_beside : SameBeside m (m.handlePayload payload (.str k)) := by
  unfold handlePayload
  split
  · exact ⟨rfl, rfl, rfl⟩
  · split <;> exact ⟨rfl, rfl, rfl⟩

lemma Manager.handleMessage_obj (hp : loads data = .ok (.obj payload))
    (hkey : payload.lookup (text "key") = some key) (htrue : key.truthy = true) :
    m.handleMessage data = m.handlePayload payload key := by
  simp [handleMessage, hp, hkey, htrue]

/-- What a text that is no JSON object raises. -/
lemma Manager.handleMessageFully_error {e : StdExc} (h : loads (F := F) data = .error e) :
    m.handleMessageFully listeners replaced data =
      (if e = .jsonDecodeError then .ok () else .error (.std e), m) := by
  rw [handleMessageFully, h]

lemma Manager.handleMessageFully_other {v : Json F} (h : loads data = .ok v)
    (hv : ∀ payload, v ≠ .obj payload) :
    m.handleMessageFully listeners replaced data = (.error (.std .attributeError), m) := by
  rw [handleMessageFully, h]
  cases v with
  | obj payload => exact absurd rfl (hv payload)
  | _ => rfl

/-- A payload without a key, or with a false one, is ignored. -/
lemma Manager.handleMessageFully_false (h : loads data = .ok (.obj payload))
    (hkey : ∀ key, payload.lookup (text "key") = some key → key.truthy = false) :
    m.handleMessageFully listeners replaced data = (.ok (), m) := by
  have hfalse : ((payload.lookup (text "key")).getD .null).truthy = false := by
    cases hl : payload.lookup (text "key") with
    | none => rfl
    | some key => exact hkey key hl
  simp [handleMessageFully, h, Json.get, hfalse]

lemma Manager.handleMessageFully_true (h : loads data = .ok (.obj payload))
    (hkey : payload.lookup (text "key") = some key) (htrue : key.truthy = true) :
    m.handleMessageFully listeners replaced data =
      (match CacheKey.of? key with
        | none => .error (.std .typeError)
        | some k => fireCallbacks (listeners k),
        (m.handlePayload payload key).writeMessage replaced) := by
  simp only [handleMessageFully, h, Json.get, hkey, Option.getD_some, htrue, if_true,
    handleMessage_obj h hkey htrue]

/-- What a message leaves is a state that the manager's own steps lead to. -/
theorem Manager.handleMessageFully_reachable (h : managers.Reachable m)
    (hidle : m.fileStep = .idle) :
    managers.Reachable (m.handleMessageFully listeners replaced data).2 := by
  have hmessage : managers.Reachable (m.handleMessage data) := by
    refine h.step (e := .handleMessage data) ?_
    show m.step (.handleMessage data) = _
    simp only [step, hidle]
  have hwrite : managers.Reachable ((m.handleMessage data).writeMessage replaced) := by
    unfold writeMessage
    split
    · next hstep =>
      refine hmessage.step (e := .writeCache replaced) ?_
      show (m.handleMessage data).step (.writeCache replaced) = _
      simp only [step, hstep]
    · exact hmessage
  unfold handleMessageFully
  split
  · exact h
  · split
    · exact h
    · split
      · exact hwrite
      · exact h

/-! ### Sound messages -/

/-- A sound message does no harm. -/
theorem harmless_of_sound (h : Sound F listeners data) :
    Harmless m data (m.handleMessageFully listeners replaced data) := by
  cases hl : loads (F := F) data with
  | error e =>
    have he : e = .jsonDecodeError := by
      by_contra hne
      obtain ⟨hbom, hex⟩ := (loads_error_iff_exceeds hne).mp hl
      rcases h.limits with hbom' | hlim
      · exact hbom hbom'
      · exact hlim e hex
    rw [Manager.handleMessageFully_error hl, if_pos he]
    exact ⟨rfl, fun _ _ => rfl, ⟨rfl, rfl, rfl⟩, fun _ => rfl⟩
  | ok v =>
    obtain ⟨payload, rfl⟩ := h.object v hl
    by_cases hkey : ∃ key, payload.lookup (text "key") = some key ∧ key.truthy = true
    · obtain ⟨key, hkey, htrue⟩ := hkey
      obtain ⟨k, rfl, hlist⟩ := h.key payload key hl hkey htrue
      have hnames : Names F data k := ⟨payload, hl, hkey, by simpa [Json.truthy] using htrue⟩
      rw [Manager.handleMessageFully_true hl hkey htrue]
      obtain ⟨hcache, hbeside⟩ := (m.handlePayload payload (.str k)).writeMessage_frame replaced
      refine ⟨fireCallbacks_eq_ok.mpr hlist, fun key hne => ?_, ?_, fun hno => ?_⟩
      · exact (congrArg (·.get? key) hcache).trans (Manager.handlePayload_cache (hne k hnames))
      · exact Manager.handlePayload_beside.trans hbeside
      · exact absurd hnames (hno k)
    · rw [Manager.handleMessageFully_false hl fun key hk => by
        by_contra htrue
        exact hkey ⟨key, hk, by simpa using htrue⟩]
      exact ⟨rfl, fun _ _ => rfl, ⟨rfl, rfl, rfl⟩, fun _ => rfl⟩

/-! ### Messages that do harm -/

/-- A manager that has not been started, without a cache file. -/
def idleManager (F : Type) : Manager F := ⟨.empty, [], none, none, .idle, none, .empty, []⟩

lemma idleManager_reachable : managers.Reachable (idleManager F) :=
  .init ⟨rfl, rfl, rfl, rfl, rfl, rfl, rfl⟩

omit [FloatKeys F] [PyNumbers F] in
/-- An empty cache can be written. -/
lemma Manager.writeCache_empty (hcache : m.cache = .empty) :
    (m.writeCache true).file = some (render .default (.obj [] : Json F)) := by
  obtain ⟨d, hd⟩ := Nat.exists_eq_add_of_le' (JsonRuntime.maxDepth_ge (F := F))
  have hdump : m.dump = .ok (render .default (.obj [] : Json F)) := by
    rw [dump, data, hcache]
    refine dumps_eq_ok.mpr ⟨?_, rfl⟩
    rw [hd]
    rfl
  simp only [writeCache, hdump]

/-- A key that is no string leaves a trace as well: an entry, or a file. -/
lemma handlePayload_trace {key' : CacheKey F} (h : CacheKey.of? key = some key') :
    ((idleManager F).handlePayload payload key).writeMessage true ≠ idleManager F := by
  intro heq
  cases hv : payload.lookup (text "value") with
  | some v =>
    have hput : ((idleManager F).handlePayload payload key).cache =
        Cache.put .empty key' (keyText key) v := by
      simp only [Manager.handlePayload, hv, h]
      rfl
    have hget := congrArg (fun m : Manager F => m.cache.get? key') heq
    simp only [(Manager.writeMessage_frame _ _).1, hput, Cache.put, Dict.get?_set_self] at hget
    cases hget
  | none =>
    have hcache : ((idleManager F).handlePayload payload key).cache = .empty := by
      simp only [Manager.handlePayload, hv, h]
      split <;> rfl
    have hstep : ((idleManager F).handlePayload payload key).fileStep = .message := by
      simp only [Manager.handlePayload, hv, h]
      split <;> rfl
    have hfile := congrArg Manager.file heq
    rw [Manager.writeMessage, if_pos hstep, Manager.writeCache_empty hcache] at hfile
    cases hfile

/-- A message that does no harm to a manager that has not been started is sound. -/
theorem sound_of_harmless (h : Harmless (idleManager F) data
    ((idleManager F).handleMessageFully listeners true data)) : Sound F listeners data where
  limits := by
    by_contra hno
    rw [not_or, not_forall] at hno
    obtain ⟨hbom, e, he⟩ := hno
    rw [not_not] at he
    have hne : e ≠ .jsonDecodeError := by
      rintro rfl
      obtain ⟨n, u, -, hoff⟩ := he
      exact hoff
    have hreturns := h.returns
    rw [Manager.handleMessageFully_error ((loads_error_iff_exceeds hne).mpr ⟨hbom, he⟩),
      if_neg hne] at hreturns
    cases hreturns
  object v hv := by
    by_contra hno
    have hreturns := h.returns
    rw [Manager.handleMessageFully_other hv fun payload hp => hno ⟨payload, hp⟩] at hreturns
    cases hreturns
  key payload v hp hkey htrue := by
    rw [Manager.handleMessageFully_true hp hkey htrue] at h
    cases hk : CacheKey.of? v with
    | none =>
      have hreturns := h.returns
      rw [hk] at hreturns
      cases hreturns
    | some key =>
      by_cases hstr : ∃ k, v = .str k
      · obtain ⟨k, rfl⟩ := hstr
        exact ⟨k, rfl, fireCallbacks_eq_ok.mp h.returns⟩
      · refine absurd (h.nothing fun k hnames => ?_) (handlePayload_trace hk)
        obtain ⟨payload', hp', hkey', -⟩ := hnames
        obtain rfl := Json.obj.inj (Except.ok.inj (hp.symm.trans hp'))
        exact hstr ⟨k, Option.some.inj (hkey.symm.trans hkey')⟩

end

/-- **A message does no harm, in any state of the manager, exactly if it is sound.** -/
theorem handleMessage_harmless_iff (listeners : CacheKey F → List CallbackEnd) (data : PyStr) :
    (∀ (m : Manager F) (replaced : Bool), managers.Reachable m → m.fileStep = .idle →
      Harmless m data (m.handleMessageFully listeners replaced data)) ↔ Sound F listeners data := by
  constructor
  · intro hall
    exact sound_of_harmless (hall (idleManager F) true idleManager_reachable rfl)
  · intro hsound m replaced _ _
    exact harmless_of_sound hsound

/-- A number for a message raises an `AttributeError`. -/
theorem number_message_escapes : ¬ ∀ (m : Manager Empty) (listeners : CacheKey Empty → List CallbackEnd)
    (replaced : Bool) (data : PyStr), managers.Reachable m → m.fileStep = .idle →
      (∀ key, CallbackEnd.baseException ∉ listeners key) →
        Harmless m data (m.handleMessageFully listeners replaced data) := by
  intro hall
  have h := hall (idleManager Empty) (fun _ => []) true (text "1") idleManager_reachable rfl
    fun _ hmem => by cases hmem
  have hreturns : ((idleManager Empty).handleMessageFully (fun _ => []) true (text "1")).1 = .ok () :=
    h.returns
  revert hreturns
  decide +kernel

end Omkit.Settings
