import Omkit.Kms.Transit
import Omkit.Lib.Dict
import Omkit.Lib.Machine

/-!
# The token under concurrent operations

Any number of operations of `OpenBaoKMS` use the token that the adapter keeps.  An operation that is
refused drops the token and logs in again, but the drop does not look whether the token that is kept
by then is the one that was refused: it may be the token of a login that another operation has made
in between.
-/

namespace Omkit.Kms

open Lib

variable {F : Type} [JsonRuntime F] [PyNumbers F]

/-! ## The phases of an operation -/

/-- The request that an operation makes. -/
structure Operation (F : Type) where
  method : PyStr
  path : PyStr
  body : Option (List (PyStr × Json F))

/-- Where an operation stands when it does not run.  `refused` is the token that it was refused with,
if it was. -/
inductive Phase (F : Type)
  /-- It waits for the lock, to get a token. -/
  | enter (refused : Option (Json F))
  /-- It has seen a token and reads the clock. -/
  | check (refused : Option (Json F)) (seen : TokenState F)
  /-- It has sent a login. -/
  | login (refused : Option (Json F))
  /-- It has stored the token of a login and reads the clock. -/
  | stamp (refused : Option (Json F)) (lease : ℤ)
  /-- It gives the lock back, with a token or an exception. -/
  | leave (refused : Option (Json F)) (r : Except (BaoExc F) (Json F))
  /-- It has sent its request. -/
  | request (refused : Option (Json F)) (token : Json F)
  /-- It was refused, and waits for the lock to drop the token. -/
  | drop (refused : Json F)
  /-- It has dropped the token and gives the lock back. -/
  | dropped (refused : Json F)
  | done (r : Except (BaoExc F) (Json F))

namespace Phase

variable (k : OpenBaoKMS) (op : Operation F)

/-- The login. -/
def loginRequest (k : OpenBaoKMS) : Request F :=
  ⟨text "POST", k.addr ++ text "/v1/auth/approle/login", none,
    some [(text "role_id", .str k.roleId), (text "secret_id", .str k.secretId)]⟩

/-- The request of the operation, with a token. -/
def authedRequest (token : Json F) : Request F :=
  ⟨op.method, k.addr ++ op.path, if token.truthy then some token else none, op.body⟩

/-- The call that the operation waits for. -/
def call : Phase F → Option (BaoCall F)
  | enter _ | drop _ => some .lock
  | check .. | stamp .. => some .monotonic
  | login _ => some (.request (loginRequest k))
  | leave .. | dropped _ => some .unlock
  | request _ token => some (.request (authedRequest k op token))
  | done _ => none

/-- What a login has been answered. -/
def afterLogin (refused : Option (Json F)) (s : TokenState F) :
    Except (BaoExc F) (Json F) → TokenState F × Phase F
  | .error e => (s, leave refused (.error e))
  | .ok resp => match OpenBaoKMS.loginFields resp with
    | .error .attributeError | .error .typeError =>
      (s, leave refused (.error (.unavailable (.login resp) 0)))
    | .error e => (s, leave refused (.error (.std e)))
    | .ok (token, lease) =>
      if token.truthy = false then (s, leave refused (.error (.unavailable (.login resp) 0)))
      else ({ s with token }, stamp refused lease)

/-- What the first request has been answered. -/
def afterRequest (token : Json F) : Except (BaoExc F) (Json F) → Phase F
  | .error (.auth m status) => if status = 403 then drop token else done (.error (.auth m status))
  | r => done r

/-- The operation goes on with the answers `a` of its calls, to its next call or its end. -/
def next (a : (c : BaoCall F) → BaoAnswer c) (s : TokenState F) : Phase F → TokenState F × Phase F
  | enter refused => if s.token.truthy then (s, check refused s) else (s, login refused)
  | check refused seen =>
    let now : ℚ := a .monotonic
    if 30 < seen.tokenExpiry - now then (s, leave refused (.ok seen.token)) else (s, login refused)
  | login refused => afterLogin refused s (Exchange.read (a (.request (loginRequest k))))
  | stamp refused lease =>
    let now : ℚ := a .monotonic
    match addSeconds now (if lease ≤ 0 then 3600 else lease) with
    | .error e => (s, leave refused (.error (.std e)))
    | .ok tokenExpiry => ({ s with tokenExpiry }, leave refused (.ok s.token))
  | leave _ (.error e) => (s, done (.error e))
  | leave refused (.ok token) => (s, request refused token)
  | request refused token =>
    let r := Exchange.read (a (.request (authedRequest k op token)))
    (s, if refused.isNone then afterRequest token r else done r)
  | drop refused => ({ s with token := .null }, dropped refused)
  | dropped refused => (s, enter (some refused))
  | done r => (s, done r)

/-! ### The phases as coroutines -/

/-- What `_do` does with the response to its first request. -/
def afterResponse : Except (BaoExc F) (Json F) → Bao F (Json F)
  | .error (.auth m status) =>
    if status = 403 then do
      Bao.withLock (Bao.lift (Coro.modify ({ · with token := .null })))
      let tok2 ← k.getToken
      k.doRaw op.method op.path tok2 op.body
    else throw (.auth m status)
  | r => Bao.ofExcept r

/-- What `_do` does with a token, its first one or the second. -/
def withToken (refused : Option (Json F)) (token : Json F) : Bao F (Json F) :=
  if refused.isNone then do
    let r ← Bao.lift (k.doRaw op.method op.path token op.body).run
    afterResponse k op r
  else k.doRaw op.method op.path token op.body

/-- The rest of an operation that holds the lock and has `x` left to do with it. -/
def locked (refused : Option (Json F)) (x : Bao F (Json F)) : Bao F (Json F) := do
  let token ← (do
    let r ← Bao.lift x.run
    Bao.lift (Coro.ask BaoCall.unlock)
    Bao.ofExcept r)
  withToken k op refused token

omit [PyNumbers F] in
/-- What `_login_locked` does when it has stored the token. -/
def storeExpiry (lease : ℤ) : Bao F (Json F) := do
  let now ← Bao.monotonic
  let expiry ← Bao.ofStd (addSeconds now (if lease ≤ 0 then 3600 else lease))
  Bao.lift (Coro.modify ({ · with tokenExpiry := expiry }))
  let s ← Bao.lift Coro.read
  pure s.token

/-- What `_login_locked` does with the response. -/
def storeLogin (resp : Json F) : Bao F (Json F) :=
  match OpenBaoKMS.loginFields resp with
  | .error .attributeError | .error .typeError => throw (.unavailable (.login resp) 0)
  | .error e => throw (.std e)
  | .ok (clientToken, lease) =>
    if clientToken.truthy = false then throw (.unavailable (.login resp) 0)
    else do
      Bao.lift (Coro.modify ({ · with token := clientToken }))
      storeExpiry lease

/-- What is left of an operation, the call that it waits for included. -/
def coro : Phase F → Bao F (Json F)
  | enter refused => k.getToken >>= withToken k op refused
  | check refused seen => locked k op refused do
    let now ← Bao.monotonic
    if 30 < seen.tokenExpiry - now then pure seen.token else k.loginLocked
  | login refused => locked k op refused k.loginLocked
  | stamp refused lease => locked k op refused (storeExpiry lease)
  | leave refused r => locked k op refused (Bao.ofExcept r)
  | request refused token => withToken k op refused token
  | drop refused => do
    Bao.withLock (Bao.lift (Coro.modify ({ · with token := .null })))
    k.getToken >>= withToken k op (some refused)
  | dropped refused => do
    Bao.lift (Coro.ask BaoCall.unlock)
    k.getToken >>= withToken k op (some refused)
  | done r => Bao.ofExcept r

/-- `_do` begins by waiting for the lock. -/
lemma coro_enter : k.doAuthed op.method op.path op.body = coro k op (enter none) := rfl

/-- **The phases are where `_do` stands**: it waits for the call of its phase, and with the answer it
runs to where the next phase stands. -/
theorem advance_coro {φ : Phase F} {c : BaoCall F} (hc : φ.call k op = some c)
    (a : (c : BaoCall F) → BaoAnswer c) (s : TokenState F) :
    ∃ rest, (φ.coro k op).run.advance s = (s, .waiting c rest) ∧
      (rest (a c)).advance s =
        Coro.advance ((φ.next k op a s).2.coro k op).run (φ.next k op a s).1 := by
  cases φ with
  | enter refused =>
    obtain rfl := Option.some.inj hc
    refine ⟨_, rfl, ?_⟩
    show Coro.advance (locked k op refused (if s.token.truthy then do
      let now ← Bao.monotonic
      if 30 < s.tokenExpiry - now then pure s.token else k.loginLocked else k.loginLocked)).run s = _
    rw [next]
    split_ifs with ht
    · rfl
    · rfl
  | check refused seen =>
    obtain rfl := Option.some.inj hc
    refine ⟨_, rfl, ?_⟩
    obtain ⟨now, hnow⟩ : ∃ now : ℚ, a .monotonic = now := ⟨_, rfl⟩
    rw [hnow, next]
    show Coro.advance (locked k op refused
      (if 30 < seen.tokenExpiry - now then pure seen.token else k.loginLocked)).run s = _
    rw [hnow]
    split_ifs with hlt
    · rfl
    · rfl
  | login refused =>
    obtain rfl := Option.some.inj hc
    refine ⟨_, rfl, ?_⟩
    obtain ⟨r, hr⟩ : ∃ r : Except (BaoExc F) (Json F),
      Exchange.read (a (.request (loginRequest k))) = r := ⟨_, rfl⟩
    show Coro.advance (locked k op refused
      (Bao.ofExcept (Exchange.read (a (.request (loginRequest k)))) >>= storeLogin)).run s = _
    rw [next, hr]
    cases r with
    | error e => rfl
    | ok resp =>
      show Coro.advance (locked k op refused (storeLogin resp)).run s = _
      rw [storeLogin, afterLogin]
      split
      · rfl
      · rfl
      · rfl
      · next token lease _ =>
        by_cases ht : token.truthy = false
        · rw [if_pos ht, if_pos ht]
          rfl
        · rw [if_neg ht, if_neg ht]
          rfl
  | stamp refused lease =>
    obtain rfl := Option.some.inj hc
    refine ⟨_, rfl, ?_⟩
    obtain ⟨now, hnow⟩ : ∃ now : ℚ, a .monotonic = now := ⟨_, rfl⟩
    rw [hnow, next]
    show Coro.advance (locked k op refused do
      let expiry ← Bao.ofStd (addSeconds now (if lease ≤ 0 then 3600 else lease))
      Bao.lift (Coro.modify ({ · with tokenExpiry := expiry }))
      let s ← Bao.lift Coro.read
      pure s.token).run s = _
    rw [hnow]
    cases addSeconds now (if lease ≤ 0 then 3600 else lease) with
    | error e => rfl
    | ok expiry => rfl
  | leave refused r =>
    obtain rfl := Option.some.inj hc
    refine ⟨_, rfl, ?_⟩
    cases r with
    | error e => rfl
    | ok token => rfl
  | request refused token =>
    obtain rfl := Option.some.inj hc
    cases refused with
    | some T => exact ⟨_, rfl, rfl⟩
    | none =>
      refine ⟨_, rfl, ?_⟩
      obtain ⟨r, hr⟩ : ∃ r : Except (BaoExc F) (Json F),
        Exchange.read (a (.request (authedRequest k op token))) = r := ⟨_, rfl⟩
      show Coro.advance
        (afterResponse k op (Exchange.read (a (.request (authedRequest k op token))))).run s = _
      rw [next, hr]
      show _ = Coro.advance ((afterRequest token r).coro k op).run s
      cases r with
      | ok v => rfl
      | error e =>
        cases e with
        | auth m status =>
          rw [afterResponse, afterRequest]
          by_cases h403 : status = 403
          · rw [if_pos h403, if_pos h403]
            rfl
          · rw [if_neg h403, if_neg h403]
            rfl
        | unavailable m status => rfl
        | crypto e => rfl
        | std e => rfl
  | drop refused =>
    obtain rfl := Option.some.inj hc
    exact ⟨_, rfl, rfl⟩
  | dropped refused =>
    obtain rfl := Option.some.inj hc
    exact ⟨_, rfl, rfl⟩
  | done r => cases hc

end Phase

/-! ## Operations and server -/

/-- An operation: its request, its phase and the tokens that it has sent, the latest first. -/
structure Running (F : Type) where
  op : Operation F
  phase : Phase F
  sent : List (Json F)

/-- The adapter, its operations and the server. -/
structure Bench (F : Type) where
  /-- `_token` and `_token_expiry`. -/
  kept : TokenState F
  /-- The operation that holds `_token_lock`. -/
  lock : Option ℕ
  running : Dict ℕ (Running F)
  /-- The tokens that the server has given out, the latest first. -/
  issued : List PyStr
  revoked : List PyStr
  /-- The tokens that `_get_token` has found to be good for thirty seconds at most, one for each time. -/
  lapsed : List (Json F)
  /-- For each token that was dropped, the token that the operation was refused with, and it. -/
  drops : List (PyStr × PyStr)

/-- What may happen next. -/
inductive Event (F : Type)
  /-- An operation begins. -/
  | start (i : ℕ) (op : Operation F)
  /-- The call that an operation waits for is answered, and it runs to its next call. -/
  | answer (i : ℕ) (a : (c : BaoCall F) → BaoAnswer c)
  /-- The server revokes a token. -/
  | revoke (t : PyStr)

namespace Running

omit [JsonRuntime F] [PyNumbers F]

/-- The drop that the operation makes when it gets the lock: the token that it was refused with, and
the token that it takes away. -/
def drop (x : Running F) (kept : TokenState F) : Option (PyStr × PyStr) :=
  match x.phase, kept.token with
  | .drop (.str refused), .str t => some (refused, t)
  | _, _ => none

/-- The token that the operation has found to be good for thirty seconds at most, when it went on to
the phase `φ`. -/
def lapse (x : Running F) (φ : Phase F) : Option (Json F) :=
  match x.phase, φ with
  | .check _ seen, .login _ => some seen.token
  | _, _ => none

lemma drop_eq_some {x : Running F} {kept : TokenState F} {d : PyStr × PyStr} :
    x.drop kept = some d ↔ x.phase = .drop (.str d.1) ∧ kept.token = .str d.2 := by
  obtain ⟨refused, t⟩ := d
  rw [drop]
  constructor
  · intro h
    split at h
    · next T t' hφ ht =>
      obtain ⟨rfl, rfl⟩ := Prod.mk.inj (Option.some.inj h)
      exact ⟨hφ, ht⟩
    · cases h
  · rintro ⟨hφ, ht⟩
    rw [hφ, ht]

/-- The operation goes on to a phase. -/
def goOn (x : Running F) (φ : Phase F) : Running F :=
  { x with phase := φ, sent := match φ with
    | .request _ token => token :: x.sent
    | _ => x.sent }

end Running

namespace Bench

variable (k : OpenBaoKMS)

/-- A server that gives out a new token for each login, answers 403 to a revoked token and accepts
every other request. -/
def serve (s : Bench F) (r : Request F) (ex : Exchange) : Option (Bench F) :=
  match r.token with
  | none => match (ex.read : Except (BaoExc F) (Json F)) with
    | .ok resp => match OpenBaoKMS.loginFields resp with
      | .ok (.str t, _) =>
        if t ≠ [] ∧ t ∉ s.issued then some { s with issued := t :: s.issued } else none
      | _ => none
    | .error _ => none
  | some (.str t) => match ex with
    | .response status _ =>
      if t ∈ s.revoked then if status = 403 then some s else none
      else if status < 400 then some s else none
    | _ => none
  | some _ => none

/-- The outside when it gives the answer `a` to a call of the operation `i`, if it may. -/
def outside (s : Bench F) (i : ℕ) (a : (c : BaoCall F) → BaoAnswer c) :
    BaoCall F → Option (Bench F)
  | .lock => if s.lock = none then some { s with lock := some i } else none
  | .unlock => if s.lock = some i then some { s with lock := none } else none
  | .monotonic => some s
  | .request r => s.serve r (a (.request r))

/-- The operation `i` goes on. -/
def goOn (s : Bench F) (i : ℕ) (x : Running F) (a : (c : BaoCall F) → BaoAnswer c) : Bench F :=
  let (kept, φ) := x.phase.next k x.op a s.kept
  { s with
    kept
    running := s.running.set i (x.goOn φ)
    lapsed := (x.lapse φ).toList ++ s.lapsed
    drops := (x.drop s.kept).toList ++ s.drops }

/-- One step. -/
def step (s : Bench F) : Event F → Option (Bench F)
  | .start i op =>
    if i ∈ s.running.keys then none
    else some { s with running := s.running.set i ⟨op, .enter none, []⟩ }
  | .answer i a => do
    let x ← s.running.get? i
    let c ← x.phase.call k x.op
    let s ← s.outside i a c
    pure (s.goOn k i x a)
  | .revoke t =>
    if t ∈ s.issued ∧ t ∉ s.revoked then some { s with revoked := t :: s.revoked } else none

/-- The adapter of a process, from its start. -/
def machine : Machine (Bench F) (Event F) where
  init s := s = ⟨.initial, none, .empty, [], [], [], []⟩
  step := step k

/-! ## One login -/

/-- **A rejected token costs one login**: an operation sends at most two requests, none drops a token
that is newer than the one it was refused with, every token that was given up had been revoked or was
about to expire, and so each login but the first belongs to a revocation or an expiry. -/
structure OneLogin (s : Bench F) : Prop where
  requests : ∀ i x, s.running.get? i = some x → x.sent.length ≤ 2
  keepsNewer : ∀ d ∈ s.drops, ¬ [d.2, d.1].Sublist s.issued
  spent : ∀ t ∈ s.issued, s.kept.token ≠ .str t → t ∈ s.revoked ∨ .str t ∈ s.lapsed
  logins : s.issued.length ≤ 1 + s.revoked.length + s.lapsed.length
  relogin : ∀ t, s.revoked = [t] → s.lapsed = [] → ∀ i x, s.running.get? i = some x →
    x.sent.length = 2 → s.issued.length = 2

/-- If an operation is about to drop the token, it is the one that it was refused with. -/
def Careful (s : Bench F) : Event F → Prop
  | .answer i _ => ∀ x ∈ s.running.get? i, ∀ d ∈ x.drop s.kept, d.1 = d.2
  | _ => True

end Bench

/-! ## The invariant -/

section Invariant

omit [JsonRuntime F] [PyNumbers F]

/-- The phases in which an operation holds the lock. -/
def Phase.holds : Phase F → Bool
  | check .. | login _ | stamp .. | leave .. | dropped _ => true
  | _ => false

namespace Bench

/-- The token was given out by the server. -/
def Known (s : Bench F) (token : Json F) : Prop := ∃ t ∈ s.issued, token = .str t

/-- What an operation that gets a token has behind it: nothing, or a request with a token that the
server has revoked and that is kept no more. -/
def Behind (s : Bench F) (sent : List (Json F)) : Option (Json F) → Prop
  | none => sent = []
  | some token => sent = [token] ∧ s.kept.token ≠ token ∧
      ∃ t ∈ s.issued, token = .str t ∧ t ∈ s.revoked

/-- What holds of an operation in its phase. -/
def PhaseOk (s : Bench F) (sent : List (Json F)) : Phase F → Prop
  | .enter refused => s.Behind sent refused
  | .check refused seen => s.Behind sent refused ∧ seen = s.kept ∧ s.kept.token ≠ .null
  | .login refused => s.Behind sent refused ∧ (s.kept.token = .null ∨ s.kept.token ∈ s.lapsed)
  | .stamp refused _ => s.Behind sent refused ∧ s.kept.token ≠ .null
  | .leave refused (.ok token) => s.Behind sent refused ∧ token = s.kept.token ∧ token ≠ .null
  | .leave refused (.error _) => s.Behind sent refused
  | .request none token => sent = [token]
  | .request (some refused) token => sent = [token, refused]
  | .drop refused => sent = [refused] ∧ ∃ t ∈ s.issued, refused = .str t ∧ t ∈ s.revoked
  | .dropped refused => s.Behind sent (some refused)
  | .done _ => True

/-- What holds of an operation. -/
structure OpOk (s : Bench F) (i : ℕ) (x : Running F) : Prop where
  holds : x.phase.holds = true → s.lock = some i
  known : ∀ token ∈ x.sent, s.Known token
  nodup : x.sent.Nodup
  length : x.sent.length ≤ 2
  phase : s.PhaseOk x.sent x.phase

/-- What holds of the tokens. -/
structure TokensOk (s : Bench F) : Prop where
  ne_nil : ∀ t ∈ s.issued, t ≠ []
  nodup : s.issued.Nodup
  kept : s.kept.token = .null ∨ ∃ t, s.issued.head? = some t ∧ s.kept.token = .str t
  drops : ∀ d ∈ s.drops, d.1 ∈ s.issued ∧ d.2 ∈ s.issued

/-- The invariant. -/
structure Inv (s : Bench F) : Prop where
  tokens : s.TokensOk
  ops : ∀ i x, s.running.get? i = some x → s.OpOk i x

/-- What the operation `i` sees of a step of another one: more tokens, and nothing of the token that
is kept while it holds the lock. -/
structure Frame (i : ℕ) (s s' : Bench F) : Prop where
  issued : s.issued ⊆ s'.issued
  revoked : s.revoked ⊆ s'.revoked
  lapsed : s.lapsed ⊆ s'.lapsed
  lock : s.lock = some i → s'.lock = some i ∧ s'.kept = s.kept
  kept : s'.kept.token = s.kept.token ∨ ∀ t ∈ s.issued, s'.kept.token ≠ .str t

variable {s s' : Bench F} {i : ℕ} {x : Running F}

lemma Behind.frame (h : Frame i s s') {sent : List (Json F)} {refused : Option (Json F)}
    (hb : s.Behind sent refused) : s'.Behind sent refused := by
  cases refused with
  | none => exact hb
  | some token =>
    obtain ⟨hsent, hne, t, ht, rfl, hrev⟩ := hb
    refine ⟨hsent, ?_, t, h.issued ht, rfl, h.revoked hrev⟩
    rcases h.kept with heq | hfresh
    · rwa [heq]
    · exact hfresh t ht

lemma OpOk.frame (h : Frame i s s') (hx : s.OpOk i x) : s'.OpOk i x := by
  refine ⟨fun hh => (h.lock (hx.holds hh)).1, ?_, hx.nodup, hx.length, ?_⟩
  · intro token htoken
    obtain ⟨t, ht, rfl⟩ := hx.known token htoken
    exact ⟨t, h.issued ht, rfl⟩
  · have hheld := fun hh => (h.lock (hx.holds hh)).2
    obtain ⟨op, φ, sent⟩ := x
    have hφ : s.PhaseOk sent φ := hx.phase
    show s'.PhaseOk sent φ
    cases φ with
    | enter refused => exact hφ.frame h
    | check refused seen =>
      obtain ⟨hb, hseen, hne⟩ := hφ
      have heq := hheld rfl
      exact ⟨hb.frame h, by rw [heq, hseen], by rwa [heq]⟩
    | login refused =>
      obtain ⟨hb, hor⟩ := hφ
      have heq := hheld rfl
      refine ⟨hb.frame h, ?_⟩
      rw [heq]
      exact hor.imp id fun hl => h.lapsed hl
    | stamp refused lease =>
      obtain ⟨hb, hne⟩ := hφ
      have heq := hheld rfl
      exact ⟨hb.frame h, by rwa [heq]⟩
    | leave refused r =>
      cases r with
      | error e => exact Behind.frame h hφ
      | ok token =>
        obtain ⟨hb, hkept, hne⟩ := hφ
        have heq := hheld rfl
        exact ⟨hb.frame h, by rw [heq, hkept], hne⟩
    | request refused token => cases refused <;> exact hφ
    | drop refused =>
      obtain ⟨hsent, t, ht, rfl, hrev⟩ := hφ
      exact ⟨hsent, t, h.issued ht, rfl, h.revoked hrev⟩
    | dropped refused =>
      have hb : s.Behind sent (some refused) := hφ
      exact hb.frame h
    | done r => trivial

/-- The other operations stay as they are when one goes on. -/
lemma Inv.goOn (h : s.Inv) (htokens : s'.TokensOk)
    (hrun : s'.running = s.running.set i x) (hframe : ∀ j, j ≠ i → Frame j s s')
    (hx : s'.OpOk i x) : s'.Inv := by
  refine ⟨htokens, fun j y hy => ?_⟩
  rw [hrun, Dict.get?_set] at hy
  split_ifs at hy with hj
  · obtain rfl := Option.some.inj hy
    exact hj ▸ hx
  · exact (h.ops j y hy).frame (hframe j hj)

/-- What an operation does when it goes on, one constructor for each thing that can happen. -/
inductive Move (s : Bench F) (i : ℕ) : Running F → Bench F → Prop
  | seen {op refused sent} (hlock : s.lock = none) (ht : s.kept.token ≠ .null) :
      Move s i ⟨op, .enter refused, sent⟩
        { s with lock := some i, running := s.running.set i ⟨op, .check refused s.kept, sent⟩ }
  | unseen {op refused sent} (hlock : s.lock = none) (ht : s.kept.token = .null) :
      Move s i ⟨op, .enter refused, sent⟩
        { s with lock := some i, running := s.running.set i ⟨op, .login refused, sent⟩ }
  | fresh {op refused seen sent} : Move s i ⟨op, .check refused seen, sent⟩
      { s with running := s.running.set i ⟨op, .leave refused (.ok seen.token), sent⟩ }
  | lapsed {op refused seen sent} : Move s i ⟨op, .check refused seen, sent⟩
      { s with running := s.running.set i ⟨op, .login refused, sent⟩,
               lapsed := seen.token :: s.lapsed }
  | login {op refused sent t lease} (ht : t ≠ []) (hnew : t ∉ s.issued) :
      Move s i ⟨op, .login refused, sent⟩
        { s with kept := ⟨.str t, s.kept.tokenExpiry⟩, issued := t :: s.issued,
                 running := s.running.set i ⟨op, .stamp refused lease, sent⟩ }
  | stamp {op refused lease sent tokenExpiry} : Move s i ⟨op, .stamp refused lease, sent⟩
      { s with kept := ⟨s.kept.token, tokenExpiry⟩,
               running := s.running.set i ⟨op, .leave refused (.ok s.kept.token), sent⟩ }
  | overflow {op refused lease sent e} : Move s i ⟨op, .stamp refused lease, sent⟩
      { s with running := s.running.set i ⟨op, .leave refused (.error e), sent⟩ }
  | send {op refused token sent} (hlock : s.lock = some i) :
      Move s i ⟨op, .leave refused (.ok token), sent⟩
        { s with lock := none,
                 running := s.running.set i ⟨op, .request refused token, token :: sent⟩ }
  | raise {op refused e sent} (hlock : s.lock = some i) :
      Move s i ⟨op, .leave refused (.error e), sent⟩
        { s with lock := none, running := s.running.set i ⟨op, .done (.error e), sent⟩ }
  | refused {op t sent} (ht : t ∈ s.revoked) : Move s i ⟨op, .request none (.str t), sent⟩
      { s with running := s.running.set i ⟨op, .drop (.str t), sent⟩ }
  | finish {op refused token r sent} : Move s i ⟨op, .request refused token, sent⟩
      { s with running := s.running.set i ⟨op, .done r, sent⟩ }
  | drop {op refused sent} (hlock : s.lock = none) : Move s i ⟨op, .drop refused, sent⟩
      { s with kept := ⟨.null, s.kept.tokenExpiry⟩, lock := some i,
               running := s.running.set i ⟨op, .dropped refused, sent⟩,
               drops := (Running.drop ⟨op, .drop refused, sent⟩ s.kept).toList ++ s.drops }
  | dropped {op refused sent} (hlock : s.lock = some i) : Move s i ⟨op, .dropped refused, sent⟩
      { s with lock := none, running := s.running.set i ⟨op, .enter (some refused), sent⟩ }

end Bench

end Invariant

namespace Bench

variable {k : OpenBaoKMS} {s s' : Bench F} {i : ℕ}

omit [JsonRuntime F] in
lemma TokensOk.truthy (h : s.TokensOk) : s.kept.token.truthy = true ↔ s.kept.token ≠ .null := by
  rcases h.kept with hnull | ⟨t, ht, hstr⟩
  · simp [hnull, Json.truthy]
  · have hne := h.ne_nil t (List.mem_of_mem_head? ht)
    simp [hstr, Json.truthy, hne]

/-- What a login that the server accepts brings. -/
lemma serve_login {ex : Exchange} (h : s.serve (Phase.loginRequest k) ex = some s') :
    ∃ resp t lease, (ex.read : Except (BaoExc F) (Json F)) = .ok resp ∧
      OpenBaoKMS.loginFields resp = .ok (.str t, lease) ∧ t ≠ [] ∧ t ∉ s.issued ∧
      s' = { s with issued := t :: s.issued } := by
  simp only [serve, Phase.loginRequest] at h
  split at h
  · next resp hresp =>
    split at h
    · next t lease hfields =>
      split_ifs at h with ht
      exact ⟨resp, t, lease, hresp, hfields, ht.1, ht.2, (Option.some.inj h).symm⟩
    · cases h
  · cases h

/-- How the server answers a request with a token. -/
lemma serve_authed {op : Operation F} {t : PyStr} (ht : t ≠ []) {ex : Exchange}
    (h : s.serve (Phase.authedRequest k op (.str t)) ex = some s') :
    s' = s ∧ ∃ status content, ex = .response status content ∧
      (t ∈ s.revoked ∧ status = 403 ∨ status < 400) := by
  have htruthy : (Json.str t : Json F).truthy = true := by simp [Json.truthy, ht]
  simp only [serve, Phase.authedRequest, htruthy, if_true] at h
  split at h
  · next status content =>
    split_ifs at h with hrev h403 hok
    · exact ⟨(Option.some.inj h).symm, status, content, rfl, Or.inl ⟨hrev, h403⟩⟩
    · exact ⟨(Option.some.inj h).symm, status, content, rfl, Or.inr hok⟩
  · cases h

omit [PyNumbers F] in
/-- A response that is no error ends the operation. -/
lemma afterRequest_of_lt {status : ℕ} (h : status < 400) (content : Bytes) (token : Json F) :
    ∃ r, Phase.afterRequest token (Exchange.response status content).read = .done r := by
  have h500 : ¬ 500 ≤ status := by omega
  have h400 : ¬ 400 ≤ status := by omega
  simp only [Exchange.read, if_neg h500, if_neg h400]
  split_ifs
  · exact ⟨_, rfl⟩
  · split
    · exact ⟨_, rfl⟩
    · split_ifs
      · exact ⟨_, rfl⟩
      · exact ⟨_, rfl⟩

/-- The steps of an operation. -/
lemma move_of_answer (h : s.Inv) {a : (c : BaoCall F) → BaoAnswer c}
    (hs : (machine k).step s (.answer i a) = some s') :
    ∃ x, s.running.get? i = some x ∧ Move s i x s' := by
  simp only [machine, step, Option.bind_eq_bind, Option.bind_eq_some_iff, Option.pure_def,
    Option.some.injEq] at hs
  obtain ⟨x, hx, c, hc, s₁, hout, rfl⟩ := hs
  refine ⟨x, hx, ?_⟩
  have hok := h.ops i x hx
  obtain ⟨op, φ, sent⟩ := x
  cases φ with
  | enter refused =>
    obtain rfl := Option.some.inj hc
    simp only [outside, Option.ite_none_right_eq_some, Option.some.injEq] at hout
    obtain ⟨hlock, rfl⟩ := hout
    by_cases ht : s.kept.token.truthy = true
    · simp only [goOn, Phase.next, if_pos ht]
      exact .seen hlock (h.tokens.truthy.mp ht)
    · simp only [goOn, Phase.next, if_neg ht]
      exact .unseen hlock (not_not.mp fun hne => ht (h.tokens.truthy.mpr hne))
  | check refused seen =>
    obtain rfl := Option.some.inj hc
    obtain rfl := Option.some.inj hout
    simp only [goOn, Phase.next]
    split_ifs with hnow
    · exact .fresh
    · exact .lapsed
  | login refused =>
    obtain rfl := Option.some.inj hc
    obtain ⟨resp, t, lease, hread, hfields, ht, hnew, rfl⟩ := serve_login (k := k) hout
    have htruthy : ¬ (Json.str t : Json F).truthy = false := by simp [Json.truthy, ht]
    simp only [goOn, Phase.next, hread, Phase.afterLogin, hfields, if_neg htruthy]
    exact .login ht hnew
  | stamp refused lease =>
    obtain rfl := Option.some.inj hc
    obtain rfl := Option.some.inj hout
    simp only [goOn, Phase.next]
    cases addSeconds (a .monotonic) (if lease ≤ 0 then 3600 else lease) with
    | error e => exact .overflow
    | ok tokenExpiry => exact .stamp
  | leave refused r =>
    obtain rfl := Option.some.inj hc
    simp only [outside, Option.ite_none_right_eq_some, Option.some.injEq] at hout
    obtain ⟨hlock, rfl⟩ := hout
    cases r with
    | ok token => exact .send hlock
    | error e => exact .raise hlock
  | request refused token =>
    obtain rfl := Option.some.inj hc
    have hmem : token ∈ sent := by
      have hphase : s.PhaseOk sent (.request refused token) := hok.phase
      cases refused with
      | none =>
        obtain rfl : sent = [token] := hphase
        exact List.mem_cons_self
      | some T =>
        obtain rfl : sent = [token, T] := hphase
        exact List.mem_cons_self
    obtain ⟨t, ht, rfl⟩ := hok.known token hmem
    obtain ⟨rfl, status, content, hex, hor⟩ :=
      serve_authed (k := k) (h.tokens.ne_nil t ht) hout
    cases refused with
    | some T => exact .finish
    | none =>
      rcases hor with ⟨hrev, rfl⟩ | hlt
      · have hnext : (s₁.goOn k i ⟨op, .request none (.str t), sent⟩ a) =
          { s₁ with running := s₁.running.set i ⟨op, .drop (.str t), sent⟩ } := by
          simp only [goOn, Phase.next, hex]
          rfl
        rw [hnext]
        exact .refused hrev
      · obtain ⟨r, hr⟩ := afterRequest_of_lt hlt content (.str t : Json F)
        simp only [goOn, Phase.next, hex, Option.isNone_none, if_true, hr]
        exact .finish
  | drop refused =>
    obtain rfl := Option.some.inj hc
    simp only [outside, Option.ite_none_right_eq_some, Option.some.injEq] at hout
    obtain ⟨hlock, rfl⟩ := hout
    exact .drop hlock
  | dropped refused =>
    obtain rfl := Option.some.inj hc
    simp only [outside, Option.ite_none_right_eq_some, Option.some.injEq] at hout
    obtain ⟨hlock, rfl⟩ := hout
    exact .dropped hlock
  | done r => cases hc

section Steps

omit [JsonRuntime F] [PyNumbers F]

variable {x : Running F}

/-- A step that does not touch the token that is kept. -/
lemma frame_of_kept (hkept : s'.kept = s.kept) (hissued : s'.issued = s.issued)
    (hrevoked : s'.revoked = s.revoked) (hlapsed : s.lapsed ⊆ s'.lapsed)
    (hlock : s.lock = none ∨ s.lock = some i ∨ s'.lock = s.lock) :
    ∀ j, j ≠ i → Frame j s s' := by
  refine fun j hj => ⟨by rw [hissued]; exact List.Subset.refl _,
    by rw [hrevoked]; exact List.Subset.refl _, hlapsed, fun h => ⟨?_, hkept⟩, Or.inl (by rw [hkept])⟩
  rcases hlock with hnone | hi | hsame
  · rw [hnone] at h
    cases h
  · rw [hi] at h
    exact absurd (Option.some.inj h).symm hj
  · rw [hsame, h]

/-- The tokens are the same. -/
lemma TokensOk.congr (h : s.TokensOk) (hkept : s'.kept = s.kept) (hissued : s'.issued = s.issued)
    (hdrops : s'.drops = s.drops) : s'.TokensOk := by
  refine ⟨?_, ?_, ?_, ?_⟩
  · rw [hissued]
    exact h.ne_nil
  · rw [hissued]
    exact h.nodup
  · rw [hkept, hissued]
    exact h.kept
  · rw [hdrops, hissued]
    exact h.drops

/-- An operation goes on and leaves the tokens as they are. -/
lemma Inv.keep (h : s.Inv) (hrun : s'.running = s.running.set i x) (hkept : s'.kept = s.kept)
    (hissued : s'.issued = s.issued) (hrevoked : s'.revoked = s.revoked)
    (hdrops : s'.drops = s.drops) (hlapsed : s.lapsed ⊆ s'.lapsed)
    (hlock : s.lock = none ∨ s.lock = some i ∨ s'.lock = s.lock) (hx : s'.OpOk i x) : s'.Inv :=
  h.goOn (h.tokens.congr hkept hissued hdrops) hrun
    (frame_of_kept hkept hissued hrevoked hlapsed hlock) hx

/-- An operation keeps the invariant. -/
lemma Inv.move (h : s.Inv) (hx : s.running.get? i = some x) (hm : Move s i x s') : s'.Inv := by
  have hok := h.ops i x hx
  have htok := h.tokens
  cases hm with
  | @seen op refused sent hlock ht =>
    have hφ : s.Behind sent refused := hok.phase
    refine h.keep rfl rfl rfl rfl rfl (List.Subset.refl _) (Or.inl hlock) ?_
    exact ⟨fun _ => rfl, hok.known, hok.nodup, hok.length, hφ, rfl, ht⟩
  | @unseen op refused sent hlock ht =>
    have hφ : s.Behind sent refused := hok.phase
    refine h.keep rfl rfl rfl rfl rfl (List.Subset.refl _) (Or.inl hlock) ?_
    exact ⟨fun _ => rfl, hok.known, hok.nodup, hok.length, hφ, Or.inl ht⟩
  | @fresh op refused seen sent =>
    obtain ⟨hφ, rfl, hne⟩ : s.Behind sent refused ∧ seen = s.kept ∧ s.kept.token ≠ .null := hok.phase
    have hlock := hok.holds rfl
    refine h.keep rfl rfl rfl rfl rfl (List.Subset.refl _) (Or.inr (Or.inl hlock)) ?_
    exact ⟨fun _ => hlock, hok.known, hok.nodup, hok.length, hφ, rfl, hne⟩
  | @lapsed op refused seen sent =>
    obtain ⟨hφ, rfl, hne⟩ : s.Behind sent refused ∧ seen = s.kept ∧ s.kept.token ≠ .null := hok.phase
    have hlock := hok.holds rfl
    refine h.keep rfl rfl rfl rfl rfl (List.subset_cons_self _ _) (Or.inr (Or.inl hlock)) ?_
    exact ⟨fun _ => hlock, hok.known, hok.nodup, hok.length, hφ, Or.inr List.mem_cons_self⟩
  | @login op refused sent t lease ht hnew =>
    have hφ : s.Behind sent refused := hok.phase.1
    have hlock := hok.holds rfl
    have hfresh : ∀ t' ∈ s.issued, (Json.str t : Json F) ≠ .str t' := by
      rintro t' ht' heq
      exact hnew (Json.str.inj heq ▸ ht')
    have hframe : ∀ j, j ≠ i → Frame j s { s with
        kept := ⟨.str t, s.kept.tokenExpiry⟩, issued := t :: s.issued,
        running := s.running.set i ⟨op, .stamp refused lease, sent⟩ } := by
      refine fun j hj => ⟨List.subset_cons_self _ _, List.Subset.refl _, List.Subset.refl _,
        fun h => ?_, Or.inr hfresh⟩
      rw [hlock] at h
      exact absurd (Option.some.inj h).symm hj
    refine h.goOn ?_ rfl hframe ?_
    · refine ⟨?_, List.nodup_cons.mpr ⟨hnew, htok.nodup⟩, Or.inr ⟨t, rfl, rfl⟩, ?_⟩
      · exact List.forall_mem_cons.mpr ⟨ht, htok.ne_nil⟩
      · intro d hd
        obtain ⟨h₁, h₂⟩ := htok.drops d hd
        exact ⟨List.mem_cons_of_mem _ h₁, List.mem_cons_of_mem _ h₂⟩
    · refine ⟨fun _ => hlock, ?_, hok.nodup, hok.length, ?_, by rintro ⟨⟩⟩
      · intro token htoken
        obtain ⟨t', ht', rfl⟩ := hok.known token htoken
        exact ⟨t', List.mem_cons_of_mem _ ht', rfl⟩
      · cases refused with
        | none => exact hφ
        | some token =>
          obtain ⟨hsent, -, t', ht', rfl, hrev⟩ := hφ
          exact ⟨hsent, hfresh t' ht', t', List.mem_cons_of_mem _ ht', rfl, hrev⟩
  | @stamp op refused lease sent tokenExpiry =>
    obtain ⟨hφ, hne⟩ : s.Behind sent refused ∧ s.kept.token ≠ .null := hok.phase
    have hlock := hok.holds rfl
    refine h.goOn ⟨htok.1, htok.2, htok.3, htok.4⟩ rfl (fun j hj => ?_) ?_
    · refine ⟨List.Subset.refl _, List.Subset.refl _, List.Subset.refl _, fun h => ?_, Or.inl rfl⟩
      rw [hlock] at h
      exact absurd (Option.some.inj h).symm hj
    · exact ⟨fun _ => hlock, hok.known, hok.nodup, hok.length, hφ, rfl, hne⟩
  | @overflow op refused lease sent e =>
    obtain ⟨hφ, -⟩ : s.Behind sent refused ∧ s.kept.token ≠ .null := hok.phase
    have hlock := hok.holds rfl
    refine h.keep rfl rfl rfl rfl rfl (List.Subset.refl _) (Or.inr (Or.inl hlock)) ?_
    exact ⟨fun _ => hlock, hok.known, hok.nodup, hok.length, hφ⟩
  | @send op refused token sent hlock =>
    obtain ⟨hφ, hkept, hne⟩ : s.Behind sent refused ∧ token = s.kept.token ∧ token ≠ .null :=
      hok.phase
    -- the token is the latest one, and not the one that the operation was refused with
    obtain ⟨t, ht, hstr⟩ := htok.kept.resolve_left (hkept ▸ hne)
    have hknown : s.Known token := ⟨t, List.mem_of_mem_head? ht, hkept.trans hstr⟩
    refine h.keep rfl rfl rfl rfl rfl (List.Subset.refl _) (Or.inr (Or.inl hlock)) ?_
    cases refused with
    | none =>
      obtain rfl : sent = [] := hφ
      refine ⟨by rintro ⟨⟩, ?_, List.nodup_singleton _, by simp, rfl⟩
      exact fun token' htoken' => List.mem_singleton.mp htoken' ▸ hknown
    | some T =>
      obtain ⟨rfl, hne', -⟩ := hφ
      refine ⟨by rintro ⟨⟩, ?_, ?_, by simp, rfl⟩
      · exact List.forall_mem_cons.mpr ⟨hknown, hok.known⟩
      · refine List.nodup_cons.mpr ⟨fun hmem => ?_, List.nodup_singleton _⟩
        exact hne' (hkept.symm.trans (List.mem_singleton.mp hmem))
  | @raise op refused e sent hlock =>
    refine h.keep rfl rfl rfl rfl rfl (List.Subset.refl _) (Or.inr (Or.inl hlock)) ?_
    exact ⟨by rintro ⟨⟩, hok.known, hok.nodup, hok.length, trivial⟩
  | @refused op t sent ht =>
    obtain rfl : sent = [.str t] := hok.phase
    obtain ⟨t', ht', heq⟩ := hok.known _ List.mem_cons_self
    obtain rfl := Json.str.inj heq
    refine h.keep rfl rfl rfl rfl rfl (List.Subset.refl _) (Or.inr (Or.inr rfl)) ?_
    exact ⟨by rintro ⟨⟩, hok.known, hok.nodup, hok.length, rfl, t, ht', rfl, ht⟩
  | @finish op refused token r sent =>
    refine h.keep rfl rfl rfl rfl rfl (List.Subset.refl _) (Or.inr (Or.inr rfl)) ?_
    exact ⟨by rintro ⟨⟩, hok.known, hok.nodup, hok.length, trivial⟩
  | @drop op refused sent hlock =>
    obtain ⟨hsent, t, ht, rfl, hrev⟩ : sent = [refused] ∧
      ∃ t ∈ s.issued, refused = .str t ∧ t ∈ s.revoked := hok.phase
    refine h.goOn ?_ rfl (fun j hj => ?_) ?_
    · refine ⟨htok.ne_nil, htok.nodup, Or.inl rfl, fun d hd => ?_⟩
      rcases List.mem_append.mp hd with hd | hd
      · obtain ⟨hφ, hkept⟩ := Running.drop_eq_some.mp (Option.mem_toList.mp hd)
        obtain rfl : t = d.1 := Json.str.inj (Phase.drop.inj hφ)
        obtain ⟨t', ht', hstr⟩ := htok.kept.resolve_left (by rw [hkept]; rintro ⟨⟩)
        obtain rfl : d.2 = t' := Json.str.inj (hkept.symm.trans hstr)
        exact ⟨ht, List.mem_of_mem_head? ht'⟩
      · exact htok.drops d hd
    · refine ⟨List.Subset.refl _, List.Subset.refl _, List.Subset.refl _, fun h => ?_, Or.inr ?_⟩
      · rw [hlock] at h
        cases h
      · rintro t' - ⟨⟩
    · exact ⟨fun _ => rfl, hok.known, hok.nodup, hok.length, hsent, by rintro ⟨⟩, t, ht, rfl, hrev⟩
  | @dropped op refused sent hlock =>
    have hφ : s.Behind sent (some refused) := hok.phase
    refine h.keep rfl rfl rfl rfl rfl (List.Subset.refl _) (Or.inr (Or.inl hlock)) ?_
    exact ⟨by rintro ⟨⟩, hok.known, hok.nodup, hok.length, hφ⟩

/-! ## One login for each revocation -/

/-- No drop has taken away a token newer than the one that was refused. -/
def KeepsNewer (s : Bench F) : Prop := ∀ d ∈ s.drops, ¬ [d.2, d.1].Sublist s.issued

/-- Every token that was given up had been revoked or was about to expire. -/
def Spent (s : Bench F) : Prop :=
  ∀ t ∈ s.issued, s.kept.token ≠ .str t → t ∈ s.revoked ∨ .str t ∈ s.lapsed

/-- The number of logins. -/
lemma Spent.logins (hs : s.Spent) (h : s.TokensOk) :
    s.issued.length ≤ 1 + s.revoked.length + s.lapsed.length := by
  have hnodup : (s.issued.map (Json.str : PyStr → Json F)).Nodup :=
    h.nodup.map fun _ _ heq => Json.str.inj heq
  have hsub : s.issued.map (Json.str : PyStr → Json F) ⊆
      s.kept.token :: (s.revoked.map Json.str ++ s.lapsed) := by
    intro token htoken
    obtain ⟨t, ht, rfl⟩ := List.mem_map.mp htoken
    by_cases hkept : s.kept.token = .str t
    · rw [hkept]
      exact List.mem_cons_self
    · refine List.mem_cons_of_mem _ (List.mem_append.mpr ?_)
      exact (hs t ht hkept).imp_left (List.mem_map_of_mem (f := Json.str))
  have hle := (hnodup.subperm hsub).length_le
  simp only [List.length_map, List.length_cons, List.length_append] at hle
  omega

/-- What the two properties of the drops amount to. -/
lemma oneLogin_of (h : s.Inv) (hk : s.KeepsNewer) (hs : s.Spent) : s.OneLogin := by
  refine ⟨fun i x hx => (h.ops i x hx).length, hk, hs, hs.logins h.tokens, ?_⟩
  intro t hrev hlapsed i x hx htwo
  have hle := hs.logins h.tokens
  rw [hrev, hlapsed] at hle
  -- the two tokens of the operation differ
  have hok := h.ops i x hx
  have hsub : x.sent ⊆ s.issued.map Json.str := by
    intro token htoken
    obtain ⟨t', ht', rfl⟩ := hok.known token htoken
    exact List.mem_map_of_mem ht'
  have hge := (hok.nodup.subperm hsub).length_le
  simp only [List.length_map, List.length_cons, List.length_nil] at hge hle
  omega

/-- A step of an operation that is careful gives up no token that is still good. -/
lemma Spent.move (hs : s.Spent) (h : s.Inv) (hx : s.running.get? i = some x) (hm : Move s i x s')
    (hc : ∀ d ∈ x.drop s.kept, d.1 = d.2) : s'.Spent := by
  have hok := h.ops i x hx
  cases hm with
  | @lapsed op refused seen sent =>
    intro t ht hne
    exact (hs t ht hne).imp id (List.mem_cons_of_mem _)
  | @login op refused sent t lease ht hnew =>
    intro t' ht' hne
    rcases List.mem_cons.mp ht' with rfl | ht'
    · exact absurd rfl hne
    · by_cases hkept : s.kept.token = .str t'
      · have hor : s.kept.token = .null ∨ s.kept.token ∈ s.lapsed := hok.phase.2
        rw [hkept] at hor
        exact Or.inr (hor.resolve_left (by rintro ⟨⟩))
      · exact hs t' ht' hkept
  | @drop op refused sent hlock =>
    intro t ht _
    by_cases hkept : s.kept.token = .str t
    · -- the token that is dropped is the one that was refused
      obtain ⟨-, T, -, rfl, hrev⟩ : sent = [refused] ∧
        ∃ t ∈ s.issued, refused = .str t ∧ t ∈ s.revoked := hok.phase
      obtain rfl : T = t := hc (T, t) (Running.drop_eq_some.mpr ⟨rfl, hkept⟩)
      exact Or.inl hrev
    · exact hs t ht hkept
  | _ => exact hs

/-- A step of an operation drops no newer token exactly if it is careful. -/
lemma keepsNewer_move (hk : s.KeepsNewer) (h : s.Inv) (hx : s.running.get? i = some x)
    (hm : Move s i x s') : s'.KeepsNewer ↔ ∀ d ∈ x.drop s.kept, d.1 = d.2 := by
  have hok := h.ops i x hx
  cases hm with
  | @login op refused sent t lease ht hnew =>
    refine iff_of_true (fun d hd hsub => hk d hd ?_) (by rintro d ⟨⟩)
    have hne : d.2 ≠ t := by
      rintro rfl
      exact hnew (h.tokens.drops d hd).2
    rcases List.sublist_cons_iff.mp hsub with hsub | ⟨rest, heq, -⟩
    · exact hsub
    · exact absurd (List.cons.inj heq).1 hne
  | @drop op refused sent hlock =>
    constructor
    · intro hk' d hd
      by_contra hne
      refine hk' d (List.mem_append_left _ (Option.mem_toList.mpr hd)) ?_
      obtain ⟨hφ, hkept⟩ := Running.drop_eq_some.mp hd
      obtain ⟨t, ht, hstr⟩ := h.tokens.kept.resolve_left (by rw [hkept]; rintro ⟨⟩)
      obtain rfl : d.2 = t := Json.str.inj (hkept.symm.trans hstr)
      obtain ⟨-, T, hT, heq, -⟩ : sent = [refused] ∧
        ∃ t ∈ s.issued, refused = .str t ∧ t ∈ s.revoked := hok.phase
      obtain rfl : d.1 = T := Json.str.inj ((Phase.drop.inj hφ).symm.trans heq)
      -- the token that is kept is the latest one
      obtain ⟨rest, hrest⟩ := List.head?_eq_some_iff.mp ht
      show [d.2, d.1].Sublist s.issued
      rw [hrest] at hT ⊢
      exact (List.singleton_sublist.mpr ((List.mem_cons.mp hT).resolve_left hne)).cons_cons _
    · intro hc d hd hsub
      rcases List.mem_append.mp hd with hd | hd
      · have heq := hc d (Option.mem_toList.mp hd)
        rw [heq] at hsub
        have hnodup := hsub.nodup h.tokens.nodup
        simp at hnodup
      · exact hk d hd hsub
  | _ => exact iff_of_true hk (by rintro d ⟨⟩)

end Steps

/-- The start of an operation and a revocation are nobody's move. -/
lemma quiet_of_step {e : Event F} (hs : (machine k).step s e = some s') :
    (∃ i a, e = .answer i a) ∨ Careful s e ∧ s'.kept = s.kept ∧ s'.lock = s.lock ∧
      s'.issued = s.issued ∧ s.revoked ⊆ s'.revoked ∧ s'.lapsed = s.lapsed ∧ s'.drops = s.drops ∧
      ∀ i x, s'.running.get? i = some x →
        s.running.get? i = some x ∨ ∃ op, x = ⟨op, .enter none, []⟩ := by
  cases e with
  | start i op =>
    simp only [machine, step] at hs
    split_ifs at hs with hi
    obtain rfl := Option.some.inj hs
    refine Or.inr ⟨trivial, rfl, rfl, rfl, List.Subset.refl _, rfl, rfl, fun j x hx => ?_⟩
    rw [Dict.get?_set] at hx
    split_ifs at hx with hj
    · exact Or.inr ⟨op, (Option.some.inj hx).symm⟩
    · exact Or.inl hx
  | answer i a => exact Or.inl ⟨i, a, rfl⟩
  | revoke t =>
    simp only [machine, step] at hs
    split_ifs at hs with ht
    obtain rfl := Option.some.inj hs
    exact Or.inr ⟨trivial, rfl, rfl, rfl, List.subset_cons_self _ _, rfl, rfl,
      fun j x hx => Or.inl hx⟩

lemma Inv.step (h : s.Inv) {e : Event F} (hs : (machine k).step s e = some s') : s'.Inv := by
  rcases quiet_of_step hs with ⟨i, a, rfl⟩ |
    ⟨-, hkept, hlock, hissued, hrevoked, hlapsed, hdrops, hrun⟩
  · obtain ⟨x, hx, hm⟩ := move_of_answer h hs
    exact h.move hx hm
  · refine ⟨h.tokens.congr hkept hissued hdrops, fun i x hx => ?_⟩
    rcases hrun i x hx with hx | ⟨op, rfl⟩
    · refine (h.ops i x hx).frame ⟨?_, hrevoked, ?_, fun hi => ⟨?_, hkept⟩, Or.inl ?_⟩
      · rw [hissued]
        exact List.Subset.refl _
      · rw [hlapsed]
        exact List.Subset.refl _
      · rw [hlock, hi]
      · rw [hkept]
    · exact ⟨by rintro ⟨⟩, by simp, List.nodup_nil, by simp, rfl⟩

lemma inv_init (hi : (machine k).init s) : s.Inv := by
  obtain rfl : s = ⟨.initial, none, .empty, [], [], [], []⟩ := hi
  exact ⟨⟨by simp, List.nodup_nil, Or.inl rfl, by simp⟩, by simp⟩

/-- A step of the adapter keeps the one login for each revocation exactly if it is careful. -/
lemma oneLogin_step (h : s.Inv) (ho : s.OneLogin) {e : Event F}
    (hs : (machine k).step s e = some s') : s'.OneLogin ↔ Careful s e := by
  have h' := h.step hs
  rcases quiet_of_step hs with ⟨i, a, rfl⟩ |
    ⟨hcareful, hkept, -, hissued, hrevoked, hlapsed, hdrops, -⟩
  · obtain ⟨x, hx, hm⟩ := move_of_answer h hs
    have hiff := keepsNewer_move ho.keepsNewer h hx hm
    have hcareful : Careful s (.answer i a) ↔ ∀ d ∈ x.drop s.kept, d.1 = d.2 := by
      simp only [Careful, hx, Option.mem_some_iff, forall_eq']
    rw [hcareful]
    constructor
    · intro ho'
      exact hiff.mp ho'.keepsNewer
    · intro hc
      exact oneLogin_of h' (hiff.mpr hc) (Spent.move ho.spent h hx hm hc)
  · refine iff_of_true (oneLogin_of h' ?_ ?_) hcareful
    · intro d hd
      rw [hissued]
      exact ho.keepsNewer d (hdrops ▸ hd)
    · intro t ht hne
      rw [hkept] at hne
      rw [hlapsed]
      exact (ho.spent t (hissued ▸ ht) hne).imp_left fun hr => hrevoked hr

/-- **In a run a rejected token costs one login exactly if every operation that drops a token drops
the one that it was refused with.** -/
theorem oneLogin_iff_careful {es : List (Event F)} (hi : (machine k).init s)
    (hr : (machine k).run s es = some s') :
    (machine k).Throughout OneLogin s es ↔ (machine k).Along Careful s es := by
  refine Machine.throughout_iff_along ?_ ?_ hi hr
  · intro s hi
    refine oneLogin_of (inv_init hi) ?_ ?_
    · obtain rfl : s = ⟨.initial, none, .empty, [], [], [], []⟩ := hi
      intro d hd
      cases hd
    · obtain rfl : s = ⟨.initial, none, .empty, [], [], [], []⟩ := hi
      intro t ht
      cases ht
  · intro s e t hreach ho hs
    have hinv : s.Inv :=
      Machine.Reachable.invariant (fun _ => inv_init) (fun _ _ _ h hs => h.step hs) hreach.reachable
    exact oneLogin_step hinv ho hs

/-! ## Two operations and one revocation -/

section Example

omit [JsonRuntime F] [PyNumbers F] in
instance (s : Bench F) : (e : Event F) → Decidable (Careful s e)
  | .start _ _ | .revoke _ => .isTrue trivial
  | .answer i _ => inferInstanceAs (Decidable (∀ x ∈ s.running.get? i, ∀ d ∈ x.drop s.kept, d.1 = d.2))

/-- A call is answered; if it is a request, with `ex`. -/
def answered (i : ℕ) (ex : Exchange) : Event Empty :=
  .answer i fun
    | .lock => ()
    | .unlock => ()
    | .monotonic => (0 : ℚ)
    | .request _ => ex

/-- The operation `i` goes on `n` times without a request. -/
def goesOn (i n : ℕ) : List (Event Empty) := List.replicate n (answered i (.response 200 []))

/-- The response to a login. -/
def loginResponse (token : String) : Exchange :=
  okResponse ("\x7b\"auth\":\x7b\"client_token\":\"" ++ token ++ "\"\x7d\x7d")

/-- The adapter at its start. -/
def sampleBench : Bench Empty := ⟨.initial, none, .empty, [], [], [], []⟩

/-- Two operations send a request with the token of one login, which is revoked, and are refused. -/
def refusedTwice : List (Event Empty) :=
  let op : Operation Empty := ⟨text "GET", text "/v1/transit/keys/k", none⟩
  [.start 0 op, .start 1 op] ++ goesOn 0 1 ++ [answered 0 (loginResponse "t1")] ++ goesOn 0 2 ++
    goesOn 1 3 ++ [.revoke (text "t1"), answered 0 (.response 403 []), answered 1 (.response 403 [])]

/-- Both drop the token before the first of them logs in again. -/
def dropsFirst : List (Event Empty) :=
  refusedTwice ++ goesOn 0 2 ++ goesOn 1 2 ++ goesOn 0 1 ++ [answered 0 (loginResponse "t2")] ++
    goesOn 0 2 ++ goesOn 1 3 ++ [answered 0 (okResponse "[]"), answered 1 (okResponse "[]")]

/-- The second drops the token when the first has logged in again. -/
def dropsLate : List (Event Empty) :=
  refusedTwice ++ goesOn 0 3 ++ [answered 0 (loginResponse "t2")] ++ goesOn 0 2 ++ goesOn 1 3 ++
    [answered 1 (loginResponse "t3")]

theorem dropsFirst_one_login : ∃ s', (machine sampleBao).run sampleBench dropsFirst = some s' ∧
    (machine sampleBao).Throughout OneLogin sampleBench dropsFirst := by
  have hsome : ((machine sampleBao).run sampleBench dropsFirst).isSome = true := by decide +kernel
  obtain ⟨s', hr⟩ := Option.isSome_iff_exists.mp hsome
  exact ⟨s', hr, (oneLogin_iff_careful rfl hr).mpr (by decide +kernel)⟩

/-- One revocation leads to two logins. -/
theorem dropsLate_two_logins : ¬ ∀ (es : List (Event Empty)) (s' : Bench Empty),
    (machine sampleBao).run sampleBench es = some s' →
      (machine sampleBao).Throughout OneLogin sampleBench es := by
  intro h
  have hend : ((machine sampleBao).run sampleBench dropsLate).map
      (fun s => (s.issued.length, s.revoked.length, s.lapsed.length)) = some (3, 1, 0) := by
    decide +kernel
  obtain ⟨s', hr, hs'⟩ := Option.map_eq_some_iff.mp hend
  obtain ⟨hissued, hrevoked, hlapsed⟩ := by simpa only [Prod.mk.injEq] using hs'
  have hlogins := ((h dropsLate s' hr).last hr).logins
  omega

end Example

end Bench

end Omkit.Kms
