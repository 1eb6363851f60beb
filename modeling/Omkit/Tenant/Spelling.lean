import Omkit.Lib.Sha256
import Omkit.Sessions.Latest
import Omkit.Tenant.Middleware

/-!
# Spellings of a tenant

The middleware accepts a UUID in many spellings and binds the text of the header.  A lookup for a
tenant compares that text with the canonical one of the database, and `hashed_for_log` hashes it, so
two spellings of one UUID are two tenants to them.
-/

namespace Omkit.Tenant

open Lib

/-! ## `hashed_for_log` -/

/-- What `hashed_for_log` raises. -/
inductive HashError
  | runtimeError (message : PyStr)
  | unicodeEncodeError
deriving DecidableEq

/-- The pairs of digits of `bytes.fromhex`; the error is the position of a character that is no
digit. -/
def hexPairs (pos : ℕ) : PyStr → Except ℕ Bytes
  | [] => .ok []
  | [x] => if isCSpace x then .ok [] else match hexVal x with
    | none => .error pos
    | some _ => .error (pos + 1)
  | x :: y :: s =>
    if isCSpace x then hexPairs (pos + 1) (y :: s)
    else match hexVal x, hexVal y with
      | none, _ => .error pos
      | some _, none => .error (pos + 1)
      | some h, some l => (hexPairs (pos + 2) s).map (UInt8.ofNat (16 * h + l) :: ·)

/-- Is the character outside ASCII? -/
def nonAscii : PyChar → Bool
  | .scalar c => 128 ≤ c.toNat
  | .surrogate _ => true

/-- `bytes.fromhex(s)`; the error is the message of a `ValueError`. -/
def fromHex (s : PyStr) : Except PyStr Bytes :=
  let invalid (pos : ℕ) : PyStr :=
    text "non-hexadecimal number found in fromhex() arg at position " ++ natText pos
  match s.findIdx? nonAscii with
  | some pos => .error (invalid pos)
  | none => (hexPairs 0 s).mapError invalid

/-- The key that `LOG_HMAC_KEY` gives. -/
def logHmacKey (env : Option PyStr) : Except HashError Bytes :=
  match env.filter (· ≠ []) with
  | none => .error (.runtimeError (text "LOG_HMAC_KEY env var required for tenant log hashing. Set in BaseServiceSettings or pass key= explicitly."))
  | some s => match fromHex s with
    | .error exc => .error (.runtimeError (text "LOG_HMAC_KEY must be a hex string (openssl rand -hex 32). Got " ++
        natText s.length ++ text " chars, decode error: " ++ exc))
    | .ok key =>
      if key.length < 16 then
        .error (.runtimeError (text "LOG_HMAC_KEY too short (" ++ natText key.length ++
          text " bytes); need >= 16"))
      else .ok key

/-- `b.hex()`. -/
def hexText (b : Bytes) : PyStr :=
  b.flatMap fun x => [hexDigit (x.toNat / 16), hexDigit (x.toNat % 16)]

/-- `hashed_for_log`. -/
def hashedForLog (env : Option PyStr) (tenantId : PyStr) (key : Option Bytes) :
    Except HashError PyStr := do
  let key ← match key with
    | some key => .ok key
    | none => logHmacKey env
  match encode tenantId with
  | some msg => .ok ((hexText (Sha256.hmac key msg)).take 16)
  | none => .error .unicodeEncodeError

lemma hexText_injective : Function.Injective hexText := by
  have hdigit : ∀ a < 16, ∀ b < 16, hexDigit a = hexDigit b → a = b := by decide
  intro b
  induction b with
  | nil =>
    intro c h
    cases c with
    | nil => rfl
    | cons y c => simp [hexText] at h
  | cons x b ih =>
    intro c h
    cases c with
    | nil => simp [hexText] at h
    | cons y c =>
      simp only [hexText, List.flatMap_cons, List.cons_append, List.nil_append, List.cons.injEq] at h
      obtain ⟨hhi, hlo, hrest⟩ := h
      have hx := x.toNat_lt
      have hy := y.toNat_lt
      have hdiv := hdigit _ (by omega) _ (by omega) hhi
      have hmod := hdigit _ (by omega) _ (by omega) hlo
      have heq : x.toNat = y.toNat := by omega
      rw [UInt8.toNat_inj.mp heq, ih hrest]

lemma take_hexText (b : Bytes) (n : ℕ) : (hexText b).take (2 * n) = hexText (b.take n) := by
  induction b generalizing n with
  | nil => simp [hexText]
  | cons x b ih =>
    cases n with
    | zero => rfl
    | succ n =>
      show List.take (2 * (n + 1)) (hexDigit _ :: hexDigit _ :: hexText b) =
        hexDigit _ :: hexDigit _ :: hexText (b.take n)
      rw [show 2 * (n + 1) = 2 * n + 1 + 1 by omega, List.take_succ_cons, List.take_succ_cons, ih]

/-- The text that is logged is that of the first eight bytes of the HMAC. -/
lemma hashedForLog_key (env : Option PyStr) {tenantId : PyStr} {msg : Bytes} (key : Bytes)
    (h : encode tenantId = some msg) :
    hashedForLog env tenantId (some key) = .ok (hexText ((Sha256.hmac key msg).take 8)) := by
  have htake : (hexText (Sha256.hmac key msg)).take 16 = hexText ((Sha256.hmac key msg).take 8) :=
    take_hexText _ 8
  simp only [hashedForLog, h, ← htake]
  rfl

/-! ## Two spellings -/

section Spellings

open Sessions (Rows Row SessionError)

variable {F : Type} [JsonRuntime F] [PyNumbers F]

/-- `store.get(token, tenant_id=tenant.require())` on a `PostgresSessionStore`. -/
def lookup (rows : Rows F) (now : Aware) (token : PyStr) (c : Context) :
    Except (PyStr ⊕ SessionError) (Sessions.Session F) :=
  match c.require with
  | .error message => .error (.inl message)
  | .ok tenantId => (rows.get now token (some tenantId)).mapError .inr

/-- `hashed_for_log(tenant.require(), key)`. -/
def logHash (env : Option PyStr) (key : Bytes) (c : Context) : Except (PyStr ⊕ HashError) PyStr :=
  match c.require with
  | .error message => .error (.inl message)
  | .ok tenantId => (hashedForLog env tenantId (some key)).mapError .inr

variable [Postgres F]

variable (F) in
/-- The text is the one that the database writes for its UUID. -/
def Canonical (t : PyStr) : Prop := Postgres.uuidText F t = some t

/-- The rows of a table have canonical tenants, as `tenant_id::text` gives them. -/
def CanonicalRows (rows : Rows F) : Prop := ∀ k r, rows.get? k = some r → Canonical F r.tenantId

variable (F) in
/-- Two contexts see the same results, of a lookup in any table and of the hash for the log. -/
structure SameResults (env : Option PyStr) (key : Bytes) (c c' : Context) : Prop where
  get : ∀ rows : Rows F, CanonicalRows rows → ∀ now token,
    lookup rows now token c = lookup rows now token c'
  hash : logHash env key c = logHash env key c'

/-- The first eight bytes of the HMACs of the two texts agree. -/
def SameHmac (key : Bytes) (t t' : PyStr) : Prop :=
  ∃ msg msg', encode t = some msg ∧ encode t' = some msg' ∧
    (Sha256.hmac key msg).take 8 = (Sha256.hmac key msg').take 8

omit [JsonRuntime F] [PyNumbers F] [Postgres F] in
lemma require_of_tenantId {c : Context} {t : PyStr} (h : c.tenantId = some t) :
    c.require = .ok t := by
  rw [Context.require, h]

omit [JsonRuntime F] [PyNumbers F] [Postgres F] in
lemma mapError_injective {ε ε' α : Type} {f : ε → ε'} (hf : Function.Injective f) :
    Function.Injective (Except.mapError f : Except ε α → Except ε' α) := by
  intro x y h
  cases x <;> cases y <;> simp only [Except.mapError, Except.error.injEq, Except.ok.injEq,
    reduceCtorEq] at h ⊢
  · exact hf h
  · exact h

omit [Postgres F] in
lemma lookup_eq_iff {c c' : Context} {t t' : PyStr} (ht : c.tenantId = some t)
    (ht' : c'.tenantId = some t') (rows : Rows F) (now : Aware) (token : PyStr) :
    lookup rows now token c = lookup rows now token c' ↔
      rows.get now token (some t) = rows.get now token (some t') := by
  rw [lookup, lookup, require_of_tenantId ht, require_of_tenantId ht']
  exact (mapError_injective Sum.inr_injective).eq_iff

/-- A tenant whose text is not canonical finds nothing. -/
lemma get_of_not_canonical {rows : Rows F} (hrows : CanonicalRows rows) {t t' : PyStr}
    (ht : ¬ Canonical F t) (ht' : ¬ Canonical F t') (now : Aware) (token : PyStr) :
    rows.get now token (some t) = rows.get now token (some t') := by
  unfold Rows.get
  split
  · cases hlive : rows.live now token with
    | none => rfl
    | some r =>
      simp only [Rows.live, Option.filter_eq_some_iff] at hlive
      have hr := hrows token r hlive.1
      have hne : r.tenantId ≠ t := fun h => ht (h ▸ hr)
      have hne' : r.tenantId ≠ t' := fun h => ht' (h ▸ hr)
      simp [hne, hne']
  · rfl

/-- A row of the tenant, which is live from midnight to one o'clock. -/
def rowOf (t : PyStr) : Row F :=
  ⟨[], t, .value .null, Sessions.sampleTime 0 Sessions.zero_lt_day,
    Sessions.sampleTime 1 Sessions.one_lt_day⟩

/-- The table with that row only. -/
def tableOf (t : PyStr) : Rows F := Dict.empty.set [] (rowOf t)

omit [JsonRuntime F] [PyNumbers F] [Postgres F] in
lemma live_tableOf (t : PyStr) : (tableOf t : Rows F).live
    (Sessions.sampleTime 0 Sessions.zero_lt_day) [] = some (rowOf t) := by
  have hlt : (Sessions.sampleTime 0 Sessions.zero_lt_day).micros <
      (rowOf t : Row F).expiresAt.micros := by
    show (Sessions.sampleTime 0 Sessions.zero_lt_day).micros <
      (Sessions.sampleTime 1 Sessions.one_lt_day).micros
    decide
  simp [Rows.live, tableOf, Option.filter, hlt]

omit [JsonRuntime F] [PyNumbers F] in
lemma canonicalRows_tableOf {t : PyStr} (ht : Canonical F t) : CanonicalRows (tableOf t : Rows F) := by
  intro k r hr
  rw [tableOf, Dict.get?_set] at hr
  split_ifs at hr
  · obtain rfl := Option.some.inj hr
    exact ht
  · simp at hr

omit [Postgres F] in
/-- A row of one tenant tells it from every other text. -/
lemma get_tableOf_ne {t t' : PyStr} (hne : t ≠ t') :
    (tableOf t : Rows F).get (Sessions.sampleTime 0 Sessions.zero_lt_day) [] (some t) ≠
      (tableOf t : Rows F).get (Sessions.sampleTime 0 Sessions.zero_lt_day) [] (some t') := by
  have hparam : Sessions.textParam [] = true := by decide
  have hown : (tableOf t : Rows F).get (Sessions.sampleTime 0 Sessions.zero_lt_day) [] (some t) =
      (rowOf t : Row F).session := by
    have htenant : (rowOf t : Row F).tenantId = t := rfl
    simp [Rows.get, hparam, live_tableOf, htenant]
  rw [hown, Sessions.rows_get_other hparam (live_tableOf t) hne]
  intro h
  cases h

/-- **Two accepted spellings see the same results exactly if they are one text**, or if neither is
canonical and their truncated HMACs collide. -/
theorem sameResults_iff {mw mw' : TenantMiddleware} {scope scope' : Scope} {uuid4 uuid4' : PyStr}
    {c c' : Context} (h : mw.enter scope uuid4 = .bound c) (h' : mw'.enter scope' uuid4' = .bound c')
    {t t' : PyStr} (ht : c.tenantId = some t) (ht' : c'.tenantId = some t') (env : Option PyStr)
    (key : Bytes) : SameResults F env key c c' ↔
      t = t' ∨ ¬ Canonical F t ∧ ¬ Canonical F t' ∧ SameHmac key t t' := by
  have hencode : ∀ {mw : TenantMiddleware} {scope : Scope} {uuid4 : PyStr} {c : Context} {t : PyStr},
      mw.enter scope uuid4 = .bound c → c.tenantId = some t → ∃ msg, encode t = some msg := by
    intro mw scope uuid4 c t h ht
    obtain ⟨raw, -, hvalid, hraw, -⟩ := TenantMiddleware.enter_eq_bound h
    obtain rfl : t = raw := Option.some.inj (ht.symm.trans hraw)
    obtain ⟨n, hn⟩ := Option.isSome_iff_exists.mp hvalid
    exact wellFormed_iff_encode.mp (uuidOf_wellFormed hn)
  obtain ⟨msg, hmsg⟩ := hencode h ht
  obtain ⟨msg', hmsg'⟩ := hencode h' ht'
  have hget := lookup_eq_iff (F := F) ht ht'
  have hhash : logHash env key c = logHash env key c' ↔
      (Sha256.hmac key msg).take 8 = (Sha256.hmac key msg').take 8 := by
    rw [logHash, logHash, require_of_tenantId ht, require_of_tenantId ht']
    simp only [hashedForLog_key env key hmsg, hashedForLog_key env key hmsg', Except.mapError,
      Except.ok.injEq, hexText_injective.eq_iff]
  constructor
  · intro hsame
    by_cases hne : t = t'
    · exact Or.inl hne
    · refine Or.inr ⟨fun hcanon => ?_, fun hcanon => ?_, msg, msg', hmsg, hmsg', hhash.mp hsame.hash⟩
      · exact get_tableOf_ne hne ((hget _ _ _).mp (hsame.get _ (canonicalRows_tableOf hcanon) _ _))
      · exact get_tableOf_ne (Ne.symm hne)
          ((hget _ _ _).mp (hsame.get _ (canonicalRows_tableOf hcanon) _ _)).symm
  · rintro (rfl | ⟨hc, hc', n, n', hn, hn', hmac⟩)
    · exact ⟨fun rows _ now token => (hget rows now token).mpr rfl,
        hhash.mpr (by rw [Option.some.inj (hmsg.symm.trans hmsg')])⟩
    · obtain rfl : msg = n := Option.some.inj (hmsg.symm.trans hn)
      obtain rfl : msg' = n' := Option.some.inj (hmsg'.symm.trans hn')
      exact ⟨fun rows hrows now token =>
        (hget rows now token).mpr (get_of_not_canonical hrows hc hc' now token), hhash.mpr hmac⟩

end Spellings

/-! ## A request in capitals -/

/-- A UUID as the database writes it, and in capitals. -/
def sampleSpellings : String × String :=
  ("6f9619ff-8b86-d011-b42d-00c04fc964ff", "6F9619FF-8B86-D011-B42D-00C04FC964FF")

/-- A request with a tenant header. -/
def sampleScope (name value : String) : Scope :=
  ⟨text "http", some (text "/documents"), some [(utf8 name.toList, utf8 value.toList)]⟩

/-- The context of a sample request. -/
def sampleContext (value : String) : Context := ⟨some (text value), some (text "r-1")⟩

/-- A request that brings its own id, with its tenant under another spelling of the header. -/
def tracedScope : Scope :=
  ⟨text "http", some (text "/audit"), some [(utf8 "X-Request-ID".toList, utf8 "r-2".toList),
    (utf8 "X-Tenant-ID".toList, utf8 sampleSpellings.1.toList)]⟩

/-- Two requests of a tenant, on other paths and with other ids. -/
theorem sameResults_traced : SameResults Empty none (utf8 "key".toList)
    (sampleContext sampleSpellings.1) ⟨some (text sampleSpellings.1), some (text "r-2")⟩ := by
  have hplain : (TenantMiddleware.init none).enter
      (sampleScope "x-tenant-id" sampleSpellings.1) (text "r-1") =
        .bound (sampleContext sampleSpellings.1) := by decide
  have htraced : (TenantMiddleware.init none).enter tracedScope (text "r-3") =
      .bound ⟨some (text sampleSpellings.1), some (text "r-2")⟩ := by decide
  exact (sameResults_iff hplain htraced rfl rfl none _).mpr (Or.inl rfl)

/-- The request in capitals does not find the row of its tenant. -/
theorem capitals_see_other_results : ¬ ∀ (mw : TenantMiddleware) (scope scope' : Scope)
    (uuid4 : PyStr) (c c' : Context) (t t' : PyStr) (key : Bytes),
    mw.enter scope uuid4 = .bound c → mw.enter scope' uuid4 = .bound c' → c.tenantId = some t →
      c'.tenantId = some t' → uuidOf t = uuidOf t' → SameResults Empty none key c c' := by
  intro h
  have hsame := h (.init none) (sampleScope "x-tenant-id" sampleSpellings.1)
    (sampleScope "x-tenant-id" sampleSpellings.2) (text "r-1") (sampleContext sampleSpellings.1)
    (sampleContext sampleSpellings.2) _ _ [] (by decide) (by decide) rfl rfl (by decide)
  have htext : Postgres.uuidText Empty (text sampleSpellings.1) = some (text sampleSpellings.1) := by
    decide
  have hget := hsame.get _ (canonicalRows_tableOf htext)
    (Sessions.sampleTime 0 Sessions.zero_lt_day) []
  exact get_tableOf_ne (by decide) ((lookup_eq_iff rfl rfl _ _ _).mp hget)

end Omkit.Tenant
