import Omkit.Lib.Uuid
import Omkit.Tenant

/-!
# The tenant of a request

`TenantMiddleware`: what it reads from the scope of a request, and whether the application runs, in
which context, or the request is answered with 401.
-/

namespace Omkit.Tenant

open Lib

/-- The message of the `RuntimeError` of `require`. -/
def noTenantMessage : PyStr :=
  text "No tenant context set. Use tenant.middleware() in FastAPI or tenant.bind() for background tasks."

namespace Context

/-- `require`; the error is the message of a `RuntimeError`. -/
def require (c : Context) : Except PyStr PyStr :=
  match c.tenantId with
  | some t => .ok t
  | none => .error noTenantMessage

/-- `current_or_none`. -/
def currentOrNone (c : Context) : Option PyStr := c.tenantId

end Context

/-- `_DEFAULT_EXCLUDE`. -/
def defaultExclude : List PyStr :=
  [text "/health", text "/healthz", text "/ready", text "/readyz", text "/metrics"]

/-- What the middleware reads of an ASGI scope. -/
structure Scope where
  type : PyStr
  path : Option PyStr
  headers : Option (List (Bytes × Bytes))

/-- `b.lower()`. -/
def lower (b : Bytes) : Bytes := b.map fun x => if 0x41 ≤ x ∧ x ≤ 0x5a then x + 0x20 else x

/-- `b.decode("latin-1")`. -/
def latin1 (b : Bytes) : PyStr := b.map fun x => .scalar (Char.ofNat x.toNat)

/-- `_get_header`. -/
def getHeader (headers : List (Bytes × Bytes)) (name : String) : Option PyStr :=
  (headers.find? fun h => lower h.1 = utf8 name.toList).map fun h => latin1 h.2

/-- `_validate_uuid`. -/
def validateUuid (value : PyStr) : Bool := (uuidOf value).isSome

lemma validateUuid_nil : validateUuid [] = false := by decide +kernel

/-- A message of the ASGI `send`, with the members that the middleware reads or writes. -/
structure Message where
  type : PyStr
  status : Option ℕ := none
  headers : Option (List (Bytes × Bytes)) := none
  body : Option Bytes := none

/-- The body of a rejection. -/
def rejectionBody : Bytes := utf8 "\x7b\"error\": \"X-Tenant-ID header required\"\x7d".toList

/-- The messages that are sent for a rejected request. -/
def rejection : List Message :=
  [{ type := text "http.response.start", status := some 401,
     headers := some [(utf8 "content-type".toList, utf8 "application/json".toList),
      (utf8 "content-length".toList, utf8 (Nat.toDigits 10 rejectionBody.length))] },
    { type := text "http.response.body", body := some rejectionBody }]

/-- `TenantMiddleware`, with the paths that it leaves alone. -/
structure TenantMiddleware where
  excluded : List PyStr

/-- What the middleware does with a request. -/
inductive Entry
  /-- The application runs as it was called. -/
  | pass
  /-- The request is answered with `rejection`. -/
  | reject
  /-- The application runs with these variables. -/
  | bound (c : Context)
deriving DecidableEq

namespace TenantMiddleware

/-- `__init__`. -/
def init (excludePaths : Option (List PyStr)) : TenantMiddleware :=
  ⟨excludePaths.getD defaultExclude⟩

/-- The part of `__call__` before the application; `uuid4` is the text of the UUID that is drawn
for a request without an id. -/
def enter (mw : TenantMiddleware) (scope : Scope) (uuid4 : PyStr) : Entry :=
  if scope.type ≠ text "http" then .pass
  else if scope.path.getD [] ∈ mw.excluded then .pass
  else
    let headers := scope.headers.getD []
    match getHeader headers "x-tenant-id" with
    | none => .reject
    | some rawTid =>
      if rawTid ≠ [] ∧ validateUuid rawTid = true then
        let rawRid := ((getHeader headers "x-request-id").filter (· ≠ [])).getD uuid4
        .bound ⟨some rawTid, some rawRid⟩
      else .reject

variable {mw : TenantMiddleware} {scope : Scope} {uuid4 : PyStr}

/-- The application of a request that is not excluded runs for the first `X-Tenant-ID` header, which
is a UUID, with the first `X-Request-ID` header unless it is empty. -/
lemma enter_eq_bound_iff {c : Context} : mw.enter scope uuid4 = .bound c ↔
    scope.type = text "http" ∧ scope.path.getD [] ∉ mw.excluded ∧
      ∃ rawTid, getHeader (scope.headers.getD []) "x-tenant-id" = some rawTid ∧
        validateUuid rawTid = true ∧ c = ⟨some rawTid, some (((getHeader (scope.headers.getD [])
          "x-request-id").filter (· ≠ [])).getD uuid4)⟩ := by
  unfold enter
  by_cases htype : scope.type = text "http"
  · by_cases hpath : scope.path.getD [] ∈ mw.excluded
    · rw [if_neg (not_not.mpr htype), if_pos hpath]
      exact iff_of_false nofun fun h => h.2.1 hpath
    · rw [if_neg (not_not.mpr htype), if_neg hpath]
      simp only [htype, hpath, not_false_eq_true, true_and]
      cases hraw : getHeader (scope.headers.getD []) "x-tenant-id" with
      | none => simp
      | some rawTid =>
        by_cases hvalid : validateUuid rawTid = true
        · have hne : rawTid ≠ [] := fun hnil => by
            rw [hnil, validateUuid_nil] at hvalid
            cases hvalid
          simp only [hne, hvalid, ne_eq, not_false_eq_true, and_self, if_true]
          constructor
          · exact fun hbound => ⟨rawTid, rfl, hvalid, (Entry.bound.inj hbound).symm⟩
          · rintro ⟨_, hsome, -, rfl⟩
            obtain rfl := Option.some.inj hsome
            rfl
        · simp [hvalid]
  · rw [if_pos htype]
    exact iff_of_false nofun fun h => htype h.1

/-- The application of a request that is not excluded runs for a UUID. -/
lemma enter_eq_bound {c : Context} (h : mw.enter scope uuid4 = .bound c) :
    ∃ rawTid, getHeader (scope.headers.getD []) "x-tenant-id" = some rawTid ∧
      validateUuid rawTid = true ∧ c.tenantId = some rawTid ∧ c.requestId ≠ none := by
  obtain ⟨-, -, rawTid, hraw, hvalid, rfl⟩ := enter_eq_bound_iff.mp h
  exact ⟨rawTid, hraw, hvalid, rfl, by simp⟩

/-- The middleware steps aside only for other protocols and for excluded paths. -/
lemma enter_ne_pass (htype : scope.type = text "http") (hpath : scope.path.getD [] ∉ mw.excluded) :
    mw.enter scope uuid4 ≠ .pass := by
  unfold enter
  rw [if_neg (not_not.mpr htype), if_neg hpath]
  simp only
  split
  · simp
  · split_ifs <;> simp

end TenantMiddleware

end Omkit.Tenant
