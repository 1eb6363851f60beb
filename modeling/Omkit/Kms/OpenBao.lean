import Omkit.Kms.Base
import Omkit.Lib.Base64
import Omkit.Lib.Coro
import Omkit.Lib.Json.Dynamic
import Mathlib.Data.List.DropRight
import Mathlib.Data.Rat.Defs

/-!
# The OpenBao adapter

`OpenBaoKMS` wraps and unwraps keys by requests to a Transit engine, with a token that it gets by a
login and keeps.  Its methods are coroutines over the token: they take the token lock, read the
clock and send requests.
-/

namespace Omkit.Kms

open Lib Crypto

/-! ## Requests and responses -/

/-- The messages of the adapter's errors.  What is rendered into a text and truncated is kept as it
is. -/
inductive Message (F : Type)
  | text (s : PyStr)
  /-- `_truncate(body)`. -/
  | body (b : Bytes)
  /-- `invalid JSON response: …`. -/
  | invalidJson (b : Bytes)
  /-- `unexpected login response: …`. -/
  | login (resp : Json F)
  /-- `str(exc)` of an error of the HTTP client. -/
  | network (s : PyStr)
  /-- `base64 decode …`, with what was decoded. -/
  | base64 (what : PyStr)

/-- What a method of the adapter raises. -/
abbrev BaoExc (F : Type) := KmsExc (Message F)

/-- A request, with the `X-Vault-Token` header and the JSON body if there are any. -/
structure Request (F : Type) where
  method : PyStr
  url : PyStr
  token : Option (Json F)
  body : Option (List (PyStr × Json F))

/-- What comes of a request. -/
inductive Exchange
  /-- An `httpx.HTTPError`, with its text. -/
  | httpError (message : PyStr)
  /-- Another exception of the HTTP client, as for a header value that is no string. -/
  | raised (e : StdExc)
  | response (status : ℕ) (content : Bytes)

/-- `_MAX_RESP_BYTES`. -/
def maxRespBytes : ℕ := 64 * 1024

variable {F : Type} [JsonRuntime F]

/-- The end of `_do_raw`: the JSON of a response, or the error that stands for it. -/
def Exchange.read : Exchange → Except (BaoExc F) (Json F)
  | httpError m => .error (.unavailable (.network m) 0)
  | raised e => .error (.std e)
  | response status content =>
    let body := content.take maxRespBytes
    if 500 ≤ status then .error (.unavailable (.body body) status)
    else if 400 ≤ status then .error (.auth (.body body) status)
    else if body = [] then .ok (.obj [])
    else match loadsBytes body with
      | .ok v => .ok v
      | .error e =>
        if e.isValueError = true then .error (.unavailable (.invalidJson body) status)
        else .error (.std e)

/-! ## The adapter -/

/-- The fields of `OpenBaoKMS` that do not change. -/
structure OpenBaoKMS where
  addr : PyStr
  roleId : PyStr
  secretId : PyStr
  keyName : PyStr

/-- The token that the adapter keeps; `null` stands for `None`. -/
structure TokenState (F : Type) where
  token : Json F
  tokenExpiry : ℚ

/-- The adapter before its first login. -/
def TokenState.initial : TokenState F := ⟨.null, 0⟩

/-- The calls of the adapter: the token lock, the clock and the requests. -/
inductive BaoCall (F : Type)
  | lock
  | unlock
  | monotonic
  | request (r : Request F)

/-- Their answers. -/
def BaoAnswer : BaoCall F → Type
  | .lock => Unit
  | .unlock => Unit
  | .monotonic => ℚ
  | .request _ => Exchange

/-- A part of a method that does not raise. -/
abbrev BaoIo (F α : Type) := Coro (TokenState F) (BaoCall F) BaoAnswer α

/-- A part of a method. -/
abbrev Bao (F α : Type) := ExceptT (BaoExc F) (Coro (TokenState F) (BaoCall F) BaoAnswer) α

namespace Bao

omit [JsonRuntime F]

/-- A part that does not raise. -/
def lift {α : Type} (x : BaoIo F α) : Bao F α := ExceptT.lift x

/-- What has been computed, or its exception. -/
def ofExcept {α : Type} (r : Except (BaoExc F) α) : Bao F α := ExceptT.mk (pure r)

/-- What has been computed, or an exception of the language. -/
def ofStd {α : Type} (r : Except StdExc α) : Bao F α := ofExcept (r.mapError .std)

lemma ofStd_ok_bind {α β : Type} {a : α} {f : α → Bao F β} : (ofStd (.ok a) >>= f) = f a := rfl

/-- Send a request. -/
def send (r : Request F) : Bao F Exchange := lift (Coro.ask (BaoCall.request r))

/-- `time.monotonic()`. -/
def monotonic : Bao F ℚ := lift (Coro.ask BaoCall.monotonic)

/-- `async with self._token_lock`. -/
def withLock {α : Type} (x : Bao F α) : Bao F α := do
  lift (Coro.ask BaoCall.lock)
  let r ← lift x.run
  lift (Coro.ask BaoCall.unlock)
  ofExcept r

end Bao

/-- The sum of a time and a whole number of seconds; an integer that no float can hold raises. -/
def addSeconds (t : ℚ) (n : ℤ) : Except StdExc ℚ :=
  if 2 ^ 1024 - 2 ^ 970 ≤ n then .error .overflowError else .ok (t + n)

namespace OpenBaoKMS

/-- `OpenBaoKMS(addr, role_id, secret_id, key_name=key_name)`, or the text of its `ValueError`. -/
def init (addr roleId secretId keyName : PyStr) : Except PyStr OpenBaoKMS :=
  if addr = [] then .error (text "OpenBaoKMS: addr is required")
  else if roleId = [] then .error (text "OpenBaoKMS: role_id is required")
  else if secretId = [] then .error (text "OpenBaoKMS: secret_id is required")
  else .ok ⟨addr.rdropWhile (· = .scalar '/'), roleId, secretId,
    if keyName = [] then text "omur-user-content" else keyName⟩

variable (k : OpenBaoKMS) [PyNumbers F]

/-- `_do_raw`. -/
def doRaw (method path : PyStr) (token : Json F) (body : Option (List (PyStr × Json F))) :
    Bao F (Json F) := do
  let ex ← Bao.send ⟨method, k.addr ++ path, if token.truthy then some token else none, body⟩
  Bao.ofExcept ex.read

/-- The fields that `_login_locked` reads in a response. -/
def loginFields (resp : Json F) : Except StdExc (Json F × ℤ) := do
  let auth := (← resp.get (text "auth")).orElse (.obj [])
  let clientToken := (← auth.get (text "client_token")).orElse (.str [])
  let lease ← ((← auth.get (text "lease_duration")).orElse (.int 0)).toInt
  pure (clientToken, lease)

/-- `_login_locked`. -/
def loginLocked : Bao F (Json F) := do
  let body := [(text "role_id", .str k.roleId), (text "secret_id", .str k.secretId)]
  let resp ← k.doRaw (text "POST") (text "/v1/auth/approle/login") .null (some body)
  match loginFields resp with
  | .error .attributeError | .error .typeError => throw (.unavailable (.login resp) 0)
  | .error e => throw (.std e)
  | .ok (clientToken, lease) =>
    if clientToken.truthy = false then throw (.unavailable (.login resp) 0)
    else do
      Bao.lift (Coro.modify ({ · with token := clientToken }))
      let now ← Bao.monotonic
      let expiry ← Bao.ofStd (addSeconds now (if lease ≤ 0 then 3600 else lease))
      Bao.lift (Coro.modify ({ · with tokenExpiry := expiry }))
      let s ← Bao.lift Coro.read
      pure s.token

/-- The body of `_get_token`: the token that is kept, if it is good for another 30 seconds. -/
def tokenLocked : Bao F (Json F) := do
  let s ← Bao.lift Coro.read
  if s.token.truthy then do
    let now ← Bao.monotonic
    if 30 < s.tokenExpiry - now then pure s.token else k.loginLocked
  else k.loginLocked

/-- `_get_token`. -/
def getToken : Bao F (Json F) := Bao.withLock k.tokenLocked

/-- `_do`. -/
def doAuthed (method path : PyStr) (body : Option (List (PyStr × Json F))) : Bao F (Json F) := do
  let tok ← k.getToken
  let r ← Bao.lift (k.doRaw method path tok body).run
  match r with
  | .error (.auth m status) =>
    if status = 403 then do
      Bao.withLock (Bao.lift (Coro.modify ({ · with token := .null })))
      let tok2 ← k.getToken
      k.doRaw method path tok2 body
    else throw (.auth m status)
  | r => Bao.ofExcept r

/-! ## The methods -/

/-- `resp.get("data") or {}`. -/
def dataOf (resp : Json F) : Except StdExc (Json F) :=
  (resp.get (text "data")).map (·.orElse (.obj []))

/-- `v.encode("ascii")`. -/
def asciiBytes (v : Json F) : Except StdExc Bytes :=
  match v with
  | .str s => match encodeAscii s with
    | some b => .ok b
    | none => .error .unicodeEncodeError
  | _ => .error .attributeError

/-- `blob.decode("ascii")`. -/
def asciiText (blob : Bytes) : Except StdExc PyStr :=
  match decodeAscii blob with
  | some s => .ok s
  | none => .error .unicodeDecodeError

/-- `base64.b64decode(v)`, with its `ValueError` turned into an error of the adapter. -/
def plaintextOf (what : PyStr) (v : Json F) : Except (BaoExc F) Bytes :=
  match v with
  | .str s => match b64decode s with
    | some b => .ok b
    | none => .error (.unavailable (.base64 what) 0)
  | _ => .error (.std .typeError)

/-- `wrap`. -/
def wrap (keyId : PyStr) (plaintext aad : Bytes) : Bao F Bytes := do
  let body := [(text "plaintext", .str (b64encode plaintext)),
    (text "context", .str (b64encode aad))]
  let resp ← k.doAuthed (text "POST") (text "/v1/transit/encrypt/" ++ keyId) (some body)
  let ct ← Bao.ofStd (dataOf resp >>= (·.get (text "ciphertext")))
  let ct := ct.orElse (.str [])
  if ct.truthy = false then throw (.unavailable (.text (text "unexpected encrypt response")) 0)
  else Bao.ofStd (asciiBytes ct)

/-- `unwrap`. -/
def unwrap (keyId : PyStr) (blob aad : Bytes) : Bao F Bytes := do
  let ciphertext ← Bao.ofStd (asciiText blob)
  let body := [(text "ciphertext", .str ciphertext), (text "context", .str (b64encode aad))]
  let resp ← k.doAuthed (text "POST") (text "/v1/transit/decrypt/" ++ keyId) (some body)
  let pt ← Bao.ofStd (dataOf resp >>= (·.get (text "plaintext")))
  let pt := pt.orElse (.str [])
  if pt.truthy = false then throw (.unavailable (.text (text "unexpected decrypt response")) 0)
  else Bao.ofExcept (plaintextOf (text "plaintext") pt)

/-- `current_version`. -/
def currentVersion (keyId : PyStr) : Bao F PyStr := do
  let resp ← k.doAuthed (text "GET") (text "/v1/transit/keys/" ++ keyId) none
  let latest ← Bao.ofStd (dataOf resp >>= (·.get (text "latest_version")))
  match latest.instanceInt with
  | some s => pure (.scalar 'v' :: s)
  | none => throw (.unavailable (.text (text "unexpected keys response")) 0)

end OpenBaoKMS

/-- The text of a triple: `U:P:base64(aad)`. -/
def contextText (userId purpose : PyStr) (aad : Bytes) : PyStr :=
  userId ++ .scalar ':' :: (purpose ++ .scalar ':' :: b64encode aad)

omit [JsonRuntime F] in
/-- `_derived_context`. -/
def derivedContext (userId purpose : PyStr) (aad : Bytes) : Except (BaoExc F) PyStr := do
  let inner ← encoded (contextText userId purpose aad)
  pure (b64encode inner)

namespace OpenBaoKMS

variable (k : OpenBaoKMS) [PyNumbers F]

/-- `wrap_dek`: the wrapped key, and the version of the Transit key. -/
def wrapDek (userId purpose : PyStr) (plainDek aad : Bytes) : Bao F (Bytes × PyStr) := do
  let ctx64 ← Bao.ofExcept (derivedContext userId purpose aad)
  let body := [(text "plaintext", .str (b64encode plainDek)), (text "context", .str ctx64)]
  let resp ← k.doAuthed (text "POST") (text "/v1/transit/encrypt/" ++ k.keyName) (some body)
  let data ← Bao.ofStd (dataOf resp)
  let ct ← Bao.ofStd (data.get (text "ciphertext"))
  let ct := ct.orElse (.str [])
  let kv ← Bao.ofStd (data.get (text "key_version"))
  match ct.truthy, kv.instanceInt with
  | true, some v => do
    let wrapped ← Bao.ofStd (asciiBytes ct)
    pure (wrapped, .scalar 'v' :: v)
  | _, _ => throw (.unavailable (.text (text "unexpected wrap dek response")) 0)

/-- `unwrap_dek`. -/
def unwrapDek (userId purpose : PyStr) (wrapped aad : Bytes) : Bao F Bytes := do
  let ctx64 ← Bao.ofExcept (derivedContext userId purpose aad)
  let ciphertext ← Bao.ofStd (asciiText wrapped)
  let body := [(text "ciphertext", .str ciphertext), (text "context", .str ctx64)]
  let resp ← k.doAuthed (text "POST") (text "/v1/transit/decrypt/" ++ k.keyName) (some body)
  let pt ← Bao.ofStd (dataOf resp >>= (·.get (text "plaintext")))
  let pt := pt.orElse (.str [])
  if pt.truthy = false then throw (.unavailable (.text (text "unexpected unwrap dek response")) 0)
  else Bao.ofExcept (plaintextOf (text "dek") pt)

end OpenBaoKMS

end Omkit.Kms
