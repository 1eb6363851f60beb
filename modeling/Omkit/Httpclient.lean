import Omkit.Tenant.Middleware

/-!
# Tenant clients

`build_tenant_client` gives every client a request hook that adds the headers of the tenant, the
service and the request.  A caller may pass a dictionary of event hooks, and pass the same one again:
the hook of each call is put into that dictionary, so that the client of a later call runs the hooks
of the earlier ones too, and theirs first.
-/

namespace Omkit.Httpclient

open Lib
open Tenant (Context lower)

/-! ## Headers -/

/-- The encodings of headers. -/
inductive Encoding
  | ascii
  | utf8
  | latin1
deriving DecidableEq

/-- `s.encode("iso-8859-1")`; `none` is a `UnicodeEncodeError`. -/
def encodeLatin1 (s : PyStr) : Option Bytes :=
  s.mapM fun x => match x with
    | .scalar c => if c.toNat < 256 then some (UInt8.ofNat c.toNat) else none
    | .surrogate _ => none

/-- `s.encode(encoding)`; `none` is a `UnicodeEncodeError`. -/
def Encoding.encode : Encoding → PyStr → Option Bytes
  | .ascii => encodeAscii
  | .utf8 => Lib.encode
  | .latin1 => encodeLatin1

/-- Pairs of a name and a value. -/
abbrev RawHeaders := List (Bytes × Bytes)

/-- The value of a header; the case of its name does not matter. -/
def RawHeaders.get? (raw : RawHeaders) (name : String) : Option Bytes :=
  (raw.find? fun p => lower p.1 = lower (utf8 name.toList)).map Prod.snd

/-- The first encoding of ASCII and UTF-8 that all names and values can be read in; Latin-1 is for
the rest. -/
def RawHeaders.encoding (raw : RawHeaders) : Encoding :=
  if raw.all fun p => (decodeAscii p.1).isSome && (decodeAscii p.2).isSome then .ascii
  else if raw.all fun p => (decode p.1).isSome && (decode p.2).isSome then .utf8
  else .latin1

/-- The headers of a request, and their encoding once it was asked for. -/
structure Headers where
  raw : RawHeaders
  fixed : Option Encoding
deriving DecidableEq

def Headers.get? (h : Headers) (name : String) : Option Bytes := h.raw.get? name

/-- The property `encoding`. -/
def Headers.encoding (h : Headers) : Encoding := h.fixed.getD h.raw.encoding

/-- A text that is there and not empty. -/
def given : Option PyStr → Option PyStr := Option.filter (· ≠ [])

/-- Set a header that is not there yet, if its value is given.  The test fixes the encoding, and the
value is encoded in it; `none` is a `UnicodeEncodeError`. -/
def setMissing (name : String) (value : Option PyStr) (h : Headers) : Option Headers :=
  match h.get? name, given value with
  | none, some v => (h.encoding.encode v).map fun b =>
    ⟨h.raw ++ [(utf8 name.toList, b)], some h.encoding⟩
  | _, _ => some { h with fixed := some h.encoding }

/-- The hook of `_build_request_hook`. -/
def requestHook (serviceToken : Option PyStr) (c : Context) (h : Headers) : Option Headers := do
  let h ← setMissing "X-Tenant-ID" c.currentOrNone h
  let h ← setMissing "X-Service-Token" serviceToken h
  setMissing "X-Request-ID" c.requestId h

/-- A hook of the caller, which may do anything but touch the service token; `none` is an
exception. -/
structure CallerHook where
  run : Headers → Option Headers
  keeps : ∀ h h', run h = some h' → h'.get? "X-Service-Token" = h.get? "X-Service-Token"

/-- A request hook. -/
inductive Hook
  | caller (f : CallerHook)
  | tenant (serviceToken : Option PyStr)

/-- What a hook makes of a request. -/
def Hook.run (c : Context) : Hook → Headers → Option Headers
  | .caller f, h => f.run h
  | .tenant serviceToken, h => requestHook serviceToken c h

/-- A client: the request hooks that it was built with. -/
structure Client where
  hooks : List Hook

/-- The headers that a client sends: its hooks run in order on the same request. -/
def Client.send (client : Client) (c : Context) (h : Headers) : Option Headers :=
  client.hooks.foldlM (fun h hook => hook.run c h) h

/-! ## The calls -/

/-- A dictionary of event hooks: its item `request`, which may be missing. -/
structure EventHooks where
  request : Option (List Hook)

/-- The arguments of a call: the service token, and which of the caller's dictionaries. -/
structure Call (ι : Type) where
  serviceToken : Option PyStr
  eventHooks : Option ι

/-- The dictionaries of the callers, and the clients that were built. -/
structure State (ι : Type) where
  dicts : ι → EventHooks
  clients : List Client

variable {ι : Type} [DecidableEq ι]

/-- `build_tenant_client`. -/
def buildTenantClient (s : State ι) (call : Call ι) : State ι :=
  let hook := Hook.tenant call.serviceToken
  match call.eventHooks with
  | none => { s with clients := s.clients ++ [⟨[hook]⟩] }
  | some d =>
    let requestHooks := (s.dicts d).request.getD [] ++ [hook]
    { dicts := Function.update s.dicts d ⟨some requestHooks⟩
      clients := s.clients ++ [⟨requestHooks⟩] }

/-- A sequence of calls. -/
def buildAll (dicts : ι → EventHooks) (calls : List (Call ι)) : State ι :=
  calls.foldl buildTenantClient ⟨dicts, []⟩

/-- The requests of the client carry the token, in the encoding of their headers, unless they bring
one with them. -/
def Client.Carries (client : Client) (serviceToken : Option PyStr) : Prop :=
  ∀ c h h', h.get? "X-Service-Token" = none → client.send c h = some h' →
    h'.get? "X-Service-Token" = (given serviceToken).bind h.encoding.encode

/-- The calls have left the dictionaries alone, and each client carries the token of its call. -/
structure Uncontaminated (dicts : ι → EventHooks) (calls : List (Call ι)) : Prop where
  unchanged : (buildAll dicts calls).dicts = dicts
  carries : ∀ (i : ℕ) (call : Call ι) (client : Client), calls[i]? = some call →
    (buildAll dicts calls).clients[i]? = some client → client.Carries call.serviceToken

/-! ## The token of a request -/

section Send

variable {name : String} {value : Option PyStr} {c : Context} {h h' : Headers}

lemma RawHeaders.get?_append_self {raw : RawHeaders} (hmiss : raw.get? name = none) (b : Bytes) :
    RawHeaders.get? (raw ++ [(utf8 name.toList, b)]) name = some b := by
  rw [get?, Option.map_eq_none_iff] at hmiss
  rw [get?, List.find?_append, hmiss]
  simp

lemma RawHeaders.get?_append_ne {raw : RawHeaders} {name' : String}
    (hne : lower (utf8 name.toList) ≠ lower (utf8 name'.toList)) (b : Bytes) :
    RawHeaders.get? (raw ++ [(utf8 name.toList, b)]) name' = raw.get? name' := by
  rw [get?, get?, List.find?_append]
  simp [hne]

/-- A missing header is set to the value that is given, if it can be encoded. -/
lemma setMissing_self (hset : setMissing name value h = some h') :
    h'.get? name = (h.get? name).or ((given value).bind h.encoding.encode) ∧
      (h.get? name = none → ∀ v ∈ given value, (h.encoding.encode v).isSome = true) := by
  unfold setMissing at hset
  cases hget : h.get? name with
  | some b =>
    rw [hget] at hset
    obtain rfl := Option.some.inj hset
    exact ⟨hget, fun h => by cases h⟩
  | none =>
    cases hv : given value with
    | none =>
      rw [hget, hv] at hset
      obtain rfl := Option.some.inj hset
      exact ⟨hget, fun _ v hv => by cases hv⟩
    | some v =>
      rw [hget, hv] at hset
      obtain ⟨b, hb, rfl⟩ := Option.map_eq_some_iff.mp hset
      have hself : Headers.get? ⟨h.raw ++ [(utf8 name.toList, b)], some h.encoding⟩ name = some b :=
        RawHeaders.get?_append_self hget b
      rw [hself]
      simp [hb]

/-- Setting a header keeps the encoding, and the other headers. -/
lemma setMissing_ne {n : String} (hset : setMissing name value h = some h') :
    h'.encoding = h.encoding ∧ (lower (utf8 name.toList) ≠ lower (utf8 n.toList) →
      h'.get? n = h.get? n) := by
  unfold setMissing at hset
  split at hset
  · obtain ⟨b, hb, rfl⟩ := Option.map_eq_some_iff.mp hset
    exact ⟨rfl, fun hne => RawHeaders.get?_append_ne hne b⟩
  · obtain rfl := Option.some.inj hset
    exact ⟨rfl, fun _ => rfl⟩

/-- The hook of a call sets the token of the call, where there is none. -/
lemma requestHook_token {serviceToken : Option PyStr}
    (hrun : requestHook serviceToken c h = some h') :
    h'.get? "X-Service-Token" =
        (h.get? "X-Service-Token").or ((given serviceToken).bind h.encoding.encode) ∧
      (h.get? "X-Service-Token" = none →
        ∀ v ∈ given serviceToken, (h.encoding.encode v).isSome = true) := by
  simp only [requestHook, Option.bind_eq_bind, Option.bind_eq_some_iff] at hrun
  obtain ⟨h₁, htenant, h₂, htoken, hrequest⟩ := hrun
  obtain ⟨hencoding, hbefore⟩ := setMissing_ne (n := "X-Service-Token") htenant
  obtain ⟨-, hafter⟩ := setMissing_ne (n := "X-Service-Token") hrequest
  rw [hafter (by decide), ← hbefore (by decide), ← hencoding]
  exact setMissing_self htoken

/-- The token of the first hook that has one. -/
def firstToken : List Hook → Option PyStr
  | [] => none
  | .caller _ :: l => firstToken l
  | .tenant serviceToken :: l => (given serviceToken).or (firstToken l)

/-- **A client sends the first token of its hooks**, in some encoding, unless the request brings one
with it. -/
theorem send_token {hooks : List Hook} (hsend : Client.send ⟨hooks⟩ c h = some h') :
    ∃ e : Encoding, h'.get? "X-Service-Token" =
      (h.get? "X-Service-Token").or ((firstToken hooks).bind e.encode) := by
  induction hooks generalizing h with
  | nil =>
    obtain rfl := Option.some.inj hsend
    exact ⟨.ascii, (Option.or_none).symm⟩
  | cons hook l ih =>
    obtain ⟨h₁, hrun, hrest⟩ := Option.bind_eq_some_iff.mp hsend
    obtain ⟨e, hfirst⟩ := ih hrest
    cases hook with
    | caller f => exact ⟨e, by rw [hfirst, f.keeps h h₁ hrun, firstToken]⟩
    | tenant serviceToken =>
      obtain ⟨htoken, hencode⟩ := requestHook_token hrun
      simp only [hfirst, htoken, firstToken]
      cases hv : given serviceToken with
      | none => exact ⟨e, by simp⟩
      | some v =>
        refine ⟨h.encoding, ?_⟩
        cases hget : h.get? "X-Service-Token" with
        | some b => simp
        | none =>
          obtain ⟨b, hb⟩ := Option.isSome_iff_exists.mp (hencode hget v hv)
          simp [hb]

/-- A client without hooks of its caller sends its own token. -/
lemma carries_tenant (serviceToken : Option PyStr) :
    Client.Carries ⟨[.tenant serviceToken]⟩ serviceToken := by
  intro c h h' hmiss hsend
  obtain ⟨h₁, hrun, hrest⟩ := Option.bind_eq_some_iff.mp hsend
  obtain rfl := Option.some.inj hrest
  have htoken := (requestHook_token hrun).1
  rwa [hmiss, Option.none_or] at htoken

end Send

/-! ## The hooks of a client -/

section Build

variable {dicts : ι → EventHooks} {calls : List (Call ι)} {d : ι}

/-- The hooks that the calls have put into a dictionary. -/
def added (d : ι) (calls : List (Call ι)) : List Hook :=
  (calls.filter fun call => call.eventHooks = some d).map fun call => .tenant call.serviceToken

/-- What the calls make of a dictionary. -/
def EventHooks.after (e : EventHooks) (hooks : List Hook) : EventHooks :=
  if hooks.isEmpty then e else ⟨some (e.request.getD [] ++ hooks)⟩

/-- The hooks of the client of the last of these calls. -/
def clientHooks (dicts : ι → EventHooks) (calls : List (Call ι)) (call : Call ι) : List Hook :=
  match call.eventHooks with
  | none => [.tenant call.serviceToken]
  | some d => (dicts d).request.getD [] ++ added d calls

lemma added_append (call : Call ι) : added d (calls ++ [call]) =
    added d calls ++ if call.eventHooks = some d then [.tenant call.serviceToken] else [] := by
  rw [added, List.filter_append, List.map_append]
  by_cases hd : call.eventHooks = some d
  · simp [added, hd]
  · simp [added, hd]

lemma EventHooks.after_request (e : EventHooks) (hooks : List Hook) :
    (e.after hooks).request.getD [] = e.request.getD [] ++ hooks := by
  cases hooks with
  | nil => exact (List.append_nil _).symm
  | cons hook l => rfl

lemma buildAll_append (call : Call ι) :
    buildAll dicts (calls ++ [call]) = buildTenantClient (buildAll dicts calls) call := by
  rw [buildAll, List.foldl_append]
  rfl

/-- **Each call that passes a dictionary adds its hook to it**, and no other call does. -/
theorem dicts_buildAll (d : ι) :
    (buildAll dicts calls).dicts d = (dicts d).after (added d calls) := by
  induction calls using List.reverseRecOn with
  | nil => rfl
  | append_singleton calls call ih =>
    rw [buildAll_append, added_append, buildTenantClient]
    cases he : call.eventHooks with
    | none => simpa using ih
    | some e =>
      by_cases hd : e = d
      · subst hd
        simp only [Function.update_self, if_true, ih, EventHooks.after_request, List.append_assoc]
        simp [EventHooks.after]
      · simp only [Option.some.injEq, hd, if_false, List.append_nil]
        rw [Function.update_of_ne (Ne.symm hd), ih]

lemma length_clients : (buildAll dicts calls).clients.length = calls.length := by
  induction calls using List.reverseRecOn with
  | nil => rfl
  | append_singleton calls call ih =>
    rw [buildAll_append, buildTenantClient]
    cases call.eventHooks <;> simp [ih]

/-- **A client has the hooks of the calls up to its own that passed the same dictionary.** -/
theorem clients_buildAll (i : ℕ) : (buildAll dicts calls).clients[i]? =
    calls[i]?.map fun call => ⟨clientHooks dicts (calls.take (i + 1)) call⟩ := by
  induction calls using List.reverseRecOn with
  | nil => rfl
  | append_singleton calls call ih =>
    have hlen : (buildAll dicts calls).clients.length = calls.length := length_clients
    have hclients : (buildAll dicts (calls ++ [call])).clients =
        (buildAll dicts calls).clients ++ [⟨clientHooks dicts (calls ++ [call]) call⟩] := by
      rw [buildAll_append, buildTenantClient, clientHooks]
      cases he : call.eventHooks with
      | none => rfl
      | some e =>
        simp only [dicts_buildAll, EventHooks.after_request, added_append, he, if_true,
          List.append_assoc]
    rw [hclients]
    rcases Nat.lt_trichotomy i calls.length with hi | hi | hi
    · have htake : (calls ++ [call]).take (i + 1) = calls.take (i + 1) :=
        List.take_append_of_le_length hi
      rw [List.getElem?_append_left (hlen ▸ hi), List.getElem?_append_left hi, ih, htake]
    · subst hi
      have htake : (calls ++ [call]).take (calls.length + 1) = calls ++ [call] :=
        List.take_of_length_le (by simp)
      rw [htake, List.getElem?_append_right hlen.le, List.getElem?_append_right le_rfl, hlen]
      simp
    · rw [List.getElem?_eq_none (by simp [hlen]; omega), List.getElem?_eq_none (by simp; omega)]
      rfl

/-! ## When the clients are not contaminated -/

lemma added_eq_nil : added d calls = [] ↔ ∀ call ∈ calls, call.eventHooks ≠ some d := by
  simp [added]

/-- A dictionary to which a hook was added is another one. -/
lemma EventHooks.after_eq_self {e : EventHooks} {hooks : List Hook} :
    e.after hooks = e ↔ hooks = [] := by
  constructor
  · intro h
    have hrequest := congrArg (fun e : EventHooks => e.request.getD []) h
    simp only [after_request] at hrequest
    exact List.append_right_eq_self.mp hrequest
  · rintro rfl
    rfl

/-- **The clients are not contaminated exactly if no call passes a dictionary.** -/
theorem uncontaminated_iff (dicts : ι → EventHooks) (calls : List (Call ι)) :
    Uncontaminated dicts calls ↔ ∀ call ∈ calls, call.eventHooks = none := by
  constructor
  · intro h call hcall
    cases hd : call.eventHooks with
    | none => rfl
    | some d =>
      have hsame := congrFun h.unchanged d
      rw [dicts_buildAll, EventHooks.after_eq_self, added_eq_nil] at hsame
      exact absurd hd (hsame call hcall)
  · intro hnone
    have hadded : ∀ d, added d calls = [] := fun d =>
      added_eq_nil.mpr fun call hcall => by rw [hnone call hcall]; simp
    refine ⟨funext fun d => ?_, fun i call client hcall hclient => ?_⟩
    · rw [dicts_buildAll, hadded]
      rfl
    · rw [clients_buildAll, hcall] at hclient
      obtain rfl := Option.some.inj hclient
      have hhooks : clientHooks dicts (calls.take (i + 1)) call = [.tenant call.serviceToken] := by
        rw [clientHooks, hnone call (List.mem_of_getElem? hcall)]
      show Client.Carries ⟨clientHooks dicts (calls.take (i + 1)) call⟩ call.serviceToken
      rw [hhooks]
      exact carries_tenant call.serviceToken

end Build

section Example

/-- Two calls with the same empty dictionary. -/
def sharingCalls : List (Call Unit) := [⟨some (text "t1"), some ()⟩, ⟨some (text "t2"), some ()⟩]

/-- The second client sends the token of the first call. -/
theorem shared_dict_contaminates :
    ¬ ∀ (dicts : Unit → EventHooks) (calls : List (Call Unit)), Uncontaminated dicts calls := by
  intro hall
  have hsend : Client.send ⟨[.tenant (some (text "t1")), .tenant (some (text "t2"))]⟩ ⟨none, none⟩
      ⟨[], none⟩ =
        some ⟨[(utf8 "X-Service-Token".toList, utf8 "t1".toList)], some .ascii⟩ := by
    decide +kernel
  have htoken := (hall (fun _ => ⟨some []⟩) sharingCalls).carries 1 ⟨some (text "t2"), some ()⟩
    ⟨[.tenant (some (text "t1")), .tenant (some (text "t2"))]⟩ rfl rfl ⟨none, none⟩
    ⟨[], none⟩ _ rfl hsend
  revert htoken
  decide +kernel

end Example

end Omkit.Httpclient
