import Omkit.Eventbus.Redis
import Omkit.Lib.Json.Literal

/-!
# The two event buses

The same call of `publish` or `publish_tenant` on either bus, and the event that either bus hands
to its subscribers for it.  The buses agree on the events of tenants.  A system event has the tenant
`None` on Redis and the nil UUID on Postgres.
-/

namespace Omkit.Eventbus

open Lib

variable {F : Type}

/-- The topic of a call. -/
def Call.topic : Call F → PyStr
  | .publish topic _ => topic
  | .publishTenant _ topic _ => topic

/-- The payload of a call. -/
def Call.payload : Call F → Json F
  | .publish _ payload => payload
  | .publishTenant _ _ payload => payload

/-- The tenant of a call; `none` for a system event. -/
def Call.tenant : Call F → Option PyStr
  | .publish _ _ => none
  | .publishTenant tenantId _ _ => if tenantId = [] then none else some tenantId

variable [JsonRuntime F]

/-- The calls of `publish_tenant` give an empty tenant or a canonical UUID. -/
def Call.Canonical [Postgres F] : Call F → Prop
  | .publish _ _ => True
  | .publishTenant tenantId _ _ => tenantId = [] ∨ Postgres.uuidText F tenantId = some tenantId

/-- The events that `PostgresEventBus` hands to a handler for a call. -/
def PostgresDelivers [Postgres F] (c : Call F) (e : Event F) : Prop :=
  ∃ v id now, c.insert = some v ∧ (Row.ofInsert id v now).event = .ok e

/-- The events that `RedisEventBus` hands to a handler for a call on a bus with the same prefix. -/
def RedisDelivers (c : Call F) (e : Event F) : Prop :=
  ∃ (b : Redis.Subscriber) (decoding : Bool) (l : List (PyStr × PyStr)) (m : Redis.Fields) (now : ℤ),
    b.streamPrefix ++ c.topic = b.stream ∧ Redis.xaddFields c = some l ∧
      Redis.arrive decoding l = some m ∧ Redis.eventOf b.topic now m = .ok e

lemma toOption_eq_some {ε α : Type} {r : Except ε α} {a : α} (h : r.toOption = some a) :
    r = .ok a := by
  cases r with
  | error err => cases h
  | ok b => exact congrArg Except.ok (Option.some.inj h)

/-! ## What Redis delivers -/

namespace Redis

lemma arriveText_eq_some {decoding : Bool} {s : PyStr} {v : Field}
    (h : arriveText decoding s = some v) :
    ∃ b, encode s = some b ∧ v = if decoding then .text s else .bytes b := by
  obtain ⟨b, hb, rfl⟩ := Option.map_eq_some_iff.mp h
  exact ⟨b, hb, rfl⟩

lemma encode_ne_nil {s : PyStr} {b : Bytes} (h : encode s = some b) : b ≠ [] ↔ s ≠ [] := by
  have hnil : encode [] = some [] := rfl
  exact (encode_eq_iff h hnil).not

/-- A field that the client hands over is decoded to the text that was sent. -/
lemma decodeRaw_of_arriveText {decoding : Bool} {s : PyStr} {v : Field}
    (h : arriveText decoding s = some v) : decodeRaw (some v) = .ok (some s) := by
  obtain ⟨b, hb, rfl⟩ := arriveText_eq_some h
  cases decoding with
  | true => rfl
  | false =>
    show decodeRaw (some (.bytes b)) = _
    simp [decodeRaw, decode_encode hb]

lemma truthy_of_arriveText {decoding : Bool} {s : PyStr} {v : Field}
    (h : arriveText decoding s = some v) : v.truthy = true ↔ s ≠ [] := by
  obtain ⟨b, hb, rfl⟩ := arriveText_eq_some h
  cases decoding with
  | true => simp [Field.truthy]
  | false => simpa [Field.truthy] using encode_ne_nil hb

/-- The name of a field as the client hands it over. -/
def nameOf (decoding : Bool) (name : String) : Field :=
  if decoding then .text (text name) else .bytes (utf8 name.toList)

lemma arriveText_text (decoding : Bool) (name : String) :
    arriveText decoding (text name) = some (nameOf decoding name) := by
  rw [arriveText, encode_text]
  rfl

/-- A field under its name, if there is no other under the other spelling of the name. -/
lemma rawField_of_get {m : Fields} {decoding : Bool} {name : String} {o : Option Field}
    (h : m.get? (nameOf decoding name) = o)
    (hother : m.get? (nameOf (!decoding) name) = none) :
    rawField m name = if decoding then o else o.filter Field.truthy := by
  cases decoding with
  | true =>
    simp only [nameOf, Bool.not_true, Bool.false_eq_true, if_false, if_true] at h hother ⊢
    simp [rawField, hother, h]
  | false =>
    simp only [nameOf, Bool.not_false, Bool.false_eq_true, if_false, if_true] at h hother ⊢
    cases o with
    | none => simp [rawField, hother, h]
    | some v => cases hv : v.truthy <;> simp [rawField, hother, h, hv, Option.filter]

/-- What is decoded of a field that was sent, up to the empty text. -/
lemma decodeRaw_rawField {m : Fields} {decoding : Bool} {name : String} {s : PyStr} {v : Field}
    (hv : arriveText decoding s = some v) (h : m.get? (nameOf decoding name) = some v)
    (hother : m.get? (nameOf (!decoding) name) = none) :
    ∃ o, decodeRaw (rawField m name) = .ok o ∧ (s ≠ [] → o = some s) ∧
      o.filter (· ≠ []) = if s = [] then none else some s := by
  rw [rawField_of_get h hother]
  have htruthy := truthy_of_arriveText hv
  by_cases hs : s = []
  · subst hs
    have hfalse : v.truthy = false := by simpa using htruthy
    cases decoding with
    | true => exact ⟨some [], decodeRaw_of_arriveText hv, by simp, by simp⟩
    | false => exact ⟨none, by simp [Option.filter, hfalse, decodeRaw], by simp, by simp⟩
  · have htrue : v.truthy = true := htruthy.mpr hs
    refine ⟨some s, ?_, by simp, by simp [hs]⟩
    rw [Option.filter_some, if_pos htrue, ite_self]
    exact decodeRaw_of_arriveText hv

lemma decodeRaw_rawField_none {m : Fields} {name : String} (decoding : Bool)
    (h : m.get? (nameOf decoding name) = none)
    (hother : m.get? (nameOf (!decoding) name) = none) : decodeRaw (rawField m name) = .ok none := by
  rw [rawField_of_get h hother]
  cases decoding <;> rfl

lemma nameOf_not (decoding : Bool) (name name' : String) :
    nameOf (!decoding) name ≠ nameOf decoding name' := by
  cases decoding <;> simp [nameOf]

lemma nameOf_payload_ne (decoding : Bool) :
    nameOf decoding "payload" ≠ nameOf decoding "tenant_id" := by
  cases decoding <;> decide

/-- The field map of a system event. -/
lemma arrive_payload {decoding : Bool} {s : PyStr} {m : Fields}
    (h : arrive decoding [(text "payload", s)] = some m) :
    ∃ v, arriveText decoding s = some v ∧ m.get? (nameOf decoding "payload") = some v ∧
      (∀ name, m.get? (nameOf (!decoding) name) = none) ∧
      m.get? (nameOf decoding "tenant_id") = none := by
  obtain ⟨items, hitems, rfl⟩ := Option.map_eq_some_iff.mp h
  simp only [List.mapM_cons, List.mapM_nil, arriveText_text, Option.bind_eq_bind, Option.pure_def,
    Option.bind_some] at hitems
  cases hv : arriveText decoding s with
  | none => simp [hv] at hitems
  | some v =>
    obtain rfl : [(nameOf decoding "payload", v)] = items := by simpa [hv] using hitems
    refine ⟨v, rfl, by simp [Dict.ofList], fun name => ?_, ?_⟩
    · simp [Dict.ofList, Dict.get?_set, nameOf_not]
    · simp [Dict.ofList, Dict.get?_set, (nameOf_payload_ne decoding).symm]

/-- The field map of a call of `publish_tenant`. -/
lemma arrive_tenant {decoding : Bool} {t s : PyStr} {m : Fields}
    (h : arrive decoding [(text "tenant_id", t), (text "payload", s)] = some m) :
    ∃ w v, arriveText decoding t = some w ∧ arriveText decoding s = some v ∧
      m.get? (nameOf decoding "payload") = some v ∧
      (∀ name, m.get? (nameOf (!decoding) name) = none) ∧
      m.get? (nameOf decoding "tenant_id") = some w := by
  obtain ⟨items, hitems, rfl⟩ := Option.map_eq_some_iff.mp h
  simp only [List.mapM_cons, List.mapM_nil, arriveText_text, Option.bind_eq_bind, Option.pure_def,
    Option.bind_some] at hitems
  cases hw : arriveText decoding t with
  | none => simp [hw] at hitems
  | some w =>
    cases hv : arriveText decoding s with
    | none => simp [hw, hv] at hitems
    | some v =>
      obtain rfl : [(nameOf decoding "tenant_id", w), (nameOf decoding "payload", v)] = items := by
        simpa [hw, hv] using hitems
      refine ⟨w, v, rfl, rfl, by simp [Dict.ofList], fun name => ?_, ?_⟩
      · simp [Dict.ofList, Dict.get?_set, nameOf_not]
      · simp [Dict.ofList, Dict.get?_set, (nameOf_payload_ne decoding).symm]

lemma dumps_ne_nil {v : Json F} {s : PyStr} (h : dumps .default v = .ok s) : s ≠ [] := by
  obtain ⟨-, rfl⟩ := dumps_eq_ok.mp h
  exact List.length_pos_iff.mp (render_length_pos _ v)

/-- The parts of an event that is built from an entry. -/
lemma eventOf_eq_ok {topic : PyStr} {now : ℤ} {m : Fields} {e : Event F} {s : PyStr}
    {tenantRaw : Option PyStr} (hp : decodeRaw (rawField m "payload") = .ok (some s))
    (ht : decodeRaw (rawField m "tenant_id") = .ok tenantRaw) (h : eventOf topic now m = .ok e) :
    e.topic = topic ∧ loads s = .ok e.payload ∧ e.tenantId = tenantRaw.filter (· ≠ []) := by
  cases hv : loads (F := F) s with
  | error err =>
    simp [eventOf, decodeFields, hp, ht, loadsRaw, hv, bind, Except.bind, Except.map] at h
  | ok v =>
    have hdec : decodeFields m = .ok (v, tenantRaw.filter (· ≠ [])) := by
      simp only [decodeFields, hp, ht, loadsRaw, hv, bind, Except.bind, pure, Except.pure]
    rw [eventOf, hdec] at h
    obtain rfl := Except.ok.inj h
    exact ⟨rfl, rfl, rfl⟩

end Redis

/-- **What Redis delivers**: the payload as it was written, and the tenant of the call. -/
theorem RedisDelivers.spec {c : Call F} {e : Event F} (h : RedisDelivers c e) :
    e.topic = c.topic ∧ e.tenantId = c.tenant ∧
      ∃ s, dumps .default c.payload = .ok s ∧ loads s = .ok e.payload := by
  obtain ⟨b, decoding, l, m, now, hb, hl, hm, he⟩ := h
  have htopic : b.topic = c.topic := (List.append_cancel_left hb).symm
  cases c with
  | publish topic payload =>
    obtain ⟨s, hs, rfl⟩ := Option.map_eq_some_iff.mp hl
    have hdumps := toOption_eq_some hs
    obtain ⟨v, hv, hget, hother, hnone⟩ := Redis.arrive_payload hm
    obtain ⟨o, ho, hsome, -⟩ := Redis.decodeRaw_rawField hv hget (hother _)
    rw [hsome (Redis.dumps_ne_nil hdumps)] at ho
    have ht := Redis.decodeRaw_rawField_none decoding hnone (hother _)
    obtain ⟨h₁, h₂, h₃⟩ := Redis.eventOf_eq_ok ho ht he
    exact ⟨h₁.trans htopic, h₃, s, hdumps, h₂⟩
  | publishTenant tenantId topic payload =>
    obtain ⟨s, hs, rfl⟩ := Option.map_eq_some_iff.mp hl
    have hdumps := toOption_eq_some hs
    obtain ⟨w, v, hw, hv, hget, hother, htenant⟩ := Redis.arrive_tenant hm
    obtain ⟨o, ho, hsome, -⟩ := Redis.decodeRaw_rawField hv hget (hother _)
    rw [hsome (Redis.dumps_ne_nil hdumps)] at ho
    obtain ⟨o', ht, -, hfilter⟩ := Redis.decodeRaw_rawField hw htenant (hother _)
    obtain ⟨h₁, h₂, h₃⟩ := Redis.eventOf_eq_ok ho ht he
    exact ⟨h₁.trans htopic, h₃.trans hfilter, s, hdumps, h₂⟩

/-! ## What Postgres delivers -/

variable [Postgres F]

lemma insertEvent_eq_some {tenantId topic : PyStr} {payload : Json F}
    {v : PyStr × PyStr × Column F} (h : insertEvent tenantId topic payload = some v) :
    ∃ s t col, dumps .default payload = .ok s ∧ Postgres.uuidText F tenantId = some t ∧
      Postgres.jsonb s = some col ∧ v = (t, topic, col) := by
  obtain ⟨s, hs, h⟩ := Option.bind_eq_some_iff.mp h
  obtain ⟨t, ht, h⟩ := Option.bind_eq_some_iff.mp h
  obtain ⟨col, hcol, h⟩ := Option.bind_eq_some_iff.mp h
  exact ⟨s, t, col, toOption_eq_some hs, ht, hcol, (Option.some.inj h).symm⟩

/-- Every call inserts an event, of its tenant or of the nil UUID. -/
lemma Call.insert_eq (c : Call F) :
    c.insert = insertEvent (c.tenant.getD nilTenantId) c.topic c.payload := by
  cases c with
  | publish topic payload => rfl
  | publishTenant tenantId topic payload =>
    show Eventbus.publishTenant tenantId topic payload = _
    by_cases ht : tenantId = []
    · simp [Eventbus.publishTenant, Eventbus.publish, Call.tenant, Call.topic, Call.payload, ht]
    · simp [Eventbus.publishTenant, Call.tenant, Call.topic, Call.payload, ht]

/-- **What Postgres delivers**: always an event with a tenant. -/
theorem PostgresDelivers.spec {c : Call F} {e : Event F} (h : PostgresDelivers c e) :
    e.topic = c.topic ∧
      (∃ t, e.tenantId = some t ∧
        Postgres.uuidText F (c.tenant.getD nilTenantId) = some t) ∧
      ∃ s col, dumps .default c.payload = .ok s ∧ Postgres.jsonb s = some col ∧
        parsePayload col = .ok e.payload := by
  obtain ⟨v, id, now, hv, he⟩ := h
  rw [Call.insert_eq] at hv
  obtain ⟨s, t, col, hs, ht, hcol, rfl⟩ := insertEvent_eq_some hv
  cases hp : parsePayload col with
  | error err => simp [Row.event, Row.ofInsert, hp, bind, Except.bind] at he
  | ok payload =>
    obtain rfl : _ = e := by
      simpa [Row.event, Row.ofInsert, hp, bind, Except.bind, pure, Except.pure] using he
    exact ⟨rfl, ⟨t, rfl, ht⟩, s, col, hs, hcol, hp⟩

end Omkit.Eventbus
