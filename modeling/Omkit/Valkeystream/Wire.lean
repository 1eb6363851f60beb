import Omkit.Eventbus.Backends
import Omkit.Lib.Pointwise
import Omkit.Valkeystream

/-!
# Fields on the wire

What a producer adds is what a consumer reads, whether its client decodes replies or not, except
that a decoding client cannot hand over values that are not UTF-8.
-/

namespace Omkit.Valkeystream

open Lib Eventbus Eventbus.Redis

variable {wire : ℕ → String} {decoding : Bool}

/-- The bytes that a value is written as. -/
def bytesOf (v : Field) : Bytes := (encodeValue v).toOption.getD []

/-- The fields that a consumer is to read for the fields of an `add`. -/
def sent (fields : Dict PyStr Field) : Dict PyStr Bytes where
  items := fields.items.map fun p => (p.1, bytesOf p.2)
  nodup := by
    rw [List.map_map]
    exact fields.nodup

/-- An item, and how a producer writes it. -/
def Written (p : PyStr × Field) (q : Bytes × Bytes) : Prop :=
  encode p.1 = some q.1 ∧ encodeValue p.2 = .ok q.2

/-- An item as it is written, and how a client hands it over. -/
def Handed (decoding : Bool) (q : Bytes × Bytes) (p : Field × Field) : Prop :=
  hand decoding q.1 = .ok p.1 ∧ hand decoding q.2 = .ok p.2

/-- An item as a client hands it over, and what it is normalized to. -/
def Normal (p : Field × Field) (q : PyStr × Bytes) : Prop :=
  decodeName p.1 = .ok q.1 ∧ encodeValue p.2 = .ok q.2

/-! ## Items -/

/-- The normalized items are assigned one after another. -/
lemma normalizeItems_eq {items : List (Field × Field)} {l : List (PyStr × Bytes)}
    (h : List.Forall₂ Normal items l) (out : Dict PyStr Bytes) :
    normalizeItems items out = .ok (l.foldl (fun d p => d.set p.1 p.2) out) := by
  induction h generalizing out with
  | nil => rfl
  | cons hp hrest ih =>
    rename_i p q items l
    obtain ⟨k, v⟩ := p
    simp only [normalizeItems, hp.1, hp.2, bind, Except.bind, List.foldl_cons]
    exact ih _

/-- Every name of an entry that is normalized can be decoded. -/
lemma decodeName_of_normalizeItems {items : List (Field × Field)} {out d : Dict PyStr Bytes}
    (h : normalizeItems items out = .ok d) : ∀ p ∈ items, ∃ s, decodeName p.1 = .ok s := by
  induction items generalizing out with
  | nil => simp
  | cons p items ih =>
    obtain ⟨k, v⟩ := p
    simp only [normalizeItems, bind, Except.bind] at h
    cases hk : decodeName k with
    | error e => simp [hk] at h
    | ok s =>
      cases hv : encodeValue v with
      | error e => simp [hk, hv] at h
      | ok b =>
        simp only [hk, hv] at h
        intro p hp
        rcases List.mem_cons.mp hp with rfl | hp
        · exact ⟨s, hk⟩
        · exact ih h p hp

/-- The items that a producer writes. -/
lemma written_of_addFields {fields : Dict PyStr Field} {raw : Raw}
    (h : addFields fields = some raw) : List.Forall₂ Written fields.items raw := by
  rw [addFields] at h
  split_ifs at h
  generalize fields.items = items at h
  induction items generalizing raw with
  | nil =>
    obtain rfl : [] = raw := by simpa using h
    exact .nil
  | cons p items ih =>
    simp only [List.mapM_cons, Option.bind_eq_bind, Option.bind_eq_some_iff, Option.pure_def,
      Option.some.injEq] at h
    obtain ⟨q, ⟨k, hk, v, hv, rfl⟩, rest, hrest, rfl⟩ := h
    exact .cons ⟨hk, toOption_eq_some hv⟩ (ih hrest)

/-- The client hands over the items of an entry one by one. -/
lemma handItems_eq {raw : Raw} {items : List (Field × Field)}
    (h : List.Forall₂ (Handed decoding) raw items) : handItems decoding raw = .ok items := by
  induction h with
  | nil => rfl
  | cons hp hrest ih =>
    rename_i q p raw items
    obtain ⟨k, v⟩ := q
    simp only [handItems, hp.1, hp.2, ih, bind, Except.bind, pure, Except.pure]

/-- If the client fails on an item, it fails on the entry. -/
lemma handItems_ne_ok {raw : Raw} {q : Bytes × Bytes} (hq : q ∈ raw)
    (h : (∀ v, hand decoding q.1 ≠ .ok v) ∨ ∀ v, hand decoding q.2 ≠ .ok v)
    (items : List (Field × Field)) : handItems decoding raw ≠ .ok items := by
  induction raw generalizing items with
  | nil => simp at hq
  | cons q' raw ih =>
    obtain ⟨k, v⟩ := q'
    simp only [handItems, bind, Except.bind, pure, Except.pure]
    cases hk : hand decoding k with
    | error e => simp
    | ok k' =>
      cases hv : hand decoding v with
      | error e => simp
      | ok v' =>
        cases hrest : handItems decoding raw with
        | error e => simp
        | ok rest =>
          rcases List.mem_cons.mp hq with rfl | hq
          · rcases h with h | h
            · exact absurd hk (h _)
            · exact absurd hv (h _)
          · exact absurd hrest (ih hq rest)

/-- The only failure of a client. -/
lemma handItems_error {raw : Raw} {e : StdExc} (h : handItems decoding raw = .error e) :
    e = .unicodeDecodeError := by
  have hhand : ∀ b e, hand decoding b = .error e → e = .unicodeDecodeError := by
    intro b e hb
    cases decoding with
    | false => simp [hand] at hb
    | true =>
      cases hd : decode b with
      | none =>
        simp only [hand, if_true, decodeName, hd, Except.map, Except.error.injEq] at hb
        exact hb.symm
      | some s => simp [hand, decodeName, hd, Except.map] at hb
  induction raw with
  | nil => simp [handItems] at h
  | cons q raw ih =>
    obtain ⟨k, v⟩ := q
    simp only [handItems, bind, Except.bind, pure, Except.pure] at h
    cases hk : hand decoding k with
    | error e' =>
      simp only [hk, Except.error.injEq] at h
      exact h ▸ hhand k e' hk
    | ok k' =>
      cases hv : hand decoding v with
      | error e' =>
        simp only [hk, hv, Except.error.injEq] at h
        exact h ▸ hhand v e' hv
      | ok v' =>
        cases hrest : handItems decoding raw with
        | error e' =>
          simp only [hk, hv, hrest, Except.error.injEq] at h
          exact ih (h ▸ hrest)
        | ok rest => simp [hk, hv, hrest] at h

/-- What the server writes as an id comes back as its text. -/
lemma coerceId_hand (decoding : Bool) (w : String) : ∃ v, hand decoding (utf8 w.toList) = .ok v ∧
    coerceId v = .ok (text w) := by
  have hd : decode (utf8 w.toList) = some (text w) := decode_encode (encode_text w)
  cases decoding with
  | false => exact ⟨_, rfl, by simp [coerceId, decodeName, hd]⟩
  | true => exact ⟨.text (text w), by simp [hand, decodeName, hd, Except.map], rfl⟩

/-! ## Round trip -/

/-- What a client hands over of the items that a producer has written, if it can. -/
lemma handed_of_written {items : List (PyStr × Field)} {raw : Raw}
    (h : List.Forall₂ Written items raw)
    (hd : ¬ (decoding = true ∧ ∃ q ∈ raw, decode q.2 = none)) :
    ∃ l, List.Forall₂ (Handed decoding) raw l ∧
      List.Forall₂ Normal l (items.map fun p => (p.1, bytesOf p.2)) := by
  induction h with
  | nil => exact ⟨[], .nil, .nil⟩
  | cons hp hrest ih =>
    rename_i p q items raw
    obtain ⟨l, hl₁, hl₂⟩ := ih fun hc => hd ⟨hc.1, hc.2.imp fun _ hq => ⟨.tail _ hq.1, hq.2⟩⟩
    have hk := decode_encode hp.1
    have hbytes : bytesOf p.2 = q.2 := by
      rw [bytesOf, hp.2]
      rfl
    cases decoding with
    | false =>
      refine ⟨(.bytes q.1, .bytes q.2) :: l, .cons ⟨rfl, rfl⟩ hl₁, ?_⟩
      refine .cons ⟨?_, ?_⟩ hl₂
      · simp [decodeName, hk]
      · show Except.ok q.2 = .ok (bytesOf p.2)
        rw [hbytes]
    | true =>
      cases hv : decode q.2 with
      | none => exact absurd ⟨rfl, q, by simp, hv⟩ hd
      | some t =>
        refine ⟨(.text p.1, .text t) :: l, .cons ⟨?_, ?_⟩ hl₁, ?_⟩
        · simp [hand, decodeName, hk, Except.map]
        · simp [hand, decodeName, hv, Except.map]
        · refine .cons ⟨rfl, ?_⟩ hl₂
          simp [encodeValue, encode_of_decode hv, hbytes]

/-- Distinct names come from distinct fields. -/
lemma nodup_of_normal {l : List (Field × Field)} {m : List (PyStr × Bytes)}
    (h : List.Forall₂ Normal l m) (hm : (m.map Prod.fst).Nodup) : (l.map Prod.fst).Nodup := by
  induction h with
  | nil => exact .nil
  | cons hp hrest ih =>
    rename_i p q l m
    rw [List.map_cons, List.nodup_cons] at hm ⊢
    refine ⟨fun hmem => hm.1 ?_, ih hm.2⟩
    obtain ⟨p', hp', heq⟩ := List.mem_map.mp hmem
    obtain ⟨q', hq', hn⟩ := exists_right hrest hp'
    have hname : q'.1 = q.1 := Except.ok.inj (hn.1.symm.trans (heq ▸ hp.1))
    exact List.mem_map.mpr ⟨q', hq', hname⟩

/-- **What a producer adds is what a consumer reads**, with the same names in the same order and
the values as bytes, whichever way its client is configured.  The exception is a client that
decodes replies: it raises on a value that is not UTF-8. -/
theorem messageOf_addFields {fields : Dict PyStr Field} {raw : Raw}
    (h : addFields fields = some raw) (id : ℕ) :
    messageOf wire decoding ⟨id, raw⟩ =
      if decoding = true ∧ ∃ q ∈ raw, decode q.2 = none then .error .unicodeDecodeError
      else .ok ⟨text (wire id), sent fields⟩ := by
  have hw := written_of_addFields h
  obtain ⟨v, hv, hid⟩ := coerceId_hand decoding (wire id)
  split
  · next hd =>
    obtain ⟨rfl, q, hq, hnone⟩ := hd
    cases hitems : handItems true raw with
    | ok items =>
      refine absurd hitems (handItems_ne_ok hq (.inr fun v hv => ?_) items)
      simp [hand, decodeName, hnone, Except.map] at hv
    | error e =>
      obtain rfl := handItems_error hitems
      simp only [messageOf, pairOf, hv, hitems, bind, Except.bind]
  · next hd =>
    obtain ⟨l, hl, hl'⟩ := handed_of_written hw hd
    have hnodup := nodup_of_normal hl' (sent fields).nodup
    have hitems : (Dict.ofList l).items = l := Dict.items_ofList hnodup
    have hfields : normalizeFields (Dict.ofList l) = .ok (sent fields) := by
      rw [normalizeFields, hitems, normalizeItems_eq hl']
      have hsent : (Dict.ofList (sent fields).items).items = (sent fields).items :=
        Dict.items_ofList (sent fields).nodup
      refine congrArg Except.ok ?_
      show Dict.ofList (sent fields).items = sent fields
      generalize Dict.ofList (sent fields).items = d at hsent
      obtain ⟨items, hnd⟩ := d
      obtain rfl : items = (sent fields).items := hsent
      rfl
    simp only [messageOf, pairOf, messageFromPair, hv, handItems_eq hl, hid, hfields, bind,
      Except.bind, pure, Except.pure]

/-- A text and bytes that are not UTF-8. -/
def sampleFields : Dict PyStr Field :=
  Dict.ofList [(text "payload", .text (text "1")), (text "raw", .bytes [255])]

/-- `sampleFields` on the wire. -/
def sampleRaw : Raw := [(utf8 "payload".toList, utf8 "1".toList), (utf8 "raw".toList, [255])]

/-- Ids as the server writes those of entries with a millisecond each. -/
def sampleWire (id : ℕ) : String := toString id ++ "-0"

theorem messageOf_addFields_sample :
    messageOf sampleWire true ⟨1, sampleRaw⟩ = .error .unicodeDecodeError ∧
      messageOf sampleWire false ⟨1, sampleRaw⟩ =
        .ok ⟨text (sampleWire 1), sent sampleFields⟩ := by
  have h : addFields sampleFields = some sampleRaw := by decide
  have hbad : ∃ q ∈ sampleRaw, decode q.2 = none :=
    ⟨(utf8 "raw".toList, [255]), by simp [sampleRaw], by decide⟩
  exact ⟨(messageOf_addFields h 1).trans (if_pos ⟨rfl, hbad⟩),
    (messageOf_addFields h 1).trans (if_neg fun hc => Bool.noConfusion hc.1)⟩

/-! ## Entries that no consumer can read -/

/-- An entry with a name that is not UTF-8. -/
def Unreadable (x : Entry Raw) : Prop := ∃ q ∈ x.fields, decode q.1 = none

lemma messageOf_unreadable {x : Entry Raw} (hx : Unreadable x) (m : StreamMessage) :
    messageOf wire decoding x ≠ .ok m := by
  obtain ⟨q, hq, hnone⟩ := hx
  obtain ⟨v, hv, hid⟩ := coerceId_hand decoding (wire x.id)
  cases hitems : handItems decoding x.fields with
  | error e => simp [messageOf, pairOf, hv, hitems, bind, Except.bind]
  | ok items =>
    cases decoding with
    | true =>
      refine absurd hitems (handItems_ne_ok hq (.inl fun v hv => ?_) items)
      simp [hand, decodeName, hnone, Except.map] at hv
    | false =>
      have hkey : .bytes q.1 ∈ items.map Prod.fst := by
        generalize x.fields = raw at hq hitems
        induction raw generalizing items with
        | nil => simp at hq
        | cons q' raw ih =>
          obtain ⟨k, v⟩ := q'
          cases hrest : handItems false raw with
          | error e => simp [handItems, hand, hrest, bind, Except.bind] at hitems
          | ok rest =>
            obtain rfl : (.bytes k, .bytes v) :: rest = items := by
              simpa [handItems, hand, hrest, bind, Except.bind, pure, Except.pure] using hitems
            rcases List.mem_cons.mp hq with rfl | hq
            · simp
            · exact .tail _ (ih rest hq hrest)
      rw [← Dict.mem_keys_ofList] at hkey
      obtain ⟨w, hw⟩ := Dict.mem_keys.mp hkey
      cases hn : normalizeFields (Dict.ofList items) with
      | error e =>
        simp [messageOf, pairOf, messageFromPair, hv, hid, hitems, hn, bind, Except.bind, pure,
          Except.pure]
      | ok d =>
        obtain ⟨s, hs⟩ := decodeName_of_normalizeItems hn _ hw
        simp [decodeName, hnone] at hs

/-- A call that is to hand out an entry which no consumer can read raises. -/
lemma flatten_unreadable {l : List (Entry Raw)} {x : Entry Raw} (hx : x ∈ l) (hu : Unreadable x)
    (ms : List StreamMessage) : flatten wire decoding l ≠ .ok ms := by
  rw [flatten]
  exact mapM_ne_ok hx (messageOf_unreadable hu)

/-! ## The entries of the event bus -/

variable {F : Type} [JsonRuntime F]

/-- The fields of the `XADD` of a publish, as an argument of `StreamProducer.add`. -/
def textFields (l : List (PyStr × PyStr)) : Dict PyStr Field :=
  Dict.ofList (l.map fun p => (p.1, .text p.2))

lemma xaddFields_nodup {c : Call F} {l : List (PyStr × PyStr)} (hl : xaddFields c = some l) :
    (l.map Prod.fst).Nodup := by
  cases c with
  | publish topic payload =>
    obtain ⟨s, -, rfl⟩ := Option.map_eq_some_iff.mp hl
    simp
  | publishTenant tenantId topic payload =>
    obtain ⟨s, -, rfl⟩ := Option.map_eq_some_iff.mp hl
    have hne : text "tenant_id" ≠ text "payload" := by decide
    simp [hne]

/-- Texts, and how a producer writes them. -/
def WrittenText (p : PyStr × PyStr) (q : Bytes × Bytes) : Prop :=
  encode p.1 = some q.1 ∧ encode p.2 = some q.2

lemma writtenText_of_addFields {l : List (PyStr × PyStr)} (hl : (l.map Prod.fst).Nodup) {raw : Raw}
    (h : addFields (textFields l) = some raw) : List.Forall₂ WrittenText l raw := by
  have hw := written_of_addFields h
  rw [textFields, Dict.items_ofList (by simpa [Function.comp_def] using hl),
    List.forall₂_map_left_iff] at hw
  refine hw.imp fun p q hpq => ⟨hpq.1, ?_⟩
  have hv := hpq.2
  cases he : encode p.2 with
  | none => simp [encodeValue, he] at hv
  | some b => simpa [encodeValue, he] using hv

/-- A client hands texts over as the event bus expects them. -/
lemma handItems_text {l : List (PyStr × PyStr)} {raw : Raw} (h : List.Forall₂ WrittenText l raw)
    (decoding : Bool) : ∃ items, handItems decoding raw = .ok items ∧
      (l.mapM fun (p : PyStr × PyStr) => do
        let k ← arriveText decoding p.1
        let v ← arriveText decoding p.2
        pure (k, v)) = some items := by
  have hone : ∀ s b, encode s = some b → ∃ v, hand decoding b = .ok v ∧
      arriveText decoding s = some v := by
    intro s b hs
    have hd := decode_encode hs
    cases decoding with
    | false => exact ⟨.bytes b, rfl, by simp [arriveText, hs]⟩
    | true => exact ⟨.text s, by simp [hand, decodeName, hd, Except.map], by simp [arriveText, hs]⟩
  induction h with
  | nil => exact ⟨[], rfl, rfl⟩
  | cons hp hrest ih =>
    rename_i p q l raw
    obtain ⟨items, hitems, harrive⟩ := ih
    obtain ⟨k, hk, hk'⟩ := hone _ _ hp.1
    obtain ⟨v, hv, hv'⟩ := hone _ _ hp.2
    refine ⟨(k, v) :: items, ?_, ?_⟩
    · simp only [handItems, hk, hv, hitems, bind, Except.bind, pure, Except.pure]
    · rw [List.mapM_cons, harrive, hk', hv']
      rfl

/-- **The streams of `RedisEventBus` and of this module are the same streams.**  A consumer reads
the entry of a publish as the fields that were published, in UTF-8; and an entry that a producer
adds with these fields arrives at a subscription as the entry of that publish. -/
theorem published_entry {c : Call F} {l : List (PyStr × PyStr)} (hl : xaddFields c = some l)
    {raw : Raw} (hraw : addFields (textFields l) = some raw) (wire : ℕ → String) (decoding : Bool)
    (id : ℕ) :
    (∃ m, messageOf wire decoding ⟨id, raw⟩ = .ok m ∧
      List.Forall₂ (fun p q => p.1 = q.1 ∧ encode p.2 = some q.2) l m.fields.items) ∧
    ∃ item, pairOf wire decoding ⟨id, raw⟩ = .ok item ∧ arrive decoding l = some item.2 := by
  have hnodup := xaddFields_nodup hl
  have hw := writtenText_of_addFields hnodup hraw
  constructor
  · have hutf8 : ¬ (decoding = true ∧ ∃ q ∈ raw, decode q.2 = none) := by
      rintro ⟨-, q, hq, hnone⟩
      obtain ⟨p, -, hp⟩ := exists_left hw hq
      rw [decode_encode hp.2] at hnone
      cases hnone
    refine ⟨_, (messageOf_addFields hraw id).trans (if_neg hutf8), ?_⟩
    have hitems : (textFields l).items = l.map fun p => (p.1, .text p.2) := by
      rw [textFields, Dict.items_ofList (by simpa [Function.comp_def] using hnodup)]
    show List.Forall₂ _ l ((textFields l).items.map fun p => (p.1, bytesOf p.2))
    rw [hitems, List.map_map, List.forall₂_map_right_iff, List.forall₂_same]
    intro p hp
    obtain ⟨q, -, hq⟩ := exists_right hw hp
    refine ⟨rfl, ?_⟩
    simp [bytesOf, encodeValue, hq.2, Except.toOption]
  · obtain ⟨items, hitems, harrive⟩ := handItems_text hw decoding
    obtain ⟨v, hv, -⟩ := coerceId_hand decoding (wire id)
    refine ⟨(v, Dict.ofList items), ?_, ?_⟩
    · simp only [pairOf, hv, hitems, bind, Except.bind, pure, Except.pure]
    · exact Option.map_eq_some_iff.mpr ⟨items, harrive, rfl⟩

theorem published_entry_sample : ∃ m item,
    messageOf sampleWire true ⟨1, [(utf8 "payload".toList, utf8 "null".toList)]⟩ = .ok m ∧
    pairOf sampleWire true ⟨1, [(utf8 "payload".toList, utf8 "null".toList)]⟩ = .ok item ∧
    arrive true [(text "payload", text "null")] = some item.2 := by
  have hl : xaddFields (.publish (text "t") .null : Call Empty) =
      some [(text "payload", text "null")] := by decide
  have hraw : addFields (textFields [(text "payload", text "null")]) =
      some [(utf8 "payload".toList, utf8 "null".toList)] := by decide
  obtain ⟨⟨m, hm, -⟩, item, hitem, harrive⟩ := published_entry hl hraw sampleWire true 1
  exact ⟨m, item, hm, hitem, harrive⟩

end Omkit.Valkeystream
