import Omkit.Lib.Json.RoundTrip

/-!
# JSON documents as byte strings

With `ensure_ascii` a document is printable ASCII, so it can be encoded, the decoder guesses its
encoding right, and what comes back is the value that was written.
-/

namespace Omkit.Lib

variable {F : Type} [JsonRuntime F]

/-! ## Printable text -/

/-- A printable ASCII character. -/
def Printable (x : PyChar) : Prop := ∃ c, x = .scalar c ∧ 0x20 ≤ c.toNat ∧ c.toNat < 0x7f

/-- Separators of printable characters, and everything outside ASCII escaped. -/
structure DumpOpts.Ascii (o : DumpOpts) : Prop where
  item : ∀ x ∈ o.itemSep, Printable x
  key : ∀ x ∈ o.keySep, Printable x
  ensureAscii : o.ensureAscii = true

lemma printable_scalar {c : Char} (h : 0x20 ≤ c.toNat ∧ c.toNat < 0x7f) : Printable (.scalar c) :=
  ⟨c, rfl, h⟩

lemma printable_text {s : String}
    (h : (s.toList.all fun c => 0x20 ≤ c.toNat && c.toNat < 0x7f) = true) :
    ∀ x ∈ text s, Printable x := by
  intro x hx
  obtain ⟨c, hc, rfl⟩ := List.mem_map.mp hx
  exact printable_scalar (by simpa using List.all_eq_true.mp h c hc)

lemma DumpOpts.default_ascii : DumpOpts.default.Ascii :=
  ⟨printable_text (by decide), printable_text (by decide), rfl⟩

lemma DumpOpts.compact_ascii : DumpOpts.compact.Ascii :=
  ⟨printable_text (by decide), printable_text (by decide), rfl⟩

lemma printable_of_isDigit {x : PyChar} (hx : isDigit x = true) : Printable x := by
  cases x with
  | surrogate k => simp [isDigit] at hx
  | scalar c =>
    refine printable_scalar ?_
    simp only [isDigit, Char.isDigit, Bool.and_eq_true, decide_eq_true_eq, ge_iff_le,
      UInt32.le_iff_toNat_le] at hx
    have h₀ : ('0' : Char).val.toNat = 48 := rfl
    have h₉ : ('9' : Char).val.toNat = 57 := rfl
    show 0x20 ≤ c.val.toNat ∧ c.val.toNat < 0x7f
    omega

lemma printable_natLit {s : PyStr} (hs : NatLit s) : ∀ x ∈ s, Printable x := by
  rcases hs with rfl | ⟨c, r, rfl, hc, -, hr⟩
  · intro x hx
    obtain rfl : x = .scalar '0' := by simpa using hx
    exact printable_scalar (by decide)
  · intro x hx
    rcases List.mem_cons.mp hx with rfl | hx
    · exact printable_of_isDigit (x := .scalar c) hc
    · exact printable_of_isDigit (hr x hx)

lemma printable_intLit {s : PyStr} (hs : IntLit s) : ∀ x ∈ s, Printable x := by
  rcases hs with hs | ⟨t, rfl, ht⟩
  · exact printable_natLit hs
  · intro x hx
    rcases List.mem_cons.mp hx with rfl | hx
    · exact printable_scalar (by decide)
    · exact printable_natLit ht x hx

lemma printable_floatLit {s : PyStr} (hs : FloatLit s) : ∀ x ∈ s, Printable x := by
  obtain ⟨ip, fp, ep, rfl, hi, hf, he, -⟩ := hs
  intro x hx
  rcases List.mem_append.mp hx with hx | hx
  · exact printable_intLit hi x hx
  rcases List.mem_append.mp hx with hx | hx
  · rcases hf with rfl | ⟨y, r, rfl, hy, hr⟩
    · simp at hx
    · simp only [List.mem_cons] at hx
      rcases hx with rfl | rfl | hx
      · exact printable_scalar (by decide)
      · exact printable_of_isDigit hy
      · exact printable_of_isDigit (hr x hx)
  · rcases he with rfl | ⟨e, sgn, y, r, rfl, he, hs, hy, hr⟩
    · simp at hx
    · simp only [List.mem_cons, List.mem_append] at hx
      rcases hx with rfl | hx | rfl | hx
      · rcases he with rfl | rfl <;> exact printable_scalar (by decide)
      · rcases hs with rfl | rfl | rfl
        · simp at hx
        · obtain rfl : x = .scalar '+' := by simpa using hx
          exact printable_scalar (by decide)
        · obtain rfl : x = .scalar '-' := by simpa using hx
          exact printable_scalar (by decide)
      · exact printable_of_isDigit hy
      · exact printable_of_isDigit (hr x hx)

lemma printable_hexDigit : ∀ d < 16, Printable (hexDigit d) := by
  intro d hd
  refine printable_scalar ?_
  revert d
  decide

lemma printable_uEscape (u : ℕ) : ∀ x ∈ uEscape u, Printable x := by
  have h : ∀ n, Printable (hexDigit (n % 16)) :=
    fun n => printable_hexDigit _ (Nat.mod_lt _ (by norm_num))
  intro x hx
  simp only [uEscape, List.mem_cons, List.not_mem_nil, or_false] at hx
  rcases hx with rfl | rfl | rfl | rfl | rfl | rfl
  · exact printable_scalar (by decide)
  · exact printable_scalar (by decide)
  all_goals exact h _

lemma printable_shortEscape {c e : Char} (h : shortEscape c = some e) : Printable (.scalar e) := by
  unfold shortEscape at h
  refine printable_scalar ?_
  split_ifs at h <;> obtain rfl := Option.some.inj h <;> decide

lemma printable_escapeChar (x : PyChar) : ∀ y ∈ escapeChar true x, Printable y := by
  intro y hy
  cases x with
  | surrogate k => exact printable_uEscape _ y hy
  | scalar c =>
    simp only [escapeChar] at hy
    cases hs : shortEscape c with
    | some e =>
      simp only [hs, List.mem_cons, List.not_mem_nil, or_false] at hy
      rcases hy with rfl | rfl
      · exact printable_scalar (by decide)
      · exact printable_shortEscape hs
    | none =>
      simp only [hs] at hy
      split_ifs at hy with h₁ h₂
      · exact printable_uEscape _ y hy
      · rcases List.mem_append.mp hy with hy | hy
        · exact printable_uEscape _ y hy
        · exact printable_uEscape _ y hy
      · obtain rfl : y = .scalar c := by simpa using hy
        refine printable_scalar ?_
        simp only [true_and, not_or, not_lt] at h₁
        omega

lemma printable_strText (s : PyStr) : ∀ x ∈ strText true s, Printable x := by
  intro x hx
  simp only [strText, List.mem_cons, List.mem_append, List.mem_flatMap, List.not_mem_nil,
    or_false] at hx
  rcases hx with rfl | ⟨y, -, hy⟩ | rfl
  · exact printable_scalar (by decide)
  · exact printable_escapeChar y x hy
  · exact printable_scalar (by decide)

mutual

/-- With `ensure_ascii` the text of a value is printable ASCII. -/
lemma printable_render {o : DumpOpts} (ho : o.Ascii) (v : Json F) :
    ∀ x ∈ render o v, Printable x := by
  match v with
  | .null => exact printable_text (by decide)
  | .bool true => exact printable_text (by decide)
  | .bool false => exact printable_text (by decide)
  | .int n => exact printable_intLit (intLit_intText n)
  | .float x => exact printable_floatLit (JsonRuntime.floatRepr_lit x)
  | .nonFinite k => cases k <;> exact printable_text (by decide)
  | .str s =>
    rw [render, ho.ensureAscii]
    exact printable_strText s
  | .arr [] => exact printable_text (by decide)
  | .obj [] => exact printable_text (by decide)
  | .arr (v :: l) =>
    intro x hx
    simp only [render, List.mem_cons, List.mem_append] at hx
    rcases hx with rfl | hx | hx
    · exact printable_scalar (by decide)
    · exact printable_render ho v x hx
    · exact printable_renderItems ho l x hx
  | .obj (m :: l) =>
    intro x hx
    simp only [render, ho.ensureAscii, List.mem_cons, List.mem_append] at hx
    rcases hx with rfl | hx | hx | hx | hx
    · exact printable_scalar (by decide)
    · exact printable_strText _ x hx
    · exact ho.key x hx
    · exact printable_render ho m.2 x hx
    · exact printable_renderMembers ho l x hx

lemma printable_renderItems {o : DumpOpts} (ho : o.Ascii) (l : List (Json F)) :
    ∀ x ∈ renderItems o l, Printable x := by
  intro x hx
  match l with
  | [] =>
    obtain rfl : x = .scalar ']' := by simpa [renderItems] using hx
    exact printable_scalar (by decide)
  | v :: l =>
    simp only [renderItems, List.mem_append] at hx
    rcases hx with hx | hx | hx
    · exact ho.item x hx
    · exact printable_render ho v x hx
    · exact printable_renderItems ho l x hx

lemma printable_renderMembers {o : DumpOpts} (ho : o.Ascii) (l : List (PyStr × Json F)) :
    ∀ x ∈ renderMembers o l, Printable x := by
  intro x hx
  match l with
  | [] =>
    obtain rfl : x = .scalar '\x7d' := by simpa [renderMembers] using hx
    exact printable_scalar (by decide)
  | m :: l =>
    simp only [renderMembers, ho.ensureAscii, List.mem_append] at hx
    rcases hx with hx | hx | hx | hx | hx
    · exact ho.item x hx
    · exact printable_strText _ x hx
    · exact ho.key x hx
    · exact printable_render ho m.2 x hx
    · exact printable_renderMembers ho l x hx

end

/-! ## Encoding and decoding -/

lemma utf8EncodeChar_ascii {c : Char} (h : c.toNat < 0x80) :
    String.utf8EncodeChar c = [c.toNat.toUInt8] := by
  rw [String.utf8EncodeChar, if_pos (show c.val.toNat ≤ 0x7f by change c.val.toNat < 0x80 at h; omega)]
  rfl

/-- What was encoded is decoded, whatever fuel beyond its length there is. -/
lemma decodeUtf8Pass_utf8 (l : List Char) (fuel : ℕ) (hf : l.length ≤ fuel) :
    decodeUtf8Pass (utf8 l) fuel = some (l.map PyChar.scalar) := by
  induction l generalizing fuel with
  | nil => cases fuel <;> simp [decodeUtf8Pass, utf8]
  | cons c l ih =>
    obtain ⟨fuel, rfl⟩ : ∃ n, fuel = n + 1 := ⟨fuel - 1, by simp at hf; omega⟩
    have hcons : utf8 (c :: l) = String.utf8EncodeChar c ++ utf8 l := by simp [utf8]
    have hne : utf8 (c :: l) ≠ [] := by simp [hcons, String.utf8EncodeChar_ne_nil]
    have hdec : (utf8 (c :: l)).toByteArray.utf8DecodeChar? 0 = some c := by
      rw [hcons, List.toByteArray_append]
      exact ByteArray.utf8DecodeChar?_utf8EncodeChar_append
    have hdrop : (utf8 (c :: l)).drop c.utf8Size = utf8 l := by
      rw [hcons, ← String.length_utf8EncodeChar, List.drop_left]
    rw [decodeUtf8Pass.eq_def]
    simp only [if_neg hne, hdec, hdrop, ih fuel (by simpa using hf), Option.map_some, List.map_cons]

lemma printable_wellFormed {s : PyStr} (h : ∀ x ∈ s, Printable x) :
    ∃ l : List Char, s = l.map PyChar.scalar ∧ ∀ c ∈ l, 0x20 ≤ c.toNat ∧ c.toNat < 0x7f := by
  induction s with
  | nil => exact ⟨[], rfl, by simp⟩
  | cons x s ih =>
    obtain ⟨c, rfl, hc⟩ := h x List.mem_cons_self
    obtain ⟨l, rfl, hl⟩ := ih fun y hy => h y (List.mem_cons_of_mem _ hy)
    exact ⟨c :: l, rfl, fun e he => by
      rcases List.mem_cons.mp he with rfl | he
      · exact hc
      · exact hl e he⟩

lemma utf8_ascii {l : List Char} (h : ∀ c ∈ l, 0x20 ≤ c.toNat ∧ c.toNat < 0x7f) :
    ∀ b ∈ utf8 l, 0x20 ≤ b.toNat ∧ b.toNat < 0x7f := by
  intro b hb
  obtain ⟨c, hc, hb⟩ := List.mem_flatMap.mp hb
  have hcl := h c hc
  rw [utf8EncodeChar_ascii (by omega), List.mem_singleton] at hb
  subst hb
  have : c.toNat.toUInt8.toNat = c.toNat := Nat.mod_eq_of_lt (by omega)
  omega

/-- Bytes of printable ASCII are taken for UTF-8. -/
lemma detectEncoding_ascii {b : Bytes} (h : ∀ x ∈ b, 0x20 ≤ x.toNat ∧ x.toNat < 0x7f) :
    detectEncoding b = .utf8 := by
  have hne : ∀ x ∈ b, x ≠ 0 ∧ (0 == x) = false ∧ (0xff == x) = false ∧ (0xfe == x) = false ∧
      (0xef == x) = false := by
    intro x hx
    have := h x hx
    simp only [beq_eq_false_iff_ne]
    refine ⟨?_, ?_, ?_, ?_, ?_⟩ <;> rintro rfl <;> revert this <;> decide
  match b with
  | [] => rfl
  | [x] =>
    have hx := hne x (by simp)
    simp [detectEncoding, List.isPrefixOf, hx]
  | [x, y] =>
    have hx := hne x (by simp)
    have hy := hne y (by simp)
    simp [detectEncoding, List.isPrefixOf, hx, hy]
  | [x, y, z] =>
    have hx := hne x (by simp)
    simp [detectEncoding, List.isPrefixOf, hx]
  | x :: y :: z :: w :: r =>
    have hx := hne x (by simp)
    have hy := hne y (by simp)
    simp [detectEncoding, List.isPrefixOf, hx, hy]

lemma length_le_utf8 (l : List Char) : l.length ≤ (utf8 l).length := by
  induction l with
  | nil => simp
  | cons c l ih =>
    have hpos : 0 < (String.utf8EncodeChar c).length :=
      List.length_pos_iff.mpr String.utf8EncodeChar_ne_nil
    simp only [utf8, List.flatMap_cons, List.length_append, List.length_cons] at ih ⊢
    omega

/-- **A document written with `ensure_ascii` can be encoded, and is read back from its bytes.** -/
theorem loadsBytes_dumps {o : DumpOpts} (ho : o.Ok) (ha : o.Ascii) {v : Json F} {s : PyStr}
    (hs : dumps o v = .ok s) :
    ∃ b, encode s = some b ∧ loadsBytes b = .ok (readBack true v) := by
  obtain ⟨hc, rfl⟩ := dumps_eq_ok.mp hs
  obtain ⟨l, hl, hp⟩ := printable_wellFormed (printable_render ha v)
  refine ⟨utf8 l, by rw [hl, encode_map_scalar], ?_⟩
  rw [loadsBytes, detectEncoding_ascii (utf8_ascii hp)]
  simp only [decodeAs, decodeUtf8Pass_utf8 l _ (length_le_utf8 l), ← hl]
  rw [decodeDocument_render ho hc, ha.ensureAscii]

end Omkit.Lib
