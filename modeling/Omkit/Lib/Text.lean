import Mathlib.Data.List.Basic
import Mathlib.Data.List.Infix
import Mathlib.Logic.Function.Basic

/-!
# Text and bytes

A character of a Python string is any code point, the surrogates included; only a string without
surrogates can be encoded.  The encoding itself is the UTF-8 of the standard library, so what is
shown here is how it acts on strings: it is injective, and it is additive.
-/

namespace Omkit.Lib

/-- A code point: a Unicode scalar value, or one of the 2048 surrogates. -/
inductive PyChar
  | scalar (c : Char)
  | surrogate (k : Fin 2048)
deriving DecidableEq, Repr

/-- A string, as a list of code points. -/
abbrev PyStr := List PyChar

instance : LawfulBEq PyStr := inferInstance

/-- A byte string. -/
abbrev Bytes := List UInt8

/-- The string of a literal. -/
def text (s : String) : PyStr := s.toList.map PyChar.scalar

namespace PyChar

/-- The scalar value of a code point, if it has one. -/
def toChar? : PyChar → Option Char
  | scalar c => some c
  | surrogate _ => none

lemma toChar?_eq_some {x : PyChar} {c : Char} : x.toChar? = some c ↔ x = scalar c := by
  cases x <;> simp [toChar?]

end PyChar

/-- The UTF-8 bytes of a list of scalar values. -/
def utf8 (l : List Char) : Bytes := l.flatMap String.utf8EncodeChar

/-- `s.encode()`: `none` is the `UnicodeEncodeError` of a surrogate. -/
def encode (s : PyStr) : Option Bytes := (s.mapM PyChar.toChar?).map utf8

/-- `b.decode()`: `none` is the `UnicodeDecodeError` of bytes that are not UTF-8. -/
def decode (b : Bytes) : Option PyStr :=
  b.toByteArray.utf8Decode?.map fun a => a.toList.map PyChar.scalar

/-- `s.encode("ascii")`: `none` is a `UnicodeEncodeError`. -/
def encodeAscii (s : PyStr) : Option Bytes :=
  s.mapM fun x => match x with
    | .scalar c => if c.toNat < 128 then some (UInt8.ofNat c.toNat) else none
    | .surrogate _ => none

/-- `b.decode("ascii")`: `none` is a `UnicodeDecodeError`. -/
def decodeAscii (b : Bytes) : Option PyStr :=
  b.mapM fun x => if x.toNat < 128 then some (.scalar (Char.ofNat x.toNat)) else none

/-! ## The encoding of scalar values -/

@[simp] lemma utf8_append (l m : List Char) : utf8 (l ++ m) = utf8 l ++ utf8 m := by
  simp [utf8]

lemma utf8_toByteArray (l : List Char) : (utf8 l).toByteArray = l.utf8Encode := rfl

theorem utf8_injective : Function.Injective utf8 := by
  intro l m h
  have hb : l.utf8Encode = m.utf8Encode := by rw [← utf8_toByteArray, h, utf8_toByteArray]
  have hd := List.utf8Decode?_utf8Encode (l := l)
  rw [hb, List.utf8Decode?_utf8Encode] at hd
  simpa using hd.symm

/-- The length of the encoding does not depend on the order of the characters. -/
lemma utf8_length_perm {l m : List Char} (h : l.Perm m) : (utf8 l).length = (utf8 m).length :=
  (h.flatMap_right _).length_eq

/-! ## Strings that can be encoded -/

/-- A string without surrogates. -/
def WellFormed (s : PyStr) : Prop := ∃ l : List Char, s = l.map PyChar.scalar

lemma mapM_toChar? {s : PyStr} {l : List Char} :
    s.mapM PyChar.toChar? = some l ↔ s = l.map PyChar.scalar := by
  induction s generalizing l with
  | nil => cases l <;> simp
  | cons x s ih =>
    simp only [List.mapM_cons, Option.pure_def, Option.bind_eq_bind, Option.bind_eq_some_iff,
      Option.some.injEq, PyChar.toChar?_eq_some, ih]
    constructor
    · rintro ⟨c, rfl, m, rfl, rfl⟩
      rfl
    · intro h
      cases l with
      | nil => simp at h
      | cons c m =>
        simp only [List.map_cons, List.cons.injEq] at h
        exact ⟨c, h.1, m, h.2, rfl⟩

lemma encode_eq_some {s : PyStr} {b : Bytes} :
    encode s = some b ↔ ∃ l : List Char, s = l.map PyChar.scalar ∧ b = utf8 l := by
  simp [encode, mapM_toChar?, eq_comm]

@[simp] lemma encode_map_scalar (l : List Char) : encode (l.map PyChar.scalar) = some (utf8 l) :=
  encode_eq_some.mpr ⟨l, rfl, rfl⟩

lemma encode_text (s : String) : encode (text s) = some (utf8 s.toList) := encode_map_scalar _

lemma wellFormed_iff_encode {s : PyStr} : WellFormed s ↔ ∃ b, encode s = some b := by
  constructor
  · rintro ⟨l, rfl⟩
    exact ⟨_, encode_map_scalar l⟩
  · rintro ⟨b, hb⟩
    obtain ⟨l, rfl, -⟩ := encode_eq_some.mp hb
    exact ⟨l, rfl⟩

theorem encode_injOn {s t : PyStr} {b : Bytes} (hs : encode s = some b) (ht : encode t = some b) :
    s = t := by
  obtain ⟨l, rfl, rfl⟩ := encode_eq_some.mp hs
  obtain ⟨m, rfl, hm⟩ := encode_eq_some.mp ht
  rw [utf8_injective hm]

lemma encode_eq_iff {s t : PyStr} {b c : Bytes} (hs : encode s = some b)
    (ht : encode t = some c) : b = c ↔ s = t := by
  constructor
  · rintro rfl
    exact encode_injOn hs ht
  · rintro rfl
    exact Option.some.inj (hs.symm.trans ht)

theorem decode_encode {s : PyStr} {b : Bytes} (h : encode s = some b) : decode b = some s := by
  obtain ⟨l, rfl, rfl⟩ := encode_eq_some.mp h
  simp [decode, utf8_toByteArray, List.utf8Decode?_utf8Encode]

theorem encode_of_decode {s : PyStr} {b : Bytes} (h : decode b = some s) : encode s = some b := by
  obtain ⟨a, ha, rfl⟩ := Option.map_eq_some_iff.mp h
  have hsome : b.toByteArray.utf8Decode?.isSome = true := by rw [ha]; rfl
  have hget : b.toByteArray.utf8Decode?.get hsome = a := by simp [ha]
  have hback := ByteArray.utf8Encode_get_utf8Decode? (h := hsome)
  rw [hget, ← utf8_toByteArray] at hback
  rw [encode_map_scalar, List.toByteArray_inj.mp hback]

lemma wellFormed_append {s t : PyStr} : WellFormed (s ++ t) ↔ WellFormed s ∧ WellFormed t := by
  constructor
  · rintro ⟨l, hl⟩
    obtain ⟨l₁, l₂, -, h₁, h₂⟩ := List.map_eq_append_iff.mp hl.symm
    exact ⟨⟨l₁, h₁.symm⟩, ⟨l₂, h₂.symm⟩⟩
  · rintro ⟨⟨l, rfl⟩, ⟨m, rfl⟩⟩
    exact ⟨l ++ m, by simp⟩

lemma wellFormed_iff {s : PyStr} : WellFormed s ↔ ∀ x ∈ s, ∃ c, x = .scalar c := by
  constructor
  · rintro ⟨l, rfl⟩ x hx
    obtain ⟨c, -, rfl⟩ := List.mem_map.mp hx
    exact ⟨c, rfl⟩
  · intro h
    induction s with
    | nil => exact ⟨[], rfl⟩
    | cons x s ih =>
      obtain ⟨c, rfl⟩ := h x (by simp)
      obtain ⟨l, rfl⟩ := ih fun y hy => h y (List.mem_cons_of_mem _ hy)
      exact ⟨c :: l, rfl⟩

lemma wellFormed_scalar_cons {c : Char} {s : PyStr} :
    WellFormed (.scalar c :: s) ↔ WellFormed s := by
  simp [wellFormed_iff]

instance : DecidablePred WellFormed := fun s =>
  decidable_of_iff (∀ x ∈ s, x.toChar?.isSome = true) (by
    simp [wellFormed_iff, Option.isSome_iff_exists, PyChar.toChar?_eq_some])

theorem decodeAscii_encodeAscii {s : PyStr} {b : Bytes} (h : encodeAscii s = some b) :
    decodeAscii b = some s := by
  induction s generalizing b with
  | nil =>
    simp only [encodeAscii, List.mapM_nil, Option.pure_def, Option.some.injEq] at h
    subst h
    rfl
  | cons x s ih =>
    simp only [encodeAscii, List.mapM_cons, Option.pure_def, Option.bind_eq_bind,
      Option.bind_eq_some_iff, Option.some.injEq] at h
    obtain ⟨y, hy, r, hr, rfl⟩ := h
    cases x with
    | surrogate k => cases hy
    | scalar c =>
      simp only [Option.ite_none_right_eq_some, Option.some.injEq] at hy
      obtain ⟨hc, rfl⟩ := hy
      have hbyte : (UInt8.ofNat c.toNat).toNat = c.toNat :=
        UInt8.toNat_ofNat_of_lt (hc.trans (by decide))
      have hrest : decodeAscii r = some s := ih hr
      rw [decodeAscii] at hrest
      simp [decodeAscii, hbyte, hc, hrest]

lemma wellFormed_text (s : String) : WellFormed (text s) := ⟨s.toList, rfl⟩

end Omkit.Lib
