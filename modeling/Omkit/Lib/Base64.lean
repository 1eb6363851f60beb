import Omkit.Lib.Text
import Mathlib.Tactic

/-!
# Base64

The encoder of the standard library and its lenient decoder, which drops the characters that are
not in the alphabet and stops at the padding.
-/

namespace Omkit.Lib

/-- The character of a value below 64. -/
def b64Char (v : ℕ) : PyChar :=
  .scalar ("ABCDEFGHIJKLMNOPQRSTUVWXYZabcdefghijklmnopqrstuvwxyz0123456789+/".toList.getD v '=')

/-- The value of a character of the alphabet. -/
def b64Val : PyChar → Option ℕ
  | .scalar c =>
    if 'A' ≤ c ∧ c ≤ 'Z' then some (c.toNat - 65)
    else if 'a' ≤ c ∧ c ≤ 'z' then some (c.toNat - 71)
    else if '0' ≤ c ∧ c ≤ '9' then some (c.toNat + 4)
    else if c = '+' then some 62
    else if c = '/' then some 63
    else none
  | .surrogate _ => none

/-- `base64.b64encode(b)`, as text. -/
def b64encode : Bytes → PyStr
  | [] => []
  | [a] =>
    [b64Char (a.toNat / 4), b64Char (a.toNat % 4 * 16), .scalar '=', .scalar '=']
  | [a, b] =>
    [b64Char (a.toNat / 4), b64Char (a.toNat % 4 * 16 + b.toNat / 16), b64Char (b.toNat % 16 * 4),
      .scalar '=']
  | a :: b :: c :: r =>
    b64Char (a.toNat / 4) :: b64Char (a.toNat % 4 * 16 + b.toNat / 16) ::
      b64Char (b.toNat % 16 * 4 + c.toNat / 64) :: b64Char (c.toNat % 64) :: b64encode r

/-- Where the decoder stands in a group of four characters, with the bits that are left over. -/
inductive Quad
  | q0
  | q1 (left : ℕ)
  | q2 (left : ℕ)
  | q3 (left : ℕ)

/-- The number of characters read in a group. -/
def Quad.pos : Quad → ℕ
  | q0 => 0
  | q1 _ => 1
  | q2 _ => 2
  | q3 _ => 3

/-- The decoder after a character of value `v`, and the byte that is then complete. -/
def Quad.push (v : ℕ) : Quad → Option UInt8 × Quad
  | q0 => (none, q1 v)
  | q1 l => (some (UInt8.ofNat (l * 4 + v / 16)), q2 (v % 16))
  | q2 l => (some (UInt8.ofNat (l * 16 + v / 4)), q3 (v % 4))
  | q3 l => (some (UInt8.ofNat (l * 64 + v)), q0)

/-- The decoder in the middle of a text; `pads` counts the padding characters just read. -/
def b64Loop (q : Quad) (pads : ℕ) : PyStr → Option Bytes
  | [] => if q.pos = 0 then some [] else none
  | x :: s =>
    if x = .scalar '=' then
      if 2 ≤ q.pos then if 4 ≤ q.pos + (pads + 1) then some [] else b64Loop q (pads + 1) s
      else b64Loop q pads s
    else match b64Val x with
      | none => b64Loop q pads s
      | some v => (b64Loop (q.push v).2 0 s).map ((q.push v).1.toList ++ ·)

/-- `base64.b64decode(s)` of a text; `none` is a `ValueError`. -/
def b64decode (s : PyStr) : Option Bytes :=
  if s.all fun x => match x with | .scalar c => c.toNat < 128 | .surrogate _ => false
  then b64Loop .q0 0 s else none

/-- A character in the URL-safe alphabet. -/
def toUrlSafe (x : PyChar) : PyChar :=
  if x = .scalar '+' then .scalar '-' else if x = .scalar '/' then .scalar '_' else x

/-- A character of the URL-safe alphabet in the standard one. -/
def ofUrlSafe (x : PyChar) : PyChar :=
  if x = .scalar '-' then .scalar '+' else if x = .scalar '_' then .scalar '/' else x

/-- `base64.urlsafe_b64encode(b)`, as text. -/
def urlsafeB64encode (b : Bytes) : PyStr := (b64encode b).map toUrlSafe

/-- `base64.urlsafe_b64decode(s.encode("ascii"))`; `none` is a `ValueError`. -/
def urlsafeB64decode (s : PyStr) : Option Bytes := b64decode (s.map ofUrlSafe)

/-! ## The decoder inverts the encoder -/

lemma b64Val_b64Char : ∀ v < 64, b64Val (b64Char v) = some v := by decide +kernel

lemma b64Char_ne_pad : ∀ v < 64, b64Char v ≠ .scalar '=' := by decide +kernel

lemma b64Loop_b64Char {v : ℕ} (hv : v < 64) (q : Quad) (pads : ℕ) (s : PyStr) :
    b64Loop q pads (b64Char v :: s) =
      (b64Loop (q.push v).2 0 s).map ((q.push v).1.toList ++ ·) := by
  rw [b64Loop, if_neg (b64Char_ne_pad v hv), b64Val_b64Char v hv]

/-- The bytes of a group come back from its characters. -/
lemma b64Loop_b64encode (b : Bytes) : b64Loop .q0 0 (b64encode b) = some b := by
  fun_induction b64encode b with
  | case1 => rfl
  | case2 a =>
    have ha := a.toNat_lt
    rw [b64Loop_b64Char (by omega), Quad.push, b64Loop_b64Char (by omega), Quad.push]
    have hbyte : a.toNat / 4 * 4 + a.toNat % 4 * 16 / 16 = a.toNat := by omega
    rw [hbyte, UInt8.ofNat_toNat]
    rfl
  | case3 a b =>
    have ha := a.toNat_lt
    have hb := b.toNat_lt
    rw [b64Loop_b64Char (by omega), Quad.push, b64Loop_b64Char (by omega), Quad.push,
      b64Loop_b64Char (by omega), Quad.push]
    have hbyte : a.toNat / 4 * 4 + (a.toNat % 4 * 16 + b.toNat / 16) / 16 = a.toNat := by omega
    have hbyte' : (a.toNat % 4 * 16 + b.toNat / 16) % 16 * 16 + b.toNat % 16 * 4 / 4 = b.toNat := by
      omega
    rw [hbyte, hbyte', UInt8.ofNat_toNat, UInt8.ofNat_toNat]
    rfl
  | case4 a b c r ih =>
    have ha := a.toNat_lt
    have hb := b.toNat_lt
    have hc := c.toNat_lt
    rw [b64Loop_b64Char (by omega), Quad.push, b64Loop_b64Char (by omega), Quad.push,
      b64Loop_b64Char (by omega), Quad.push, b64Loop_b64Char (by omega), Quad.push, ih]
    have hbyte : a.toNat / 4 * 4 + (a.toNat % 4 * 16 + b.toNat / 16) / 16 = a.toNat := by omega
    have hbyte' : (a.toNat % 4 * 16 + b.toNat / 16) % 16 * 16 +
        (b.toNat % 16 * 4 + c.toNat / 64) / 4 = b.toNat := by omega
    have hbyte'' : (b.toNat % 16 * 4 + c.toNat / 64) % 4 * 64 + c.toNat % 64 = c.toNat := by omega
    simp only [hbyte, hbyte', hbyte'', UInt8.ofNat_toNat]
    rfl

/-- What the encoder writes: characters of the alphabet and padding. -/
lemma mem_b64encode {b : Bytes} {x : PyChar} (hx : x ∈ b64encode b) :
    x = .scalar '=' ∨ ∃ v < 64, x = b64Char v := by
  fun_induction b64encode b with
  | case1 => simp at hx
  | case2 a =>
    have ha := a.toNat_lt
    simp only [List.mem_cons, List.not_mem_nil, or_false] at hx
    rcases hx with rfl | rfl | rfl | rfl
    · exact Or.inr ⟨_, by omega, rfl⟩
    · exact Or.inr ⟨_, by omega, rfl⟩
    · exact Or.inl rfl
    · exact Or.inl rfl
  | case3 a b =>
    have ha := a.toNat_lt
    have hb := b.toNat_lt
    simp only [List.mem_cons, List.not_mem_nil, or_false] at hx
    rcases hx with rfl | rfl | rfl | rfl
    · exact Or.inr ⟨_, by omega, rfl⟩
    · exact Or.inr ⟨_, by omega, rfl⟩
    · exact Or.inr ⟨_, by omega, rfl⟩
    · exact Or.inl rfl
  | case4 a b c r ih =>
    have ha := a.toNat_lt
    have hb := b.toNat_lt
    have hc := c.toNat_lt
    simp only [List.mem_cons] at hx
    rcases hx with rfl | rfl | rfl | rfl | hx
    · exact Or.inr ⟨_, by omega, rfl⟩
    · exact Or.inr ⟨_, by omega, rfl⟩
    · exact Or.inr ⟨_, by omega, rfl⟩
    · exact Or.inr ⟨_, by omega, rfl⟩
    · exact ih hx

lemma b64Char_ascii : ∀ v < 64, ∃ c : Char, b64Char v = .scalar c ∧ c.toNat < 128 ∧ c ≠ ':' := by
  intro v hv
  refine ⟨_, rfl, ?_⟩
  revert v
  decide +kernel

/-- The characters that the encoder writes are in ASCII, and none is a colon. -/
lemma b64encode_ascii {b : Bytes} {x : PyChar} (hx : x ∈ b64encode b) :
    ∃ c : Char, x = .scalar c ∧ c.toNat < 128 ∧ c ≠ ':' := by
  rcases mem_b64encode hx with rfl | ⟨v, hv, rfl⟩
  · exact ⟨'=', rfl, by decide, by decide⟩
  · exact b64Char_ascii v hv

/-- **The decoder inverts the encoder.** -/
theorem b64decode_b64encode (b : Bytes) : b64decode (b64encode b) = some b := by
  have hascii : (b64encode b).all (fun x => match x with
      | .scalar c => c.toNat < 128
      | .surrogate _ => false) = true := by
    rw [List.all_eq_true]
    intro x hx
    obtain ⟨c, rfl, hc, -⟩ := b64encode_ascii hx
    simpa using hc
  rw [b64decode, if_pos hascii, b64Loop_b64encode]

theorem b64encode_injective : Function.Injective b64encode := by
  intro b b' h
  have hb := b64decode_b64encode b
  rw [h, b64decode_b64encode] at hb
  exact (Option.some.inj hb).symm

lemma colon_not_mem_b64encode (b : Bytes) : PyChar.scalar ':' ∉ b64encode b := by
  intro h
  obtain ⟨c, hc, -, hne⟩ := b64encode_ascii h
  exact hne (PyChar.scalar.inj hc).symm

lemma wellFormed_b64encode (b : Bytes) : WellFormed (b64encode b) := by
  rw [wellFormed_iff]
  intro x hx
  obtain ⟨c, rfl, -, -⟩ := b64encode_ascii hx
  exact ⟨c, rfl⟩

lemma ofUrlSafe_toUrlSafe : ∀ v < 64, ofUrlSafe (toUrlSafe (b64Char v)) = b64Char v := by
  decide +kernel

/-- **The decoder of the URL-safe alphabet inverts its encoder.** -/
theorem urlsafeB64decode_urlsafeB64encode (b : Bytes) :
    urlsafeB64decode (urlsafeB64encode b) = some b := by
  have hchars : ((b64encode b).map toUrlSafe).map ofUrlSafe = b64encode b := by
    rw [List.map_map]
    refine (List.map_congr_left fun x hx => ?_).trans (List.map_id' _)
    rcases mem_b64encode hx with rfl | ⟨v, hv, rfl⟩
    · rfl
    · exact ofUrlSafe_toUrlSafe v hv
  rw [urlsafeB64decode, urlsafeB64encode, hchars, b64decode_b64encode]

/-! ## What the encoder writes -/

/-- The value of a character of the URL-safe alphabet. -/
def urlVal (x : PyChar) : Option ℕ :=
  if x = .scalar '+' ∨ x = .scalar '/' then none else b64Val (ofUrlSafe x)

/-- Groups of four characters of the URL-safe alphabet, the last one padded, with no bits that the
padding cuts off. -/
def canonical : PyStr → Bool
  | [] => true
  | a :: b :: c :: d :: r =>
    if d = .scalar '=' then
      r.isEmpty && (urlVal a).isSome &&
        if c = .scalar '=' then (urlVal b).any fun v => v % 16 = 0
        else (urlVal b).isSome && (urlVal c).any fun v => v % 4 = 0
    else (urlVal a).isSome && (urlVal b).isSome && (urlVal c).isSome && (urlVal d).isSome &&
      canonical r
  | _ => false

lemma ascii_of_b64Val {x : PyChar} {v : ℕ} (h : b64Val x = some v) :
    ∃ n < 128, x = .scalar (Char.ofNat n) := by
  cases x with
  | surrogate k => cases h
  | scalar c =>
    refine ⟨c.toNat, ?_, by rw [Char.ofNat_toNat]⟩
    by_contra hlarge
    have hz : ('z' : Char).val.toNat = 122 := rfl
    have hle : ∀ d : Char, d.val.toNat < 128 → ¬ c ≤ d := fun d hd hcd =>
      hlarge (lt_of_le_of_lt (UInt32.le_iff_toNat_le.mp hcd) hd)
    have hne : ∀ d : Char, d.val.toNat < 128 → c ≠ d := fun d hd hcd => hlarge (hcd ▸ hd)
    have hZ := hle 'Z' (by decide)
    have hz := hle 'z' (by decide)
    have h9 := hle '9' (by decide)
    have hplus := hne '+' (by decide)
    have hslash := hne '/' (by decide)
    simp [b64Val, hZ, hz, h9, hplus, hslash] at h

lemma b64Char_of_b64Val_ascii : ∀ n < 128, (b64Val (.scalar (Char.ofNat n))).all (fun v =>
    v < 64 && .scalar (Char.ofNat n) = b64Char v) = true := by decide +kernel

/-- A character of the alphabet is the one of its value. -/
lemma b64Char_of_b64Val {x : PyChar} {v : ℕ} (h : b64Val x = some v) : v < 64 ∧ x = b64Char v := by
  obtain ⟨n, hn, rfl⟩ := ascii_of_b64Val h
  have hall := b64Char_of_b64Val_ascii n hn
  rw [h] at hall
  simpa using hall

lemma toUrlSafe_ofUrlSafe {x : PyChar} (h : ¬ (x = .scalar '+' ∨ x = .scalar '/')) :
    toUrlSafe (ofUrlSafe x) = x := by
  rw [not_or] at h
  rw [ofUrlSafe]
  split_ifs with hdash hunder
  · rw [hdash]
    rfl
  · rw [hunder]
    rfl
  · rw [toUrlSafe, if_neg h.1, if_neg h.2]

lemma of_urlVal {x : PyChar} {v : ℕ} (h : urlVal x = some v) :
    v < 64 ∧ x = toUrlSafe (b64Char v) := by
  rw [urlVal] at h
  split at h
  · cases h
  · next hx =>
    obtain ⟨hv, hchar⟩ := b64Char_of_b64Val h
    exact ⟨hv, by rw [← hchar, toUrlSafe_ofUrlSafe hx]⟩

lemma urlVal_toUrlSafe : ∀ v < 64, urlVal (toUrlSafe (b64Char v)) = some v := by decide +kernel

lemma toUrlSafe_ne_pad : ∀ v < 64, toUrlSafe (b64Char v) ≠ .scalar '=' := by decide +kernel

lemma canonical_urlsafeB64encode (b : Bytes) : canonical (urlsafeB64encode b) = true := by
  have hpad : toUrlSafe (.scalar '=') = .scalar '=' := rfl
  rw [urlsafeB64encode]
  fun_induction b64encode b with
  | case1 => rfl
  | case2 a =>
    have ha := a.toNat_lt
    have h₀ := urlVal_toUrlSafe (a.toNat / 4) (by omega)
    have h₁ := urlVal_toUrlSafe (a.toNat % 4 * 16) (by omega)
    simp [canonical, hpad, h₀, h₁]
  | case3 a b =>
    have ha := a.toNat_lt
    have hb := b.toNat_lt
    have h₀ := urlVal_toUrlSafe (a.toNat / 4) (by omega)
    have h₁ := urlVal_toUrlSafe (a.toNat % 4 * 16 + b.toNat / 16) (by omega)
    have h₂ := urlVal_toUrlSafe (b.toNat % 16 * 4) (by omega)
    have hne := toUrlSafe_ne_pad (b.toNat % 16 * 4) (by omega)
    simp [canonical, hpad, h₀, h₁, h₂, hne]
  | case4 a b c r ih =>
    have ha := a.toNat_lt
    have hb := b.toNat_lt
    have hc := c.toNat_lt
    have h₀ := urlVal_toUrlSafe (a.toNat / 4) (by omega)
    have h₁ := urlVal_toUrlSafe (a.toNat % 4 * 16 + b.toNat / 16) (by omega)
    have h₂ := urlVal_toUrlSafe (b.toNat % 16 * 4 + c.toNat / 64) (by omega)
    have h₃ := urlVal_toUrlSafe (c.toNat % 64) (by omega)
    have hne := toUrlSafe_ne_pad (c.toNat % 64) (by omega)
    simp [canonical, h₀, h₁, h₂, h₃, hne, ih]

lemma toNat_ofNat_of_lt {n : ℕ} (h : n < 256) : (UInt8.ofNat n).toNat = n :=
  UInt8.toNat_ofNat_of_lt' h

/-- A group of four characters is the text of three bytes. -/
lemma b64encode_group {v₀ v₁ v₂ v₃ : ℕ} (h₀ : v₀ < 64) (h₁ : v₁ < 64) (h₂ : v₂ < 64) (h₃ : v₃ < 64)
    (r : Bytes) :
    b64encode (UInt8.ofNat (v₀ * 4 + v₁ / 16) :: UInt8.ofNat (v₁ % 16 * 16 + v₂ / 4) ::
      UInt8.ofNat (v₂ % 4 * 64 + v₃) :: r) =
      b64Char v₀ :: b64Char v₁ :: b64Char v₂ :: b64Char v₃ :: b64encode r := by
  have hv₀ : (v₀ * 4 + v₁ / 16) / 4 = v₀ := by omega
  have hv₁ : (v₀ * 4 + v₁ / 16) % 4 * 16 + (v₁ % 16 * 16 + v₂ / 4) / 16 = v₁ := by omega
  have hv₂ : (v₁ % 16 * 16 + v₂ / 4) % 16 * 4 + (v₂ % 4 * 64 + v₃) / 64 = v₂ := by omega
  have hv₃ : (v₂ % 4 * 64 + v₃) % 64 = v₃ := by omega
  rw [b64encode, toNat_ofNat_of_lt (by omega), toNat_ofNat_of_lt (by omega),
    toNat_ofNat_of_lt (by omega), hv₀, hv₁, hv₂, hv₃]

/-- Three characters and the padding are the text of two bytes. -/
lemma b64encode_two {v₀ v₁ v₂ : ℕ} (h₀ : v₀ < 64) (h₁ : v₁ < 64) (h₂ : v₂ < 64)
    (hcut : v₂ % 4 = 0) :
    b64encode [UInt8.ofNat (v₀ * 4 + v₁ / 16), UInt8.ofNat (v₁ % 16 * 16 + v₂ / 4)] =
      [b64Char v₀, b64Char v₁, b64Char v₂, .scalar '='] := by
  have hv₀ : (v₀ * 4 + v₁ / 16) / 4 = v₀ := by omega
  have hv₁ : (v₀ * 4 + v₁ / 16) % 4 * 16 + (v₁ % 16 * 16 + v₂ / 4) / 16 = v₁ := by omega
  have hv₂ : (v₁ % 16 * 16 + v₂ / 4) % 16 * 4 = v₂ := by omega
  rw [b64encode, toNat_ofNat_of_lt (by omega), toNat_ofNat_of_lt (by omega), hv₀, hv₁, hv₂]

/-- Two characters and the padding are the text of one byte. -/
lemma b64encode_one {v₀ v₁ : ℕ} (h₀ : v₀ < 64) (h₁ : v₁ < 64) (hcut : v₁ % 16 = 0) :
    b64encode [UInt8.ofNat (v₀ * 4 + v₁ / 16)] =
      [b64Char v₀, b64Char v₁, .scalar '=', .scalar '='] := by
  have hv₀ : (v₀ * 4 + v₁ / 16) / 4 = v₀ := by omega
  have hv₁ : (v₀ * 4 + v₁ / 16) % 4 * 16 = v₁ := by omega
  rw [b64encode, toNat_ofNat_of_lt (by omega), hv₀, hv₁]

/-- A canonical text is one that the encoder writes. -/
lemma exists_of_canonical {s : PyStr} (h : canonical s = true) : ∃ b, urlsafeB64encode b = s := by
  have hpad : toUrlSafe (.scalar '=') = .scalar '=' := rfl
  fun_induction canonical s with
  | case1 => exact ⟨[], rfl⟩
  | case2 a b c r =>
    simp only [Bool.and_eq_true, List.isEmpty_iff, Option.isSome_iff_exists] at h
    obtain ⟨⟨rfl, v₀, hv₀⟩, h⟩ := h
    obtain ⟨h₀, rfl⟩ := of_urlVal hv₀
    split at h
    · next hc =>
      simp only [Option.any_eq_true, decide_eq_true_eq] at h
      obtain ⟨v₁, hv₁, hcut⟩ := h
      obtain ⟨h₁, rfl⟩ := of_urlVal hv₁
      refine ⟨_, (congrArg (List.map toUrlSafe) (b64encode_one h₀ h₁ hcut)).trans ?_⟩
      simp only [List.map_cons, List.map_nil, hpad, hc]
    · simp only [Bool.and_eq_true, Option.isSome_iff_exists, Option.any_eq_true,
        decide_eq_true_eq] at h
      obtain ⟨⟨v₁, hv₁⟩, v₂, hv₂, hcut⟩ := h
      obtain ⟨h₁, rfl⟩ := of_urlVal hv₁
      obtain ⟨h₂, rfl⟩ := of_urlVal hv₂
      refine ⟨_, (congrArg (List.map toUrlSafe) (b64encode_two h₀ h₁ h₂ hcut)).trans ?_⟩
      simp only [List.map_cons, List.map_nil, hpad]
  | case3 a b c d r hd ih =>
    simp only [Bool.and_eq_true, Option.isSome_iff_exists] at h
    obtain ⟨⟨⟨⟨⟨v₀, hv₀⟩, v₁, hv₁⟩, v₂, hv₂⟩, v₃, hv₃⟩, hr⟩ := h
    obtain ⟨h₀, rfl⟩ := of_urlVal hv₀
    obtain ⟨h₁, rfl⟩ := of_urlVal hv₁
    obtain ⟨h₂, rfl⟩ := of_urlVal hv₂
    obtain ⟨h₃, rfl⟩ := of_urlVal hv₃
    obtain ⟨rest, rfl⟩ := ih hr
    refine ⟨_, (congrArg (List.map toUrlSafe) (b64encode_group h₀ h₁ h₂ h₃ rest)).trans ?_⟩
    simp only [List.map_cons, urlsafeB64encode]
  | case4 s hnil hgroup => cases h

/-- **The canonical texts are those that the encoder writes.** -/
theorem canonical_iff {s : PyStr} : canonical s = true ↔ ∃ b, urlsafeB64encode b = s := by
  constructor
  · exact exists_of_canonical
  · rintro ⟨b, rfl⟩
    exact canonical_urlsafeB64encode b

/-! ## What the decoder skips -/

/-- A character of ASCII that the decoder skips. -/
def Skipped (x : PyChar) : Prop :=
  ∃ c : Char, x = .scalar c ∧ c.toNat < 128 ∧ c ≠ '=' ∧ b64Val x = none

lemma b64Loop_skip {x : PyChar} (hx : Skipped x) (q : Quad) (pads : ℕ) (s : PyStr) :
    b64Loop q pads (x :: s) = b64Loop q pads s := by
  obtain ⟨c, rfl, -, hpad, hval⟩ := hx
  have hne : PyChar.scalar c ≠ .scalar '=' := fun h => hpad (PyChar.scalar.inj h)
  rw [b64Loop, if_neg hne, hval]

lemma b64Loop_skips {u : PyStr} (hu : ∀ x ∈ u, Skipped x) (q : Quad) (pads : ℕ) (s : PyStr) :
    b64Loop q pads (u ++ s) = b64Loop q pads s := by
  induction u with
  | nil => rfl
  | cons x u ih =>
    obtain ⟨hx, hu⟩ := List.forall_mem_cons.mp hu
    rw [List.cons_append, b64Loop_skip hx, ih hu]

lemma b64Loop_append_skips {u : PyStr} (hu : ∀ x ∈ u, Skipped x) (q : Quad) (pads : ℕ)
    (s : PyStr) : b64Loop q pads (s ++ u) = b64Loop q pads s := by
  induction s generalizing q pads with
  | nil =>
    have hskip := b64Loop_skips hu q pads []
    rwa [List.append_nil] at hskip
  | cons x s ih =>
    rw [List.cons_append, b64Loop, b64Loop]
    simp only [ih]

/-- What the decoder skips may stand around a text. -/
theorem b64decode_append {u s v : PyStr} (hu : ∀ x ∈ u, Skipped x) (hv : ∀ x ∈ v, Skipped x) :
    b64decode (u ++ s ++ v) = b64decode s := by
  have hloop : b64Loop .q0 0 (u ++ s ++ v) = b64Loop .q0 0 s := by
    rw [b64Loop_append_skips hv, b64Loop_skips hu]
  rw [b64decode, b64decode, hloop]
  refine if_congr ?_ rfl rfl
  simp only [List.all_append, Bool.and_eq_true]
  constructor
  · rintro ⟨⟨-, hs⟩, -⟩
    exact hs
  · intro hs
    refine ⟨⟨List.all_eq_true.mpr fun x hx => ?_, hs⟩, List.all_eq_true.mpr fun x hx => ?_⟩
    · obtain ⟨c, rfl, hc, -⟩ := hu x hx
      exact decide_eq_true hc
    · obtain ⟨c, rfl, hc, -⟩ := hv x hx
      exact decide_eq_true hc

theorem urlsafeB64decode_append {u s v : PyStr} (hu : ∀ x ∈ u, Skipped (ofUrlSafe x))
    (hv : ∀ x ∈ v, Skipped (ofUrlSafe x)) :
    urlsafeB64decode (u ++ s ++ v) = urlsafeB64decode s := by
  rw [urlsafeB64decode, urlsafeB64decode, List.map_append, List.map_append]
  exact b64decode_append (List.forall_mem_map.mpr hu) (List.forall_mem_map.mpr hv)

end Omkit.Lib
