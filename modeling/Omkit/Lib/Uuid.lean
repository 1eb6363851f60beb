import Omkit.Lib.Json.Loads
import Mathlib.Data.List.DropRight
import Mathlib.Tactic

/-!
# Reading and writing UUIDs

A UUID is a number below `2 ^ 128`, and its text groups its 32 hexadecimal digits.  Two readers
are described: the constructor of the standard library, which takes whatever is left of the text
after some clean-up for an integer in base 16, and the stricter one of the database driver.
-/

namespace Omkit.Lib

/-! ## Hexadecimal numbers -/

/-- The `w` low hexadecimal digits of `n`, the highest first. -/
def toHex : ℕ → ℕ → List ℕ
  | 0, _ => []
  | w + 1, n => toHex w (n / 16) ++ [n % 16]

/-- The number with the given hexadecimal digits. -/
def ofHex (ds : List ℕ) : ℕ := ds.foldl (fun n d => 16 * n + d) 0

@[simp] lemma toHex_length (w n : ℕ) : (toHex w n).length = w := by
  induction w generalizing n with
  | zero => rfl
  | succ w ih => simp [toHex, ih]

lemma toHex_lt {w n d : ℕ} (h : d ∈ toHex w n) : d < 16 := by
  induction w generalizing n with
  | zero => simp [toHex] at h
  | succ w ih =>
    rcases List.mem_append.mp h with h | h
    · exact ih h
    · obtain rfl := List.mem_singleton.mp h
      exact Nat.mod_lt _ (by norm_num)

lemma ofHex_toHex {w n : ℕ} (h : n < 16 ^ w) : ofHex (toHex w n) = n := by
  induction w generalizing n with
  | zero =>
    obtain rfl : n = 0 := by simpa using h
    rfl
  | succ w ih =>
    have hdiv : n / 16 < 16 ^ w := by
      rw [Nat.div_lt_iff_lt_mul (by norm_num)]
      rwa [pow_succ] at h
    have hstep : ofHex (toHex (w + 1) n) = 16 * ofHex (toHex w (n / 16)) + n % 16 := by
      simp [ofHex, toHex]
    rw [hstep, ih hdiv]
    omega

lemma ofHex_lt {ds : List ℕ} (h : ∀ d ∈ ds, d < 16) : ofHex ds < 16 ^ ds.length := by
  induction ds using List.reverseRecOn with
  | nil => simp [ofHex]
  | append_singleton ds d ih =>
    have hlt := ih fun x hx => h x (List.mem_append_left _ hx)
    have hd := h d (by simp)
    have hstep : ofHex (ds ++ [d]) = 16 * ofHex ds + d := by simp [ofHex]
    rw [hstep, List.length_append, List.length_singleton, pow_succ]
    omega

/-! ## Reading every character of a text -/

section MapM

variable {α β : Type*} {f : α → Option β}

lemma exists_of_mem_mapM {l : List α} {m : List β} (h : l.mapM f = some m) {b : β} (hb : b ∈ m) :
    ∃ a ∈ l, f a = some b := by
  induction l generalizing m with
  | nil =>
    obtain rfl : [] = m := by simpa using h
    simp at hb
  | cons a l ih =>
    simp only [List.mapM_cons, Option.pure_def, Option.bind_eq_bind, Option.bind_eq_some_iff,
      Option.some.injEq] at h
    obtain ⟨c, hc, n, hn, rfl⟩ := h
    rcases List.mem_cons.mp hb with rfl | hb
    · exact ⟨a, by simp, hc⟩
    · obtain ⟨x, hx, hfx⟩ := ih hn hb
      exact ⟨x, List.mem_cons_of_mem _ hx, hfx⟩

lemma isSome_of_mapM {l : List α} {m : List β} (h : l.mapM f = some m) {a : α} (ha : a ∈ l) :
    ∃ b, f a = some b := by
  induction l generalizing m with
  | nil => simp at ha
  | cons c l ih =>
    simp only [List.mapM_cons, Option.pure_def, Option.bind_eq_bind, Option.bind_eq_some_iff,
      Option.some.injEq] at h
    obtain ⟨d, hd, n, hn, rfl⟩ := h
    rcases List.mem_cons.mp ha with rfl | ha
    · exact ⟨d, hd⟩
    · exact ih hn ha

end MapM

/-! ## The text of a UUID -/

/-- The first `n` digits, and a hyphen before what is made of the rest. -/
def hexGroup (n : ℕ) (rest : List ℕ → PyStr) (ds : List ℕ) : PyStr :=
  (ds.take n).map hexDigit ++ .scalar '-' :: rest (ds.drop n)

/-- `str(u)`. -/
def uuidText (n : ℕ) : PyStr :=
  hexGroup 8 (hexGroup 4 (hexGroup 4 (hexGroup 4 fun ds => ds.map hexDigit))) (toHex 32 n)

/-- The hexadecimal digits of a text that may have hyphens anywhere. -/
def hexDigits? (s : PyStr) : Option (List ℕ) := (s.filter (· ≠ .scalar '-')).mapM hexVal

/-- The UUID of a statement parameter, as the driver encodes it: 32 hexadecimal digits and any
hyphens, in at most 36 characters. -/
def driverUuid (s : PyStr) : Option ℕ :=
  if s.length < 32 ∨ 36 < s.length then none
  else (hexDigits? s).bind fun ds => if ds.length = 32 then some (ofHex ds) else none

lemma hexDigit_ne_hyphen : ∀ d < 16, hexDigit d ≠ .scalar '-' := by decide

lemma hexVal_of_hexDigit : ∀ d < 16, hexVal (hexDigit d) = some d := by decide

lemma hexVal_lt {x : PyChar} {d : ℕ} (h : hexVal x = some d) : d < 16 := by
  cases x with
  | surrogate k => simp [hexVal] at h
  | scalar c =>
    have hle : ∀ {a b : Char}, a ≤ b ↔ a.toNat ≤ b.toNat := by
      intro a b
      rw [Char.le_def, UInt32.le_iff_toNat_le]
      rfl
    simp only [hexVal, hle] at h
    have h0 : '0'.toNat = 48 := rfl
    have h9 : '9'.toNat = 57 := rfl
    have ha : 'a'.toNat = 97 := rfl
    have hf : 'f'.toNat = 102 := rfl
    have hA : 'A'.toNat = 65 := rfl
    have hF : 'F'.toNat = 70 := rfl
    split_ifs at h <;> simp only [Option.some.injEq] at h <;> omega

lemma mapM_hexVal {ds : List ℕ} (h : ∀ d ∈ ds, d < 16) :
    (ds.map hexDigit).mapM hexVal = some ds := by
  induction ds with
  | nil => rfl
  | cons d ds ih =>
    have hd := hexVal_of_hexDigit d (h d (by simp))
    have hds := ih fun x hx => h x (List.mem_cons_of_mem _ hx)
    simp [hd, hds]

lemma filter_map_hexDigit {ds : List ℕ} (h : ∀ d ∈ ds, d < 16) :
    (ds.map hexDigit).filter (· ≠ .scalar '-') = ds.map hexDigit := by
  rw [List.filter_eq_self]
  intro x hx
  obtain ⟨d, hd, rfl⟩ := List.mem_map.mp hx
  simpa using hexDigit_ne_hyphen d (h d hd)

lemma hexDigits?_uuidText (n : ℕ) : hexDigits? (uuidText n) = some (toHex 32 n) := by
  have hlt : ∀ d ∈ toHex 32 n, d < 16 := fun d => toHex_lt
  have hgroup : ∀ (k : ℕ) (rest : List ℕ → PyStr) (ds : List ℕ), (∀ d ∈ ds, d < 16) →
      (rest (ds.drop k)).filter (· ≠ .scalar '-') = (ds.drop k).map hexDigit →
      (hexGroup k rest ds).filter (· ≠ .scalar '-') = ds.map hexDigit := by
    intro k rest ds hds hrest
    have htake := @filter_map_hexDigit (ds.take k) fun d hd => hds d (List.mem_of_mem_take hd)
    rw [hexGroup, List.filter_append, htake, List.filter_cons_of_neg (by simp), hrest,
      ← List.map_append, List.take_append_drop]
  have hdrop : ∀ (k : ℕ) (ds : List ℕ), (∀ d ∈ ds, d < 16) → ∀ d ∈ ds.drop k, d < 16 :=
    fun k ds h d hd => h d (List.mem_of_mem_drop hd)
  have hfilter : (uuidText n).filter (· ≠ .scalar '-') = (toHex 32 n).map hexDigit := by
    refine hgroup 8 _ _ hlt (hgroup 4 _ _ (hdrop _ _ hlt) (hgroup 4 _ _
      (hdrop _ _ (hdrop _ _ hlt)) (hgroup 4 _ _ (hdrop _ _ (hdrop _ _ (hdrop _ _ hlt))) ?_)))
    exact filter_map_hexDigit (hdrop _ _ (hdrop _ _ (hdrop _ _ (hdrop _ _ hlt))))
  rw [hexDigits?, hfilter, mapM_hexVal hlt]

lemma uuidText_length (n : ℕ) : (uuidText n).length = 36 := by
  simp [uuidText, hexGroup]

/-- The driver reads the text of a UUID. -/
theorem driverUuid_uuidText {n : ℕ} (h : n < 2 ^ 128) : driverUuid (uuidText n) = some n := by
  have h16 : n < 16 ^ 32 := by
    have : (16 : ℕ) ^ 32 = 2 ^ 128 := by norm_num
    omega
  simp [driverUuid, uuidText_length, hexDigits?_uuidText, ofHex_toHex h16]

lemma driverUuid_lt {s : PyStr} {n : ℕ} (h : driverUuid s = some n) : n < 2 ^ 128 := by
  unfold driverUuid at h
  split_ifs at h
  obtain ⟨ds, hds, hn⟩ := Option.bind_eq_some_iff.mp h
  split_ifs at hn with hlen
  obtain rfl := Option.some.inj hn
  have hlt : ∀ d ∈ ds, d < 16 := by
    intro d hd
    obtain ⟨x, -, hx⟩ := exists_of_mem_mapM hds hd
    exact hexVal_lt hx
  have := ofHex_lt hlt
  rw [hlen] at this
  have h2 : (16 : ℕ) ^ 32 = 2 ^ 128 := by norm_num
  omega

/-! ## The constructor of the standard library -/

/-- `s.replace(pat, "")`; `skip` characters of a match are still to be dropped. -/
def removeAll (pat : PyStr) (skip : ℕ) : PyStr → PyStr
  | [] => []
  | x :: s =>
    if skip ≠ 0 then removeAll pat (skip - 1) s
    else if pat.isPrefixOf (x :: s) then removeAll pat (pat.length - 1) s
    else x :: removeAll pat 0 s

/-- The zeros of the decimal digits outside ASCII: the other digits of each script follow it.
The list is that of Unicode 15. -/
def unicodeZeros : List ℕ :=
  [0x660, 0x6f0, 0x7c0, 0x966, 0x9e6, 0xa66, 0xae6, 0xb66, 0xbe6, 0xc66, 0xce6, 0xd66, 0xde6,
    0xe50, 0xed0, 0xf20, 0x1040, 0x1090, 0x17e0, 0x1810, 0x1946, 0x19d0, 0x1a80, 0x1a90, 0x1b50,
    0x1bb0, 0x1c40, 0x1c50, 0xa620, 0xa8d0, 0xa900, 0xa9d0, 0xa9f0, 0xaa50, 0xabf0, 0xff10,
    0x104a0, 0x10d30, 0x11066, 0x110f0, 0x11136, 0x111d0, 0x112f0, 0x11450, 0x114d0, 0x11650,
    0x116c0, 0x11730, 0x118e0, 0x11950, 0x11c50, 0x11d50, 0x11da0, 0x11f50, 0x16a60, 0x16ac0,
    0x16b50, 0x1d7ce, 0x1d7d8, 0x1d7e2, 0x1d7ec, 0x1d7f6, 0x1e140, 0x1e2f0, 0x1e4f0, 0x1e950,
    0x1fbf0]

/-- The white space outside ASCII. -/
def unicodeSpaces : List ℕ :=
  [0x85, 0xa0, 0x1680, 0x2000, 0x2001, 0x2002, 0x2003, 0x2004, 0x2005, 0x2006, 0x2007, 0x2008,
    0x2009, 0x200a, 0x2028, 0x2029, 0x202f, 0x205f, 0x3000]

/-- A character of the text of an integer, brought to ASCII. -/
def asciiOf : PyChar → Option PyChar
  | .surrogate _ => none
  | .scalar c =>
    if c.toNat < 0x7f then some (.scalar c)
    else if c.toNat ∈ unicodeSpaces then some (.scalar ' ')
    else (unicodeZeros.find? fun z => z ≤ c.toNat ∧ c.toNat ≤ z + 9).map
      fun z => hexDigit (c.toNat - z)

/-- Is the character white space of the C library? -/
def isCSpace (x : PyChar) : Bool :=
  x ∈ (text " \t\n\r" ++ [.scalar '\x0b', .scalar '\x0c'])

/-- A run of digits with single underscores between them, and what follows it; `under` says that
no digit came just before. -/
def scanHex (under : Bool) (n : ℕ) : PyStr → Option (ℕ × PyStr)
  | [] => if under then none else some (n, [])
  | x :: s =>
    if x = .scalar '_' then if under then none else scanHex true n s
    else match hexVal x with
      | some d => scanHex false (16 * n + d) s
      | none => if under then none else some (n, x :: s)

/-- Without the base prefix, and without the one underscore that may follow it. -/
def dropBase (s : PyStr) : PyStr :=
  match s with
  | .scalar '0' :: .scalar x :: s' =>
    if x = 'x' ∨ x = 'X' then
      match s' with
      | .scalar '_' :: s' => s'
      | _ => s'
    else s
  | _ => s

/-- `int(s, 16)`; `none` is a `ValueError`. -/
def intBase16 (s : PyStr) : Option ℤ := do
  let s := (← s.mapM asciiOf).dropWhile isCSpace
  let (neg, s) := match s with
    | .scalar '-' :: s => (true, s)
    | .scalar '+' :: s => (false, s)
    | _ => (false, s)
  let (n, rest) ← scanHex true 0 (dropBase s)
  if rest.all isCSpace then some (if neg then -n else n) else none

/-- `uuid.UUID(s)`; `none` is a `ValueError`. -/
def uuidOf (s : PyStr) : Option ℕ :=
  let hex := removeAll (text "uuid:") 0 (removeAll (text "urn:") 0 s)
  let braces : PyStr := [.scalar '\x7b', .scalar '\x7d']
  let hex := ((hex.dropWhile (· ∈ braces)).rdropWhile (· ∈ braces)).filter (· ≠ .scalar '-')
  if hex.length ≠ 32 then none
  else match intBase16 hex with
    | some (.ofNat n) => if n < 2 ^ 128 then some n else none
    | _ => none

/-! ## What the constructor accepts has no surrogates -/

/-- What is removed belongs to the pattern. -/
lemma mem_removeAll {pat s : PyStr} (hpat : pat ≠ []) {x : PyChar} (hx : x ∈ s) :
    x ∈ removeAll pat 0 s ∨ x ∈ pat := by
  -- after a match, the characters to be dropped are the next ones of the pattern
  have key : ∀ (s : PyStr) (skip : ℕ), (∀ y ∈ s.take skip, y ∈ pat) →
      ∀ y ∈ s, y ∈ removeAll pat skip s ∨ y ∈ pat := by
    intro s
    induction s with
    | nil => simp
    | cons z s ih =>
      intro skip hskip y hy
      unfold removeAll
      split_ifs with h0 hpre
      · obtain ⟨k, rfl⟩ := Nat.exists_eq_succ_of_ne_zero h0
        simp only [Nat.succ_eq_add_one, Nat.add_sub_cancel]
        rcases List.mem_cons.mp hy with rfl | hy
        · exact Or.inr (hskip y (by simp))
        · exact ih k (fun w hw => hskip w (by simp [hw])) y hy
      · obtain ⟨t, ht⟩ := List.isPrefixOf_iff_prefix.mp hpre
        cases pat with
        | nil => exact absurd rfl hpat
        | cons p pat =>
          obtain ⟨rfl, hs⟩ := List.cons.inj ht
          rcases List.mem_cons.mp hy with rfl | hy
          · exact Or.inr (by simp)
          · refine ih pat.length (fun w hw => ?_) y hy
            have htake : s.take pat.length = pat := by
              rw [← hs]
              exact List.take_left
            exact List.mem_cons_of_mem _ (htake ▸ hw)
      · rcases List.mem_cons.mp hy with rfl | hy
        · exact Or.inl (by simp)
        · rcases ih 0 (by simp) y hy with h | h
          · exact Or.inl (List.mem_cons_of_mem _ h)
          · exact Or.inr h
  exact key s 0 (by simp) x hx

lemma asciiOf_scalar {x y : PyChar} (h : asciiOf x = some y) : ∃ c, x = .scalar c := by
  cases x with
  | scalar c => exact ⟨c, rfl⟩
  | surrogate k => simp [asciiOf] at h

lemma asciiOf_of_intBase16 {s : PyStr} {n : ℤ} (h : intBase16 s = some n) {x : PyChar}
    (hx : x ∈ s) : ∃ y, asciiOf x = some y := by
  rw [intBase16, Option.bind_eq_bind, Option.bind_eq_some_iff] at h
  obtain ⟨t, ht, -⟩ := h
  exact isSome_of_mapM ht hx

/-- The parts of a text that are dropped before its integer is read. -/
lemma mem_strip {s : PyStr} {p : PyChar → Bool} {x : PyChar} (hx : x ∈ s) :
    x ∈ (s.dropWhile p).rdropWhile p ∨ p x = true := by
  have hdrop : ∀ {l : PyStr}, x ∈ l → x ∈ l.dropWhile p ∨ p x = true := by
    intro l hl
    rw [← List.takeWhile_append_dropWhile (p := p) (l := l)] at hl
    rcases List.mem_append.mp hl with hl | hl
    · exact Or.inr (List.mem_takeWhile_imp hl)
    · exact Or.inl hl
  rcases hdrop hx with h | h
  · rcases hdrop (List.mem_reverse.mpr h) with h | h
    · exact Or.inl (List.mem_reverse.mpr h)
    · exact Or.inr h
  · exact Or.inr h

/-- Every character of a text that the constructor accepts is one of those that are removed, or
belongs to the text of an integer. -/
theorem forall_of_uuidOf {s : PyStr} {n : ℕ} (h : uuidOf s = some n) {P : PyChar → Prop}
    (hremoved : ∀ x ∈ text "urn:uuid:-\x7b\x7d", P x)
    (hread : ∀ x y, asciiOf x = some y → P x) : ∀ x ∈ s, P x := by
  unfold uuidOf at h
  simp only at h
  split_ifs at h with hlen
  intro x hx
  rcases @mem_removeAll (text "urn:") _ (by decide) _ hx with hx | hx
  swap
  · have hsub : ∀ y ∈ text "urn:", y ∈ text "urn:uuid:-\x7b\x7d" := by decide
    exact hremoved x (hsub x hx)
  rcases @mem_removeAll (text "uuid:") _ (by decide) _ hx with hx | hx
  swap
  · have hsub : ∀ y ∈ text "uuid:", y ∈ text "urn:uuid:-\x7b\x7d" := by decide
    exact hremoved x (hsub x hx)
  rcases mem_strip (p := (· ∈ [PyChar.scalar '\x7b', .scalar '\x7d'])) hx with hx | hx
  swap
  · have hsub : ∀ y ∈ [PyChar.scalar '\x7b', .scalar '\x7d'], y ∈ text "urn:uuid:-\x7b\x7d" := by
      decide
    exact hremoved x (hsub x (of_decide_eq_true hx))
  by_cases hyphen : x = .scalar '-'
  · exact hremoved x (hyphen ▸ by decide)
  · split at h
    · next m hm =>
      obtain ⟨y, hy⟩ := asciiOf_of_intBase16 hm
        (List.mem_filter.mpr ⟨hx, by simpa using hyphen⟩)
      exact hread x y hy
    · simp at h

/-- **A text that the constructor accepts can be encoded.** -/
theorem uuidOf_wellFormed {s : PyStr} {n : ℕ} (h : uuidOf s = some n) : WellFormed s := by
  rw [wellFormed_iff]
  refine forall_of_uuidOf h (fun x hx => ?_) fun x y hy => asciiOf_scalar hy
  exact wellFormed_iff.mp (wellFormed_text _) x hx

end Omkit.Lib
