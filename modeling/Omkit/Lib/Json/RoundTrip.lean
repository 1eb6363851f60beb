import Omkit.Lib.Json.Loads
import Mathlib.Tactic

/-!
# The decoder inverts the encoder

`loads` reads back what `dumps` wrote: token by token for strings and numbers, then by induction
on the value.  The text that follows a value must not continue a number, and inside a document it
never does, since every value is followed by a separator or by a closing bracket.
-/

namespace Omkit.Lib

/-! ## Strings -/

/-- The units that the scanner finds in the text of one character. -/
def unitsOf (ascii : Bool) : PyChar → List StrUnit
  | .scalar c =>
    match shortEscape c with
    | some _ => [.lit (.scalar c)]
    | none =>
      if c.toNat < 0x20 ∨ ascii = true ∧ 0x7e < c.toNat then
        if c.toNat < 0x10000 then [.esc c.toNat]
        else [.esc (0xd800 + (c.toNat - 0x10000) / 0x400),
          .esc (0xdc00 + (c.toNat - 0x10000) % 0x400)]
      else [.lit (.scalar c)]
  | .surrogate k => if ascii = true then [.esc (0xd800 + k)] else [.lit (.surrogate k)]

lemma hexVal_hexDigit : ∀ d < 16, hexVal (hexDigit d) = some d := by decide

lemma hexVal4_hexDigit {u : ℕ} (hu : u < 0x10000) :
    hexVal4 (hexDigit (u / 4096 % 16)) (hexDigit (u / 256 % 16)) (hexDigit (u / 16 % 16))
      (hexDigit (u % 16)) = some u := by
  have h : ∀ n, hexVal (hexDigit (n % 16)) = some (n % 16) :=
    fun n => hexVal_hexDigit _ (Nat.mod_lt _ (by norm_num))
  simp only [hexVal4, h, Option.bind_eq_bind, Option.bind_some, Option.pure_def,
    Option.some.injEq]
  omega

lemma scanUnits_uEscape {u : ℕ} (hu : u < 0x10000) (r : PyStr) :
    scanUnits (uEscape u ++ r) = pushUnit (.esc u) (scanUnits r) := by
  simp only [uEscape, List.cons_append, List.nil_append]
  rw [scanUnits, hexVal4_hexDigit hu]

lemma scanUnits_lit {x : PyChar} (hq : x ≠ .scalar '"') (hb : x ≠ .scalar '\\')
    (hc : isControl x = false) (r : PyStr) :
    scanUnits (x :: r) = pushUnit (.lit x) (scanUnits r) := by
  rw [scanUnits]
  · simp [hc, hb]
  · exact hq
  · intro _ _ _ _ _ h
    exact absurd h hb
  · intro _ _ h
    exact absurd h hb

/-- A short escape is read back. -/
lemma shortEscape_spec {c e : Char} (h : shortEscape c = some e) :
    unescape (.scalar e) = some c ∧ e ≠ 'u' := by
  revert h
  fun_cases shortEscape c
  all_goals
    intro h
    cases h
  all_goals
    subst_vars
    exact ⟨rfl, by decide⟩

lemma shortEscape_none {c : Char} (h : shortEscape c = none) : c ≠ '"' ∧ c ≠ '\\' := by
  revert h
  fun_cases shortEscape c
  all_goals
    intro h
    cases h
  constructor <;> assumption

lemma scanUnits_short {c e : Char} (h : shortEscape c = some e) (r : PyStr) :
    scanUnits (.scalar '\\' :: .scalar e :: r) = pushUnit (.lit (.scalar c)) (scanUnits r) := by
  obtain ⟨he, hu⟩ := shortEscape_spec h
  rw [scanUnits]
  · rw [he]
  · intro _ _ _ _ _ h'
    exact absurd (PyChar.scalar.inj h') hu

lemma toNat_lt (c : Char) : c.toNat < 0x110000 := by
  have := c.valid
  simp only [UInt32.isValidChar, Nat.isValidChar] at this
  show c.val.toNat < _
  omega

lemma scanUnits_escapeChar (ascii : Bool) (x : PyChar) (r : PyStr) :
    scanUnits (escapeChar ascii x ++ r) = (unitsOf ascii x).foldr pushUnit (scanUnits r) := by
  cases x with
  | surrogate k =>
    simp only [escapeChar, unitsOf]
    split
    · have hk : 0xd800 + (k : ℕ) < 0x10000 := by omega
      rw [scanUnits_uEscape hk]
      rfl
    · exact scanUnits_lit (by simp) (by simp) rfl r
  | scalar c =>
    simp only [escapeChar, unitsOf]
    cases hs : shortEscape c with
    | some e => exact scanUnits_short hs r
    | none =>
      obtain ⟨hq, hb⟩ := shortEscape_none hs
      simp only
      have hc := toNat_lt c
      split_ifs with h₁ h₂
      · rw [scanUnits_uEscape h₂]
        rfl
      · -- above the basic plane: two escapes
        rw [List.append_assoc, scanUnits_uEscape (by omega), scanUnits_uEscape (by omega)]
        rfl
      · have hctl : isControl (.scalar c) = false := by
          simp only [isControl, decide_eq_false_iff_not]
          exact fun h => h₁ (Or.inl h)
        exact scanUnits_lit (by simpa using hq) (by simpa using hb) hctl r

lemma foldr_pushUnit (us : List StrUnit) (vs : List StrUnit) (r : PyStr) :
    us.foldr pushUnit (.ok (vs, r)) = .ok (us ++ vs, r) := by
  induction us with
  | nil => rfl
  | cons u us ih => rw [List.foldr_cons, ih]; rfl

lemma scanUnits_body (ascii : Bool) (s : PyStr) (r : PyStr) :
    scanUnits (s.flatMap (escapeChar ascii) ++ .scalar '"' :: r)
      = .ok (s.flatMap (unitsOf ascii), r) := by
  induction s with
  | nil => simp [scanUnits]
  | cons x s ih =>
    rw [List.flatMap_cons, List.append_assoc, scanUnits_escapeChar, ih, foldr_pushUnit,
      List.flatMap_cons]

lemma joinUnits_lit (x : PyChar) (us : List StrUnit) :
    joinUnits (.lit x :: us) = x :: joinUnits us := by
  rw [joinUnits]

lemma joinUnits_esc {u : ℕ} (hu : isHigh u = false) (us : List StrUnit) :
    joinUnits (.esc u :: us) = ofUnit u :: joinUnits us := by
  cases us with
  | nil => simp [joinUnits]
  | cons v us => cases v <;> simp [joinUnits, hu]

/-- A scalar value is no surrogate. -/
lemma not_surrogate (c : Char) : ¬(0xd800 ≤ c.toNat ∧ c.toNat < 0xe000) := by
  have hv := c.valid
  simp only [UInt32.isValidChar, Nat.isValidChar] at hv
  show ¬(0xd800 ≤ c.val.toNat ∧ c.val.toNat < 0xe000)
  omega

lemma ofUnit_scalar {c : Char} : ofUnit c.toNat = .scalar c := by
  rw [ofUnit, dif_neg (not_surrogate c), Char.ofNat_toNat]

lemma isHigh_scalar {c : Char} : isHigh c.toNat = false := by
  have hc := not_surrogate c
  simp only [isHigh, Bool.and_eq_false_iff, decide_eq_false_iff_not]
  omega

/-- The two halves of a pair are joined. -/
lemma joinUnits_pair {c : Char} (h : 0x10000 ≤ c.toNat) (us : List StrUnit) :
    joinUnits (.esc (0xd800 + (c.toNat - 0x10000) / 0x400) ::
      .esc (0xdc00 + (c.toNat - 0x10000) % 0x400) :: us) = .scalar c :: joinUnits us := by
  have hc := toNat_lt c
  have hhi : isHigh (0xd800 + (c.toNat - 0x10000) / 0x400) = true := by
    simp only [isHigh, Bool.and_eq_true, decide_eq_true_eq]
    omega
  have hlo : isLow (0xdc00 + (c.toNat - 0x10000) % 0x400) = true := by
    simp only [isLow, Bool.and_eq_true, decide_eq_true_eq]
    omega
  have hval : 0x10000 + (0xd800 + (c.toNat - 0x10000) / 0x400 - 0xd800) * 0x400
      + (0xdc00 + (c.toNat - 0x10000) % 0x400 - 0xdc00) = c.toNat := by omega
  rw [joinUnits, hhi, hlo, hval, Char.ofNat_toNat]
  rfl

lemma joinUnits_unitsOf (ascii : Bool) (c : Char) (us : List StrUnit) :
    joinUnits (unitsOf ascii (.scalar c) ++ us) = .scalar c :: joinUnits us := by
  simp only [unitsOf]
  cases hs : shortEscape c with
  | some e => exact joinUnits_lit _ _
  | none =>
    simp only
    split_ifs with h₁ h₂
    · rw [List.singleton_append, joinUnits_esc isHigh_scalar, ofUnit_scalar]
    · rw [List.cons_append, List.singleton_append, joinUnits_pair (not_lt.mp h₂)]
    · exact joinUnits_lit _ _

/-- What the decoder makes of a string that was written: the string itself, except that two lone
surrogates which happen to form a pair come back as one character. -/
def readStr (ascii : Bool) (s : PyStr) : PyStr := joinUnits (s.flatMap (unitsOf ascii))

@[simp] lemma readStr_nil (ascii : Bool) : readStr ascii [] = [] := rfl

lemma joinUnits_ne_nil (u : StrUnit) (us : List StrUnit) : joinUnits (u :: us) ≠ [] := by
  cases u with
  | lit x => simp [joinUnits]
  | esc n =>
    cases us with
    | nil => simp [joinUnits]
    | cons v us =>
      cases v with
      | lit x => simp [joinUnits]
      | esc m =>
        rw [joinUnits]
        split_ifs <;> simp

lemma unitsOf_ne_nil (ascii : Bool) (x : PyChar) : unitsOf ascii x ≠ [] := by
  cases x with
  | scalar c =>
    rw [unitsOf]
    split
    · simp
    · split_ifs <;> simp
  | surrogate k =>
    rw [unitsOf]
    split_ifs <;> simp

/-- No character is lost altogether. -/
lemma readStr_eq_nil {ascii : Bool} {s : PyStr} : readStr ascii s = [] ↔ s = [] := by
  cases s with
  | nil => exact iff_of_true rfl rfl
  | cons x s =>
    obtain ⟨u, us, hu⟩ := List.exists_cons_of_ne_nil (unitsOf_ne_nil ascii x)
    rw [readStr, List.flatMap_cons, hu, List.cons_append]
    exact iff_of_false (joinUnits_ne_nil u _) (List.cons_ne_nil x s)

lemma scanString_strText (ascii : Bool) (s : PyStr) (r : PyStr) :
    scanString (s.flatMap (escapeChar ascii) ++ .scalar '"' :: r) = .ok (readStr ascii s, r) := by
  simp only [scanString, scanUnits_body, readStr]

/-- A string without surrogates is read back. -/
lemma readStr_wellFormed (ascii : Bool) {s : PyStr} (hs : WellFormed s) : readStr ascii s = s := by
  obtain ⟨l, rfl⟩ := hs
  rw [readStr]
  induction l with
  | nil => rfl
  | cons c l ih => rw [List.map_cons, List.flatMap_cons, joinUnits_unitsOf, ih]

/-! ## Numbers -/

/-- The text does not continue a number: nor does what follows a value in a document. -/
def Stops (r : PyStr) : Prop :=
  ∀ x ∈ r.head?, isDigit x = false ∧ x ≠ .scalar '.' ∧ x ≠ .scalar 'e' ∧ x ≠ .scalar 'E'

/-- The text does not start with a digit. -/
def NoDigit (r : PyStr) : Prop := ∀ x ∈ r.head?, isDigit x = false

lemma Stops.noDigit {r : PyStr} (h : Stops r) : NoDigit r := fun x hx => (h x hx).1

lemma takeWhile_digits {ds r : PyStr} (hd : ∀ x ∈ ds, isDigit x = true) (hr : NoDigit r) :
    (ds ++ r).takeWhile isDigit = ds ∧ (ds ++ r).dropWhile isDigit = r := by
  rw [List.takeWhile_append_of_pos hd, List.dropWhile_append_of_pos hd]
  cases r with
  | nil => simp
  | cons x r =>
    have hx : isDigit x = false := hr x (by simp)
    simp [hx]

lemma scanNat_append {ds r : PyStr} (hd : NatLit ds) (hr : NoDigit r) :
    scanNat (ds ++ r) = some (ds, r) := by
  rcases hd with rfl | ⟨c, t, rfl, hc, hc0, ht⟩
  · simp [scanNat]
  · obtain ⟨h₁, h₂⟩ := takeWhile_digits ht hr
    simp [scanNat, hc0, isDigit, hc, h₁, h₂]

lemma natLit_head {ds : PyStr} (hd : NatLit ds) :
    ∃ c r, ds = .scalar c :: r ∧ c.isDigit = true := by
  rcases hd with rfl | ⟨c, t, rfl, hc, -, -⟩
  · exact ⟨'0', [], rfl, by decide⟩
  · exact ⟨c, t, rfl, hc⟩

lemma scanInt_append {ip r : PyStr} (hi : IntLit ip) (hr : NoDigit r) :
    scanInt (ip ++ r) = some (ip, r) := by
  rcases hi with hi | ⟨t, rfl, ht⟩
  · obtain ⟨c, t, rfl, hc⟩ := natLit_head hi
    have hne : c ≠ '-' := by
      rintro rfl
      exact absurd hc (by decide)
    rw [← scanNat_append hi hr, List.cons_append, scanInt]
    intro _ h
    exact hne (PyChar.scalar.inj (List.cons.inj h).1)
  · rw [List.cons_append, scanInt, scanNat_append ht hr]
    rfl

lemma scanFrac_append {fp r : PyStr} (hf : FracLit fp) (hr : NoDigit r)
    (hr' : r.head? ≠ some (.scalar '.')) : scanFrac (fp ++ r) = (fp, r) := by
  rcases hf with rfl | ⟨x, t, rfl, hx, ht⟩
  · cases r with
    | nil => rfl
    | cons x r =>
      rw [List.nil_append, scanFrac]
      intro _ _ h
      exact hr' (by simp [(List.cons.inj h).1])
  · obtain ⟨h₁, h₂⟩ := takeWhile_digits ht hr
    simp [scanFrac, hx, h₁, h₂]

lemma isDigit_ne {x : PyChar} {c : Char} (hx : isDigit x = true) (hc : c.isDigit = false) :
    x ≠ .scalar c := by
  rintro rfl
  simp [isDigit, hc] at hx

lemma scanSign_digit {x : PyChar} (hx : isDigit x = true) (r : PyStr) :
    scanSign (x :: r) = ([], x :: r) := by
  rw [scanSign]
  · intro _ h
    exact isDigit_ne hx (by decide) (List.cons.inj h).1
  · intro _ h
    exact isDigit_ne hx (by decide) (List.cons.inj h).1

lemma scanExp_append {ep r : PyStr} (he : ExpLit ep) (hr : Stops r) :
    scanExp (ep ++ r) = (ep, r) := by
  rcases he with rfl | ⟨e, sgn, x, t, rfl, he, hs, hx, ht⟩
  · cases r with
    | nil => rfl
    | cons x r =>
      obtain ⟨-, -, h₁, h₂⟩ := hr x (by simp)
      simp [scanExp, h₁, h₂]
  · obtain ⟨h₁, h₂⟩ := takeWhile_digits ht hr.noDigit
    have hsign : scanSign (sgn ++ x :: (t ++ r)) = (sgn, x :: (t ++ r)) := by
      rcases hs with rfl | rfl | rfl
      · exact scanSign_digit hx _
      · rfl
      · rfl
    have he' : PyChar.scalar e = .scalar 'e' ∨ PyChar.scalar e = .scalar 'E' := by simpa using he
    simp only [List.cons_append, List.append_assoc, scanExp, if_pos he', hsign, hx, if_true, h₁,
      h₂]

/-! ## Constants -/

section Keywords

variable {F : Type}

lemma isPrefixOf_cons_ne {x y : PyChar} {s t : PyStr} (h : x ≠ y) :
    (x :: s).isPrefixOf (y :: t) = false := by
  simp [List.isPrefixOf, h]

/-- How the constants start. -/
lemma keywords_head : ∀ p ∈ keywords F, ∃ c t, p.1 = .scalar c :: t ∧
    (c ∈ ['n', 't', 'f', 'N', 'I'] ∨ c = '-' ∧ ∃ u, t = .scalar 'I' :: u) := by
  have h₁ : text "null" = .scalar 'n' :: text "ull" := by decide
  have h₂ : text "true" = .scalar 't' :: text "rue" := by decide
  have h₃ : text "false" = .scalar 'f' :: text "alse" := by decide
  have h₄ : text "NaN" = .scalar 'N' :: text "aN" := by decide
  have h₅ : text "Infinity" = .scalar 'I' :: text "nfinity" := by decide
  have h₆ : text "-Infinity" = .scalar '-' :: .scalar 'I' :: text "nfinity" := by decide
  intro p hp
  simp only [keywords, List.mem_cons, List.not_mem_nil, or_false] at hp
  rcases hp with rfl | rfl | rfl | rfl | rfl | rfl
  · exact ⟨_, _, h₁, Or.inl (by decide)⟩
  · exact ⟨_, _, h₂, Or.inl (by decide)⟩
  · exact ⟨_, _, h₃, Or.inl (by decide)⟩
  · exact ⟨_, _, h₄, Or.inl (by decide)⟩
  · exact ⟨_, _, h₅, Or.inl (by decide)⟩
  · exact ⟨_, _, h₆, Or.inr ⟨rfl, _, rfl⟩⟩

/-- No constant starts like a number. -/
lemma find?_keywords {ip r : PyStr} (hi : IntLit ip) :
    (keywords F).find? (fun p => p.1.isPrefixOf (ip ++ r)) = none := by
  refine List.find?_eq_none.mpr fun p hp => ?_
  obtain ⟨c, t, ht, hc⟩ := keywords_head p hp
  rw [ht, Bool.not_eq_true]
  have hdigit : c ∈ ['n', 't', 'f', 'N', 'I'] → c.isDigit = false ∧ c ≠ '-' := by
    intro h
    fin_cases h <;> decide
  rcases hi with hi | ⟨s, rfl, hs⟩
  · obtain ⟨e, s, rfl, he⟩ := natLit_head hi
    refine isPrefixOf_cons_ne (isDigit_ne (x := .scalar e) he ?_).symm
    rcases hc with hc | ⟨rfl, -⟩
    · exact (hdigit hc).1
    · decide
  · obtain ⟨e, s, rfl, he⟩ := natLit_head hs
    rcases hc with hc | ⟨rfl, u, rfl⟩
    · exact isPrefixOf_cons_ne (by simpa using (hdigit hc).2)
    · -- `-Infinity`: its second character is no digit
      have hne : PyChar.scalar 'I' ≠ .scalar e := (isDigit_ne (x := .scalar e) he (by decide)).symm
      rw [List.cons_append, List.cons_append, List.isPrefixOf_cons_cons_self]
      exact isPrefixOf_cons_ne hne

/-- A constant is found by its text. -/
lemma find?_keyword {p : PyStr × Json F} (hp : p ∈ keywords F) (r : PyStr) :
    (keywords F).find? (fun q => q.1.isPrefixOf (p.1 ++ r)) = some p := by
  simp only [keywords, List.mem_cons, List.not_mem_nil, or_false] at hp
  rcases hp with rfl | rfl | rfl | rfl | rfl | rfl <;> simp [keywords, text, List.isPrefixOf]

end Keywords

/-! ## What the decoder makes of a value -/

section ReadBack

variable {F : Type}

mutual

/-- What the decoder makes of a value that was written. -/
def readBack (a : Bool) : Json F → Json F
  | .str s => .str (readStr a s)
  | .arr l => .arr (readItems a l)
  | .obj l => .obj (Dict.ofList (readMembers a l)).items
  | v => v

/-- `readBack` over the items of an array. -/
def readItems (a : Bool) : List (Json F) → List (Json F)
  | [] => []
  | v :: l => readBack a v :: readItems a l

/-- `readBack` over the members of an object, and their keys. -/
def readMembers (a : Bool) : List (PyStr × Json F) → List (PyStr × Json F)
  | [] => []
  | m :: l => (readStr a m.1, readBack a m.2) :: readMembers a l

end

mutual

/-- A well-formed value comes back as it was. -/
theorem readBack_wf (a : Bool) (v : Json F) (hv : v.Wf) : readBack a v = v := by
  match v, hv with
  | .str s, hs => rw [readBack, readStr_wellFormed a hs]
  | .arr l, hl => rw [readBack, readItems_wf a l hl]
  | .obj l, hl => rw [readBack, readMembers_wf a l hl.2, Dict.items_ofList hl.1]
  | .null, _ | .bool _, _ | .int _, _ | .float _, _ | .nonFinite _, _ => rfl

theorem readItems_wf (a : Bool) (l : List (Json F)) (hl : WfItems l) : readItems a l = l := by
  match l, hl with
  | [], _ => rfl
  | v :: l, hl => rw [readItems, readBack_wf a v hl.1, readItems_wf a l hl.2]

theorem readMembers_wf (a : Bool) (l : List (PyStr × Json F)) (hl : WfMembers l) :
    readMembers a l = l := by
  match l, hl with
  | [], _ => rfl
  | m :: l, hl =>
    rw [readMembers, readStr_wellFormed a hl.1, readBack_wf a m.2 hl.2.1,
      readMembers_wf a l hl.2.2]

end

end ReadBack

variable {F : Type} [JsonRuntime F]

lemma stops_expLit {ep r : PyStr} (he : ExpLit ep) (hr : Stops r) :
    NoDigit (ep ++ r) ∧ (ep ++ r).head? ≠ some (.scalar '.') := by
  rcases he with rfl | ⟨e, sgn, x, t, rfl, he, -, -, -⟩
  · refine ⟨hr.noDigit, fun h => (hr _ h).2.1 rfl⟩
  · rcases he with rfl | rfl <;> simp [NoDigit, isDigit]

lemma noDigit_fracLit {fp r : PyStr} (hf : FracLit fp) (hr : NoDigit r) : NoDigit (fp ++ r) := by
  rcases hf with rfl | ⟨x, t, rfl, -, -⟩
  · exact hr
  · simp only [NoDigit, List.cons_append, List.head?_cons, Option.mem_def, Option.some.injEq,
      forall_eq']
    decide

/-- The scanner finds the three parts of a number. -/
lemma scanNumber_append {ip fp ep r : PyStr} (hi : IntLit ip) (hf : FracLit fp) (he : ExpLit ep)
    (hr : Stops r) :
    scanNumber (F := F) (ip ++ (fp ++ ep) ++ r) = some ((numberOf ip fp ep).map fun v => (v, r)) := by
  obtain ⟨h₁, h₂⟩ := stops_expLit he hr
  simp only [scanNumber, List.append_assoc, scanInt_append hi (noDigit_fracLit hf h₁),
    scanFrac_append hf h₁ h₂, scanExp_append he hr, Option.map_some]

lemma natText_digits {n : ℕ} : ∀ x ∈ natText n, isDigit x = true := by
  intro x hx
  obtain ⟨c, hc, rfl⟩ := List.mem_map.mp hx
  exact Nat.isDigit_of_mem_toDigits (by norm_num) (by norm_num) hc

lemma natText_succ {n : ℕ} (h : 10 ≤ n) :
    natText n = natText (n / 10) ++ [.scalar (Nat.digitChar (n % 10))] := by
  rw [natText, Nat.toDigits_of_base_le (by norm_num) h, List.map_append]
  rfl

lemma digitChar_pos : ∀ d < 10, d ≠ 0 → (Nat.digitChar d).isDigit = true ∧ Nat.digitChar d ≠ '0' := by
  decide

lemma natText_pos {n : ℕ} (hn : n ≠ 0) :
    ∃ c r, natText n = .scalar c :: r ∧ c.isDigit = true ∧ c ≠ '0' := by
  induction n using Nat.strong_induction_on with
  | _ n ih =>
    by_cases h : n < 10
    · refine ⟨Nat.digitChar n, [], ?_, digitChar_pos n h hn⟩
      rw [natText, Nat.toDigits_of_lt_base h]
      rfl
    · obtain ⟨c, r, hr, hc⟩ := ih (n / 10) (by omega) (by omega)
      exact ⟨c, r ++ [.scalar (Nat.digitChar (n % 10))], by rw [natText_succ (by omega), hr]; rfl, hc⟩

lemma natLit_natText (n : ℕ) : NatLit (natText n) := by
  by_cases hn : n = 0
  · subst hn
    exact Or.inl rfl
  · obtain ⟨c, r, hr, hc, hc0⟩ := natText_pos hn
    refine Or.inr ⟨c, r, hr, hc, hc0, fun x hx => ?_⟩
    exact natText_digits x (by rw [hr]; exact List.mem_cons_of_mem _ hx)

lemma intLit_intText (n : ℤ) : IntLit (intText n) := by
  cases n with
  | ofNat m => exact Or.inl (natLit_natText m)
  | negSucc m => exact Or.inr ⟨_, rfl, natLit_natText _⟩

lemma natOf_natText (n : ℕ) : natOf (natText n) = n := by
  have h : (natText n).filterMap PyChar.toChar? = Nat.toDigits 10 n := by
    rw [natText, List.filterMap_map]
    exact List.filterMap_some
  rw [natOf, h, Nat.ofDigitChars_toDigits (by norm_num) (by norm_num)]

lemma natText_unsigned (n : ℕ) : unsigned (natText n) = natText n := by
  obtain ⟨c, r, hr, hc⟩ := natLit_head (natLit_natText n)
  rw [hr, unsigned]
  intro _ h
  exact isDigit_ne (x := .scalar c) hc (by decide) (List.cons.inj h).1

lemma intOf_intText (n : ℤ) : intOf (intText n) = n := by
  cases n with
  | ofNat m =>
    obtain ⟨c, r, hr, hc⟩ := natLit_head (natLit_natText m)
    rw [intText, intOf, natOf_natText]
    · rfl
    · intro _ h
      rw [hr] at h
      exact isDigit_ne (x := .scalar c) hc (by decide) (List.cons.inj h).1
  | negSucc m =>
    rw [intText, intOf, natOf_natText]
    omega

lemma unsigned_intText (n : ℤ) : (unsigned (intText n)).length = (Nat.toDigits 10 n.natAbs).length := by
  cases n with
  | ofNat m => rw [intText, natText_unsigned, natText, List.length_map]; rfl
  | negSucc m => rw [intText, unsigned, natText, List.length_map]; rfl

lemma numberOf_int {n : ℤ} (hn : digitsOk F n.natAbs = true) :
    numberOf (F := F) (intText n) [] [] = .ok (.int n) := by
  simp only [numberOf, and_self, if_true, unsigned_intText, intOf_intText]
  exact if_pos hn

lemma numberOf_float {x : F} {ip fp ep : PyStr} (hx : JsonRuntime.floatRepr x = ip ++ (fp ++ ep))
    (hne : fp ≠ [] ∨ ep ≠ []) : numberOf (F := F) ip fp ep = .ok (.float x) := by
  have h : ¬(fp = [] ∧ ep = []) := by tauto
  simp only [numberOf, if_neg h, ← hx, JsonRuntime.floatOf_repr]

/-! ## Numbers as values -/

lemma scanScalar_number {ip fp ep r : PyStr} {v : Json F} (hi : IntLit ip) (hf : FracLit fp)
    (he : ExpLit ep) (hr : Stops r) (hv : numberOf ip fp ep = .ok v) :
    scanScalar (ip ++ (fp ++ ep) ++ r) = .ok (v, r) := by
  have hnone := find?_keywords (F := F) (r := fp ++ ep ++ r) hi
  have happ : ip ++ (fp ++ ep) ++ r = ip ++ (fp ++ ep ++ r) := by simp
  rw [scanScalar, happ, hnone, ← happ, scanNumber_append hi hf he hr, hv]
  rfl

lemma scanScalar_int {n : ℤ} (hn : digitsOk F n.natAbs = true) {r : PyStr} (hr : Stops r) :
    scanScalar (intText n ++ r) = .ok ((.int n : Json F), r) := by
  have h := scanScalar_number (intLit_intText n) (Or.inl rfl) (Or.inl rfl) hr (numberOf_int hn)
  simpa using h

lemma scanScalar_float (x : F) {r : PyStr} (hr : Stops r) :
    scanScalar (JsonRuntime.floatRepr x ++ r) = .ok ((.float x : Json F), r) := by
  obtain ⟨ip, fp, ep, hx, hi, hf, he, hne⟩ := JsonRuntime.floatRepr_lit x
  rw [hx]
  exact scanScalar_number hi hf he hr (numberOf_float hx hne)

/-- A value that opens neither a string nor an array nor an object. -/
lemma scanValue_scalar {x : PyChar} {t : PyStr} (hq : x ≠ .scalar '"') (hb : x ≠ .scalar '[')
    (hc : x ≠ .scalar '{') (d fuel : ℕ) :
    scanValue (F := F) d (x :: t) (fuel + 1) = scanScalar (x :: t) := by
  rw [scanValue]
  · intro _ h
    exact hq (List.cons.inj h).1
  · intro _ h
    exact hb (List.cons.inj h).1
  · intro _ h
    exact hc (List.cons.inj h).1

lemma intLit_head {ip : PyStr} (hi : IntLit ip) :
    ∃ c t, ip = .scalar c :: t ∧ (c.isDigit = true ∨ c = '-') := by
  rcases hi with hi | ⟨t, rfl, -⟩
  · obtain ⟨c, t, rfl, hc⟩ := natLit_head hi
    exact ⟨c, t, rfl, Or.inl hc⟩
  · exact ⟨'-', t, rfl, Or.inr rfl⟩

/-- A number starts with nothing but a digit or its sign. -/
lemma numberHead_ne {c e : Char} (hc : c.isDigit = true ∨ c = '-') (he : e.isDigit = false)
    (he' : e ≠ '-') : PyChar.scalar c ≠ .scalar e := by
  intro h
  obtain rfl := PyChar.scalar.inj h
  rcases hc with hc | hc
  · simp [he] at hc
  · exact he' hc

lemma scanValue_number {s r : PyStr} {c : Char} {t : PyStr} (hs : s = .scalar c :: t)
    (hc : c.isDigit = true ∨ c = '-') (d fuel : ℕ) :
    scanValue (F := F) d (s ++ r) (fuel + 1) = scanScalar (s ++ r) := by
  subst hs
  exact scanValue_scalar (numberHead_ne hc (by decide) (by decide))
    (numberHead_ne hc (by decide) (by decide)) (numberHead_ne hc (by decide) (by decide)) d fuel

/-! ## Values -/

/-- Separators that the decoder reads back: a comma and a colon, with whitespace after them. -/
structure DumpOpts.Ok (o : DumpOpts) : Prop where
  item : ∃ w, o.itemSep = .scalar ',' :: w ∧ ∀ x ∈ w, isWs x = true
  key : ∃ w, o.keySep = .scalar ':' :: w ∧ ∀ x ∈ w, isWs x = true

lemma DumpOpts.default_ok : DumpOpts.default.Ok := ⟨⟨_, rfl, by decide⟩, ⟨_, rfl, by decide⟩⟩

lemma DumpOpts.compact_ok : DumpOpts.compact.Ok := ⟨⟨_, rfl, by decide⟩, ⟨_, rfl, by decide⟩⟩

lemma skipWs_cons {x : PyChar} (hx : isWs x = false) (s : PyStr) : skipWs (x :: s) = x :: s := by
  simp [skipWs, hx]

lemma skipWs_append {w : PyStr} (hw : ∀ x ∈ w, isWs x = true) (s : PyStr) :
    skipWs (w ++ s) = skipWs s :=
  List.dropWhile_append_of_pos hw

/-- How a value may start: not with whitespace, a closing bracket or a byte order mark. -/
def Opens (s : PyStr) : Prop :=
  ∃ x t, s = x :: t ∧ isWs x = false ∧ x ≠ .scalar ']' ∧ x ≠ .scalar '}' ∧ x ≠ .scalar '\ufeff'

lemma Opens.append {s : PyStr} (h : Opens s) (r : PyStr) : Opens (s ++ r) := by
  obtain ⟨x, t, rfl, hx⟩ := h
  exact ⟨x, t ++ r, rfl, hx⟩

lemma Opens.skipWs {s : PyStr} (h : Opens s) : Lib.skipWs s = s := by
  obtain ⟨x, t, rfl, hx, -⟩ := h
  exact skipWs_cons hx t

lemma opens_of_intLit {ip : PyStr} (hi : IntLit ip) : Opens ip := by
  obtain ⟨c, t, rfl, hc⟩ := intLit_head hi
  refine ⟨_, _, rfl, ?_⟩
  rcases hc with hc | rfl
  · have hne : ∀ {e : Char}, e.isDigit = false → PyChar.scalar c ≠ .scalar e :=
      fun he => isDigit_ne (x := .scalar c) hc he
    refine ⟨?_, hne (by decide), hne (by decide), hne (by decide)⟩
    simp only [isWs, decide_eq_false (hne (show ' '.isDigit = false by decide)),
      decide_eq_false (hne (show '\t'.isDigit = false by decide)),
      decide_eq_false (hne (show '\n'.isDigit = false by decide)),
      decide_eq_false (hne (show '\r'.isDigit = false by decide)), Bool.or_self]
  · decide

lemma render_opens (o : DumpOpts) (v : Json F) : Opens (render o v) := by
  cases v with
  | null => exact ⟨_, _, rfl, by decide⟩
  | bool b => cases b <;> exact ⟨_, _, rfl, by decide⟩
  | int n => exact opens_of_intLit (intLit_intText n)
  | float x =>
    obtain ⟨ip, fp, ep, hx, hi, -⟩ := JsonRuntime.floatRepr_lit x
    show Opens (JsonRuntime.floatRepr x)
    rw [hx]
    exact (opens_of_intLit hi).append _
  | nonFinite k => cases k <;> exact ⟨_, _, rfl, by decide⟩
  | str s => exact ⟨_, _, rfl, by decide⟩
  | arr l => cases l <;> exact ⟨_, _, rfl, by decide⟩
  | obj l => cases l <;> exact ⟨_, _, rfl, by decide⟩

lemma stops_cons {c : Char} (h : isDigit (.scalar c) = false ∧ PyChar.scalar c ≠ .scalar '.' ∧
    PyChar.scalar c ≠ .scalar 'e' ∧ PyChar.scalar c ≠ .scalar 'E') (r : PyStr) :
    Stops (.scalar c :: r) := by
  intro x hx
  obtain rfl : PyChar.scalar c = x := by simpa using hx
  exact h

lemma stops_renderItems {o : DumpOpts} (ho : o.Ok) (l : List (Json F)) (r : PyStr) :
    Stops (renderItems o l ++ r) := by
  cases l with
  | nil => exact stops_cons (by decide) _
  | cons v l =>
    obtain ⟨w, hw, -⟩ := ho.item
    rw [renderItems, hw]
    exact stops_cons (by decide) _

lemma stops_renderMembers {o : DumpOpts} (ho : o.Ok) (l : List (PyStr × Json F)) (r : PyStr) :
    Stops (renderMembers o l ++ r) := by
  cases l with
  | nil => exact stops_cons (by decide) _
  | cons m l =>
    obtain ⟨w, hw, -⟩ := ho.item
    rw [renderMembers, hw]
    exact stops_cons (by decide) _

mutual

/-- The fuel that the decoder needs for the text of a value. -/
def weight : Json F → ℕ
  | .arr l => 1 + weightItems l
  | .obj l => 1 + weightMembers l
  | _ => 1

/-- The fuel for the items of an array. -/
def weightItems : List (Json F) → ℕ
  | [] => 0
  | v :: l => 1 + max (weight v) (weightItems l)

/-- The fuel for the members of an object. -/
def weightMembers : List (PyStr × Json F) → ℕ
  | [] => 0
  | m :: l => 1 + max (weight m.2) (weightMembers l)

end

lemma scanValue_keyword {p : PyStr × Json F} (hp : p ∈ keywords F) (d fuel : ℕ) (r : PyStr) :
    scanValue d (p.1 ++ r) (fuel + 1) = .ok (p.2, r) := by
  have hs : scanScalar (F := F) (p.1 ++ r) = .ok (p.2, r) := by
    rw [scanScalar, find?_keyword hp]
    simp
  obtain ⟨c, t, ht, hc⟩ := keywords_head p hp
  have hne : c ≠ '"' ∧ c ≠ '[' ∧ c ≠ '{' := by
    rcases hc with hc | ⟨rfl, -⟩
    · fin_cases hc <;> decide
    · decide
  rw [← hs, ht]
  exact scanValue_scalar (by simpa using hne.1) (by simpa using hne.2.1) (by simpa using hne.2.2) _ _

lemma check_arr {d : ℕ} {l : List (Json F)} (h : check d (.arr l) = .ok ()) :
    ∃ d', d = d' + 1 ∧ checkItems d' l = .ok () := by
  cases d with
  | zero => simp [check] at h
  | succ d => exact ⟨d, rfl, by simpa [check] using h⟩

lemma check_obj {d : ℕ} {l : List (PyStr × Json F)} (h : check d (.obj l) = .ok ()) :
    ∃ d', d = d' + 1 ∧ checkMembers d' l = .ok () := by
  cases d with
  | zero => simp [check] at h
  | succ d => exact ⟨d, rfl, by simpa [check] using h⟩

lemma checkItems_cons {d : ℕ} {v : Json F} {l : List (Json F)}
    (h : checkItems d (v :: l) = .ok ()) : check d v = .ok () ∧ checkItems d l = .ok () := by
  rw [checkItems] at h
  cases hv : check d v with
  | error e => simp [hv, bind, Except.bind] at h
  | ok u => exact ⟨rfl, by simpa [hv, bind, Except.bind] using h⟩

lemma checkMembers_cons {d : ℕ} {m : PyStr × Json F} {l : List (PyStr × Json F)}
    (h : checkMembers d (m :: l) = .ok ()) : check d m.2 = .ok () ∧ checkMembers d l = .ok () := by
  rw [checkMembers] at h
  cases hv : check d m.2 with
  | error e => simp [hv, bind, Except.bind] at h
  | ok u => exact ⟨rfl, by simpa [hv, bind, Except.bind] using h⟩

lemma scanValue_arr_cons {s : PyStr} (hs : Opens s) (d fuel : ℕ) :
    scanValue (F := F) (d + 1) (.scalar '[' :: s) (fuel + 1)
      = (scanItems d s fuel).map fun p => (.arr p.1, p.2) := by
  rw [scanValue, hs.skipWs]
  obtain ⟨x, t, rfl, -, hx, -⟩ := hs
  split
  · rename_i h
    exact absurd (List.cons.inj h).1 hx
  · rfl

lemma scanValue_obj_cons (a : Bool) (k r : PyStr) (d fuel : ℕ) :
    scanValue (F := F) (d + 1) (.scalar '{' :: (strText a k ++ r)) (fuel + 1)
      = (scanMembers d (strText a k ++ r) fuel).map
          fun p => (.obj (Dict.ofList p.1).items, p.2) := by
  have hws : skipWs (strText a k ++ r) = strText a k ++ r := skipWs_cons (by decide) _
  rw [scanValue, hws]
  rfl

lemma scanItems_last {d fuel : ℕ} {s r : PyStr} {v : Json F}
    (h : scanValue d s fuel = .ok (v, .scalar ']' :: r)) :
    scanItems d s (fuel + 1) = .ok ([v], r) := by
  rw [scanItems, h]
  rfl

lemma scanItems_next {d fuel : ℕ} {s ws t : PyStr} {v : Json F}
    (h : scanValue d s fuel = .ok (v, .scalar ',' :: (ws ++ t))) (hws : ∀ x ∈ ws, isWs x = true)
    (ht : Opens t) :
    scanItems d s (fuel + 1) = (scanItems d t fuel).map fun p => (v :: p.1, p.2) := by
  rw [← ht.skipWs, ← skipWs_append hws, scanItems, h]
  rfl

section Members

variable {a : Bool} {d fuel : ℕ} {k kw t : PyStr} {v : Json F}

/-- The text of a key starts with its quotation mark. -/
lemma strText_append (r : PyStr) : strText a k ++ r =
    .scalar '"' :: (k.flatMap (escapeChar a) ++ .scalar '"' :: r) := by
  simp [strText]

variable (hkw : ∀ x ∈ kw, isWs x = true) (ht : Opens t)

include hkw ht

lemma scanMembers_last {r : PyStr} (h : scanValue d t fuel = .ok (v, .scalar '}' :: r)) :
    scanMembers d (strText a k ++ .scalar ':' :: (kw ++ t)) (fuel + 1) =
      .ok ([(readStr a k, v)], r) := by
  have hcolon : skipWs (.scalar ':' :: (kw ++ t)) = .scalar ':' :: (kw ++ t) :=
    skipWs_cons (by decide) _
  have hval : skipWs (kw ++ t) = t := by rw [skipWs_append hkw, ht.skipWs]
  have hbrace : skipWs (.scalar '}' :: r) = .scalar '}' :: r := skipWs_cons (by decide) _
  rw [strText_append, scanMembers, scanString_strText]
  simp only [hcolon, hval, h, hbrace]

lemma scanMembers_next {ws k' u : PyStr} (hws : ∀ x ∈ ws, isWs x = true)
    (h : scanValue d t fuel = .ok (v, .scalar ',' :: (ws ++ (strText a k' ++ u)))) :
    scanMembers d (strText a k ++ .scalar ':' :: (kw ++ t)) (fuel + 1) =
      (scanMembers d (strText a k' ++ u) fuel).map fun p => ((readStr a k, v) :: p.1, p.2) := by
  have hcolon : skipWs (.scalar ':' :: (kw ++ t)) = .scalar ':' :: (kw ++ t) :=
    skipWs_cons (by decide) _
  have hval : skipWs (kw ++ t) = t := by rw [skipWs_append hkw, ht.skipWs]
  have hcomma : skipWs (.scalar ',' :: (ws ++ (strText a k' ++ u))) =
      .scalar ',' :: (ws ++ (strText a k' ++ u)) := skipWs_cons (by decide) _
  have hopen : skipWs (strText a k' ++ u) = strText a k' ++ u := skipWs_cons (by decide) _
  rw [strText_append (.scalar ':' :: (kw ++ t)), scanMembers, scanString_strText]
  simp only [hcolon, hval, h, hcomma, skipWs_append hws, hopen]

end Members

lemma render_length_pos (o : DumpOpts) (v : Json F) : 0 < (render o v).length := by
  obtain ⟨x, t, h, -⟩ := render_opens o v
  simp [h]

lemma DumpOpts.Ok.itemSep_length_pos {o : DumpOpts} (ho : o.Ok) : 0 < o.itemSep.length := by
  obtain ⟨w, hw, -⟩ := ho.item
  simp [hw]

lemma renderItems_length_pos (o : DumpOpts) (l : List (Json F)) :
    0 < (renderItems o l).length := by
  cases l with
  | nil => simp [renderItems]
  | cons v l =>
    have := render_length_pos o v
    simp only [renderItems, List.length_append]
    omega

lemma renderMembers_length_pos (o : DumpOpts) (l : List (PyStr × Json F)) :
    0 < (renderMembers o l).length := by
  cases l with
  | nil => simp [renderMembers]
  | cons m l =>
    have := render_length_pos o m.2
    simp only [renderMembers, List.length_append]
    omega

section Leaves

variable (o : DumpOpts) {d : ℕ} (fuel : ℕ) {r : PyStr}

lemma scanValue_render_int {n : ℤ} (hc : check d (.int n : Json F) = .ok ()) (hr : Stops r) :
    scanValue d (render o (.int n : Json F) ++ r) (fuel + 1) = .ok ((.int n : Json F), r) := by
  have hn : digitsOk F n.natAbs = true := by
    by_contra h
    simp [check, h] at hc
  obtain ⟨c, t, ht, hcd⟩ := intLit_head (intLit_intText n)
  rw [render, scanValue_number ht hcd, scanScalar_int hn hr]

lemma scanValue_render_float (x : F) (hr : Stops r) :
    scanValue d (render o (.float x) ++ r) (fuel + 1) = .ok (.float x, r) := by
  obtain ⟨ip, fp, ep, hx, hi, -⟩ := JsonRuntime.floatRepr_lit x
  obtain ⟨c, t, rfl, hcd⟩ := intLit_head hi
  rw [render, scanValue_number hx hcd, scanScalar_float x hr]

lemma scanValue_render_str (s : PyStr) :
    scanValue d (render o (.str s : Json F) ++ r) (fuel + 1) =
      .ok ((.str (readStr o.ensureAscii s) : Json F), r) := by
  rw [render, strText_append, scanValue, scanString_strText]
  rfl

lemma scanValue_render_nil_arr :
    scanValue (d + 1) (render o (.arr [] : Json F) ++ r) (fuel + 1) =
      .ok ((.arr [] : Json F), r) := by
  have h : text "[]" = [.scalar '[', .scalar ']'] := by decide
  rw [render, h]
  rfl

lemma scanValue_render_nil_obj :
    scanValue (d + 1) (render o (.obj [] : Json F) ++ r) (fuel + 1) =
      .ok ((.obj [] : Json F), r) := by
  have h : text "{}" = [.scalar '\x7b', .scalar '\x7d'] := by decide
  rw [render, h]
  rfl

lemma renderItems_cons_append (ho : o.Ok) (w : Json F) (l : List (Json F)) :
    ∃ ws, (∀ x ∈ ws, isWs x = true) ∧
      renderItems o (w :: l) ++ r = .scalar ',' :: (ws ++ (render o w ++ (renderItems o l ++ r))) := by
  obtain ⟨ws, hws, hall⟩ := ho.item
  refine ⟨ws, hall, ?_⟩
  rw [renderItems, hws]
  simp

lemma renderMembers_cons_append (ho : o.Ok) (m : PyStr × Json F) (l : List (PyStr × Json F)) :
    ∃ ws, (∀ x ∈ ws, isWs x = true) ∧
      renderMembers o (m :: l) ++ r = .scalar ',' :: (ws ++ (strText o.ensureAscii m.1 ++
        (o.keySep ++ (render o m.2 ++ (renderMembers o l ++ r))))) := by
  obtain ⟨ws, hws, hall⟩ := ho.item
  refine ⟨ws, hall, ?_⟩
  rw [renderMembers, hws]
  simp

lemma render_obj_append (m : PyStr × Json F) (l : List (PyStr × Json F)) :
    render o (.obj (m :: l)) ++ r = .scalar '{' :: (strText o.ensureAscii m.1 ++
      (o.keySep ++ (render o m.2 ++ (renderMembers o l ++ r)))) := by
  rw [render]
  simp

end Leaves

mutual

/-- A value that the encoder accepts is read back, whatever stops the text after it. -/
theorem scanValue_render {o : DumpOpts} (ho : o.Ok) (d : ℕ) (v : Json F)
    (hc : check d v = .ok ()) (fuel : ℕ) (hf : weight v ≤ fuel) (r : PyStr) (hr : Stops r) :
    scanValue d (render o v ++ r) fuel = .ok (readBack o.ensureAscii v, r) := by
  obtain ⟨fuel, rfl⟩ : ∃ n, fuel = n + 1 := ⟨fuel - 1, by cases v <;> simp [weight] at hf <;> omega⟩
  match v, hc, hf with
  | .null, _, _ => exact scanValue_keyword (p := (text "null", .null)) (by simp [keywords]) _ _ _
  | .bool true, _, _ =>
    exact scanValue_keyword (p := (text "true", .bool true)) (by simp [keywords]) _ _ _
  | .bool false, _, _ =>
    exact scanValue_keyword (p := (text "false", .bool false)) (by simp [keywords]) _ _ _
  | .nonFinite k, _, _ =>
    exact scanValue_keyword (p := (k.text, .nonFinite k))
      (by cases k <;> simp [keywords, NonFinite.text]) _ _ _
  | .int n, hc, _ => rw [scanValue_render_int o fuel hc hr, readBack]; all_goals simp
  | .float x, _, _ => rw [scanValue_render_float o fuel x hr, readBack]; all_goals simp
  | .str s, _, _ => rw [scanValue_render_str, readBack]
  | .arr l, hc, hf =>
    obtain ⟨d, rfl, hc⟩ := check_arr hc
    rw [weight] at hf
    cases l with
    | nil => rw [scanValue_render_nil_arr, readBack, readItems]
    | cons v l =>
      have h := scanItems_render ho d v l hc fuel (by omega) r
      rw [render, List.cons_append, List.append_assoc,
        scanValue_arr_cons ((render_opens o v).append _), h, readBack]
      rfl
  | .obj l, hc, hf =>
    obtain ⟨d, rfl, hc⟩ := check_obj hc
    rw [weight] at hf
    cases l with
    | nil => rw [scanValue_render_nil_obj, readBack, readMembers]; rfl
    | cons m l =>
      have h := scanMembers_render ho d m l hc fuel (by omega) r
      rw [render_obj_append, scanValue_obj_cons, h, readBack]
      rfl
termination_by fuel

/-- The items of an array are read back. -/
theorem scanItems_render {o : DumpOpts} (ho : o.Ok) (d : ℕ) (v : Json F) (l : List (Json F))
    (hc : checkItems d (v :: l) = .ok ()) (fuel : ℕ) (hf : weightItems (v :: l) ≤ fuel)
    (r : PyStr) :
    scanItems d (render o v ++ (renderItems o l ++ r)) fuel
      = .ok (readItems o.ensureAscii (v :: l), r) := by
  rw [weightItems] at hf
  obtain ⟨fuel, rfl⟩ : ∃ n, fuel = n + 1 := ⟨fuel - 1, by omega⟩
  obtain ⟨hcv, hcl⟩ := checkItems_cons hc
  have h := scanValue_render ho d v hcv fuel (by omega) _ (stops_renderItems ho l r)
  match l, hcl, hf with
  | [], _, _ =>
    rw [renderItems, List.singleton_append] at h ⊢
    rw [scanItems_last h, readItems, readItems]
  | w :: l, hcl, hf =>
    have ih := scanItems_render ho d w l hcl fuel (by omega) r
    obtain ⟨ws, hall, happ⟩ := renderItems_cons_append o (r := r) ho w l
    rw [happ] at h ⊢
    rw [scanItems_next h hall ((render_opens o w).append _), ih, readItems]
    rfl
termination_by fuel

/-- The members of an object are read back. -/
theorem scanMembers_render {o : DumpOpts} (ho : o.Ok) (d : ℕ) (m : PyStr × Json F)
    (l : List (PyStr × Json F)) (hc : checkMembers d (m :: l) = .ok ())
    (fuel : ℕ) (hf : weightMembers (m :: l) ≤ fuel) (r : PyStr) :
    scanMembers d (strText o.ensureAscii m.1 ++ (o.keySep ++ (render o m.2 ++
      (renderMembers o l ++ r)))) fuel = .ok (readMembers o.ensureAscii (m :: l), r) := by
  rw [weightMembers] at hf
  obtain ⟨fuel, rfl⟩ : ∃ n, fuel = n + 1 := ⟨fuel - 1, by omega⟩
  obtain ⟨hcv, hcl⟩ := checkMembers_cons hc
  obtain ⟨kw, hkw, hkall⟩ := ho.key
  have h := scanValue_render ho d m.2 hcv fuel (by omega) _ (stops_renderMembers ho l r)
  have hopen := (render_opens o m.2).append (renderMembers o l ++ r)
  rw [hkw, List.cons_append]
  match l, hcl, hf with
  | [], _, _ =>
    rw [renderMembers, List.singleton_append] at h hopen ⊢
    rw [scanMembers_last hkall hopen h, readMembers, readMembers]
  | m' :: l, hcl, hf =>
    have ih := scanMembers_render ho d m' l hcl fuel (by omega) r
    obtain ⟨ws, hall, happ⟩ := renderMembers_cons_append o (r := r) ho m' l
    rw [happ] at h hopen ⊢
    rw [scanMembers_next hkall hopen hall h, ih, readMembers]
    rfl
termination_by fuel

end

mutual

/-- The text of a value is at least as long as the fuel it takes to read it. -/
lemma weight_le_length {o : DumpOpts} (ho : o.Ok) (v : Json F) :
    weight v ≤ (render o v).length := by
  match v with
  | .arr [] =>
    rw [weight, weightItems, render]
    decide
  | .obj [] =>
    rw [weight, weightMembers, render]
    decide
  | .arr (v :: l) =>
    have h₁ := weight_le_length ho v
    have h₂ := weightItems_le_length ho l
    have h₃ := renderItems_length_pos o l
    have h₄ := render_length_pos o v
    simp only [weight, weightItems, render, List.length_cons, List.length_append]
    omega
  | .obj (m :: l) =>
    have h₁ := weight_le_length ho m.2
    have h₂ := weightMembers_le_length ho l
    have h₃ := renderMembers_length_pos o l
    have h₄ := render_length_pos o m.2
    simp only [weight, weightMembers, render, List.length_cons, List.length_append]
    omega
  | .null | .bool _ | .int _ | .float _ | .nonFinite _ | .str _ =>
    exact render_length_pos o _

lemma weightItems_le_length {o : DumpOpts} (ho : o.Ok) (l : List (Json F)) :
    weightItems l ≤ (renderItems o l).length := by
  match l with
  | [] => exact Nat.zero_le _
  | v :: l =>
    have h₁ := weight_le_length ho v
    have h₂ := weightItems_le_length ho l
    have h₃ := ho.itemSep_length_pos
    simp only [weightItems, renderItems, List.length_append]
    omega

lemma weightMembers_le_length {o : DumpOpts} (ho : o.Ok) (l : List (PyStr × Json F)) :
    weightMembers l ≤ (renderMembers o l).length := by
  match l with
  | [] => exact Nat.zero_le _
  | m :: l =>
    have h₁ := weight_le_length ho m.2
    have h₂ := weightMembers_le_length ho l
    have h₃ := ho.itemSep_length_pos
    simp only [weightMembers, renderMembers, List.length_append]
    omega

end

/-- **The decoder reads the text of every value that the encoder accepts.** -/
theorem decodeDocument_render {o : DumpOpts} (ho : o.Ok) {v : Json F}
    (hc : check (JsonRuntime.maxDepth F) v = .ok ()) :
    decodeDocument (render o v) = .ok (readBack o.ensureAscii v) := by
  have hw := weight_le_length ho v
  have h := scanValue_render ho _ v hc (2 * (render o v).length + 2) (by omega) [] (by simp [Stops])
  rw [List.append_nil] at h
  rw [decodeDocument, (render_opens o v).skipWs, h]
  rfl

theorem loads_dumps {o : DumpOpts} (ho : o.Ok) {v : Json F} {s : PyStr}
    (hs : dumps o v = .ok s) : loads s = .ok (readBack o.ensureAscii v) := by
  obtain ⟨hc, rfl⟩ := dumps_eq_ok.mp hs
  obtain ⟨x, t, hx, -, -, -, hbom⟩ := render_opens o v
  rw [loads, if_neg (by simpa [hx] using hbom), decodeDocument_render ho hc]

end Omkit.Lib
