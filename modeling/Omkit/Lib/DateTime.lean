import Omkit.Lib.Json.Value
import Mathlib.Data.Nat.Size
import Mathlib.Tactic

/-!
# Dates with a time

A `datetime` with its fields and its offset from UTC, its ISO text and the reader of that text, and
the instant that it denotes.
-/

namespace Omkit.Lib

/-! ## Numbers of fixed width -/

/-- The `w` low decimal digits of `n`. -/
def padded : ℕ → ℕ → PyStr
  | 0, _ => []
  | w + 1, n => .scalar (Nat.digitChar (n / 10 ^ w % 10)) :: padded w n

/-- The value of a decimal digit. -/
def decVal : PyChar → Option ℕ
  | .scalar c => if c.isDigit then some (c.toNat - 48) else none
  | .surrogate _ => none

/-- Read `w` decimal digits after a number that has been read. -/
def readNat : ℕ → ℕ → PyStr → Option (ℕ × PyStr)
  | 0, n, s => some (n, s)
  | _ + 1, _, [] => none
  | w + 1, n, x :: s => match decVal x with
    | some d => readNat w (n * 10 + d) s
    | none => none

lemma decVal_digitChar : ∀ d < 10, decVal (.scalar (Nat.digitChar d)) = some d := by decide

lemma readNat_append (w n m : ℕ) (r : PyStr) :
    readNat w m (padded w n ++ r) = some (m * 10 ^ w + n % 10 ^ w, r) := by
  induction w generalizing m with
  | zero => simp [padded, readNat, Nat.mod_one]
  | succ w ih =>
    have hd : n / 10 ^ w % 10 < 10 := Nat.mod_lt _ (by norm_num)
    have hsum : (m * 10 + n / 10 ^ w % 10) * 10 ^ w + n % 10 ^ w =
        m * 10 ^ (w + 1) + n % 10 ^ (w + 1) := by
      rw [Nat.mod_pow_succ]
      ring
    rw [padded, List.cons_append, readNat, decVal_digitChar _ hd]
    simp only [ih, hsum]

lemma readNat_padded {w n : ℕ} (h : n < 10 ^ w) (r : PyStr) :
    readNat w 0 (padded w n ++ r) = some (n, r) := by
  rw [readNat_append, Nat.mod_eq_of_lt h, zero_mul, zero_add]

lemma wellFormed_padded (w n : ℕ) : WellFormed (padded w n) := by
  induction w with
  | zero => exact ⟨[], rfl⟩
  | succ w ih => exact wellFormed_scalar_cons.mpr ih

/-! ## Dates -/

/-- Is the year a leap year? -/
def isLeap (year : ℕ) : Bool := year % 4 = 0 ∧ (year % 100 ≠ 0 ∨ year % 400 = 0)

/-- The number of days of a month. -/
def daysInMonth (year month : ℕ) : ℕ :=
  if month = 2 then if isLeap year then 29 else 28
  else if month ∈ [4, 6, 9, 11] then 30 else 31

/-- The number of days in the years before a year. -/
def daysBeforeYear (year : ℕ) : ℕ :=
  let y := year - 1
  y * 365 + y / 4 - y / 100 + y / 400

/-- The number of days in a year before a month. -/
def daysBeforeMonth (year month : ℕ) : ℕ :=
  ((List.range (month - 1)).map fun m => daysInMonth year (m + 1)).sum

/-- The microseconds of a day. -/
def dayMicros : ℤ := 86400000000

/-- `datetime`; the offset from UTC is in microseconds, and a naive one has none. -/
structure DateTime where
  year : ℕ
  month : ℕ
  day : ℕ
  hour : ℕ
  minute : ℕ
  second : ℕ
  micro : ℕ
  offset : Option ℤ
  date_ok : (1 ≤ year ∧ year ≤ 9999) ∧ (1 ≤ month ∧ month ≤ 12) ∧
    1 ≤ day ∧ day ≤ daysInMonth year month
  time_ok : hour < 24 ∧ minute < 60 ∧ second < 60 ∧ micro < 1000000
  offset_ok : ∀ o ∈ offset, -dayMicros < o ∧ o < dayMicros
deriving DecidableEq

namespace DateTime

/-- `datetime(year, month, day, …)`; `none` is a `ValueError`. -/
def make (year month day hour minute second micro : ℕ) (offset : Option ℤ) : Option DateTime :=
  if h : ((1 ≤ year ∧ year ≤ 9999) ∧ (1 ≤ month ∧ month ≤ 12) ∧
      1 ≤ day ∧ day ≤ daysInMonth year month) ∧
      (hour < 24 ∧ minute < 60 ∧ second < 60 ∧ micro < 1000000) ∧
      ∀ o ∈ offset, -dayMicros < o ∧ o < dayMicros then
    some ⟨year, month, day, hour, minute, second, micro, offset, h.1, h.2.1, h.2.2⟩
  else none

/-- The microseconds from the start of the year 1 to a date, by its own clock. -/
def wallClock (t : DateTime) : ℤ :=
  let days := daysBeforeYear t.year + daysBeforeMonth t.year t.month + t.day
  (((days * 24 + t.hour) * 60 + t.minute) * 60 + t.second) * 1000000 + t.micro

/-- The instant of an aware date, in microseconds; `none` for a naive one. -/
def instant (t : DateTime) : Option ℤ := t.offset.map fun o => t.wallClock - o

end DateTime

/-- A date that is not naive. -/
abbrev Aware := { t : DateTime // t.instant.isSome = true }

/-- The instant of an aware date. -/
def Aware.micros (t : Aware) : ℤ := t.1.instant.get t.2

namespace DateTime

/-! ## The ISO text -/

/-- The fraction of a second, if it is not zero. -/
def fractionText (micro : ℕ) : PyStr := if micro = 0 then [] else .scalar '.' :: padded 6 micro

/-- The text of an offset without its sign: `HH:MM[:SS[.ffffff]]`. -/
def deltaText (d : ℕ) : PyStr :=
  let second := d / 1000000 % 60
  let micro := d % 1000000
  padded 2 (d / 3600000000) ++ .scalar ':' :: (padded 2 (d / 60000000 % 60) ++
    if second = 0 ∧ micro = 0 then [] else .scalar ':' :: (padded 2 second ++ fractionText micro))

/-- The text of an offset. -/
def offsetText : Option ℤ → PyStr
  | none => []
  | some o => .scalar (if o < 0 then '-' else '+') :: deltaText o.natAbs

/-- `t.isoformat()`. -/
def isoformat (t : DateTime) : PyStr :=
  padded 4 t.year ++ .scalar '-' :: (padded 2 t.month ++ .scalar '-' :: (padded 2 t.day ++
    .scalar 'T' :: (padded 2 t.hour ++ .scalar ':' :: (padded 2 t.minute ++
      .scalar ':' :: (padded 2 t.second ++ (fractionText t.micro ++ offsetText t.offset))))))

/-- Read a character. -/
def expect (c : Char) : PyStr → Option PyStr
  | x :: s => if x = .scalar c then some s else none
  | [] => none

/-- Read the fraction of a second, if there is one. -/
def readFraction : PyStr → Option (ℕ × PyStr)
  | .scalar '.' :: s => readNat 6 0 s
  | s => some (0, s)

/-- Read an offset without its sign, to the end of the text. -/
def readDelta (s : PyStr) : Option ℕ := do
  let (hour, s) ← readNat 2 0 s
  let s ← expect ':' s
  let (minute, s) ← readNat 2 0 s
  if s = [] then pure (hour * 3600000000 + minute * 60000000)
  else do
    let s ← expect ':' s
    let (second, s) ← readNat 2 0 s
    let (micro, s) ← readFraction s
    if s = [] then pure (hour * 3600000000 + minute * 60000000 + second * 1000000 + micro)
    else none

/-- Read an offset, to the end of the text. -/
def readOffset : PyStr → Option (Option ℤ)
  | [] => some none
  | .scalar '+' :: s => (readDelta s).map fun d : ℕ => some (d : ℤ)
  | .scalar '-' :: s => (readDelta s).map fun d : ℕ => some (-(d : ℤ))
  | _ => none

/-- `datetime.fromisoformat(s)` on the texts that `isoformat` writes; `none` is a `ValueError`. -/
def fromisoformat (s : PyStr) : Option DateTime := do
  let (year, s) ← readNat 4 0 s
  let s ← expect '-' s
  let (month, s) ← readNat 2 0 s
  let s ← expect '-' s
  let (day, s) ← readNat 2 0 s
  let s ← expect 'T' s
  let (hour, s) ← readNat 2 0 s
  let s ← expect ':' s
  let (minute, s) ← readNat 2 0 s
  let s ← expect ':' s
  let (second, s) ← readNat 2 0 s
  let (micro, s) ← readFraction s
  let offset ← readOffset s
  make year month day hour minute second micro offset

/-! ## The text is read back -/

lemma make_self (t : DateTime) :
    make t.year t.month t.day t.hour t.minute t.second t.micro t.offset = some t :=
  dif_pos ⟨t.date_ok, t.time_ok, t.offset_ok⟩

lemma expect_cons (c : Char) (s : PyStr) : expect c (.scalar c :: s) = some s := if_pos rfl

/-- A reader that succeeds passes on what it has read. -/
lemma bind_of_eq_some {α β : Type} {x : Option α} {a : α} {f : α → Option β} (h : x = some a) :
    (x >>= f) = f a := by
  rw [h]
  rfl

/-- A fraction is read back, before the end of the text or a sign. -/
lemma readFraction_append {micro : ℕ} (h : micro < 1000000) {r : PyStr}
    (hr : ∀ s, r ≠ .scalar '.' :: s) : readFraction (fractionText micro ++ r) = some (micro, r) := by
  rw [fractionText]
  split
  · next h0 =>
    rw [List.nil_append, readFraction, h0]
    exact fun s hs => hr s hs
  · rw [List.cons_append, readFraction, readNat_padded (by omega)]

lemma readDelta_deltaText {d : ℕ} (h : (d : ℤ) < dayMicros) : readDelta (deltaText d) = some d := by
  have hd : d < 86400000000 := by
    rw [dayMicros] at h
    omega
  rw [deltaText, readDelta, readNat_padded (by omega)]
  simp only [Option.bind_eq_bind, Option.bind_some, expect_cons]
  rw [readNat_padded (by omega)]
  simp only [Option.bind_some]
  split
  · next hz =>
    rw [if_pos rfl, Option.pure_def, Option.some.injEq]
    omega
  · rw [if_neg (by simp), expect_cons, Option.bind_some, readNat_padded (by omega),
      Option.bind_some]
    have hfrac := @readFraction_append (d % 1000000) (by omega) [] (by simp)
    rw [List.append_nil] at hfrac
    simp only [hfrac, Option.bind_some, if_pos, Option.pure_def, Option.some.injEq]
    omega

lemma readOffset_offsetText {o : Option ℤ} (h : ∀ x ∈ o, -dayMicros < x ∧ x < dayMicros) :
    readOffset (offsetText o) = some o := by
  cases o with
  | none => rfl
  | some x =>
    obtain ⟨hlo, hhi⟩ := h x rfl
    have habs : (x.natAbs : ℤ) < dayMicros := by omega
    rw [offsetText]
    split
    · next hneg =>
      rw [readOffset, readDelta_deltaText habs, Option.map_some]
      congr 2
      omega
    · next hneg =>
      rw [readOffset, readDelta_deltaText habs, Option.map_some]
      congr 2
      omega

lemma offsetText_ne_point (o : Option ℤ) (s : PyStr) : offsetText o ≠ .scalar '.' :: s := by
  cases o with
  | none => simp [offsetText]
  | some x =>
    rw [offsetText]
    split <;> simp

/-- **The ISO text of a date is read back.** -/
theorem fromisoformat_isoformat (t : DateTime) : fromisoformat t.isoformat = some t := by
  obtain ⟨⟨hy, hy'⟩, ⟨hm, hm'⟩, hd, hd'⟩ := t.date_ok
  obtain ⟨hh, hmi, hs, hus⟩ := t.time_ok
  have hday : t.day < 100 := by
    refine hd'.trans_lt ?_
    rw [daysInMonth]
    split_ifs <;> omega
  rw [isoformat, fromisoformat]
  refine (bind_of_eq_some (readNat_padded (by omega) _)).trans ?_
  refine (bind_of_eq_some (expect_cons _ _)).trans ?_
  refine (bind_of_eq_some (readNat_padded (by omega) _)).trans ?_
  refine (bind_of_eq_some (expect_cons _ _)).trans ?_
  refine (bind_of_eq_some (readNat_padded (by omega) _)).trans ?_
  refine (bind_of_eq_some (expect_cons _ _)).trans ?_
  refine (bind_of_eq_some (readNat_padded (by omega) _)).trans ?_
  refine (bind_of_eq_some (expect_cons _ _)).trans ?_
  refine (bind_of_eq_some (readNat_padded (by omega) _)).trans ?_
  refine (bind_of_eq_some (expect_cons _ _)).trans ?_
  refine (bind_of_eq_some (readNat_padded (by omega) _)).trans ?_
  refine (bind_of_eq_some (readFraction_append hus (offsetText_ne_point _))).trans ?_
  refine (bind_of_eq_some (readOffset_offsetText t.offset_ok)).trans ?_
  exact make_self t

lemma wellFormed_fractionText (micro : ℕ) : WellFormed (fractionText micro) := by
  rw [fractionText]
  split
  · exact ⟨[], rfl⟩
  · exact wellFormed_scalar_cons.mpr (wellFormed_padded _ _)

lemma wellFormed_deltaText (d : ℕ) : WellFormed (deltaText d) := by
  rw [deltaText, wellFormed_append, wellFormed_scalar_cons, wellFormed_append]
  refine ⟨wellFormed_padded _ _, wellFormed_padded _ _, ?_⟩
  split
  · exact ⟨[], rfl⟩
  · rw [wellFormed_scalar_cons, wellFormed_append]
    exact ⟨wellFormed_padded _ _, wellFormed_fractionText _⟩

/-- The ISO text can be encoded. -/
lemma wellFormed_isoformat (t : DateTime) : WellFormed t.isoformat := by
  have hoffset : WellFormed (offsetText t.offset) := by
    cases t.offset with
    | none => exact ⟨[], rfl⟩
    | some o => exact wellFormed_scalar_cons.mpr (wellFormed_deltaText _)
  simp only [isoformat, wellFormed_append, wellFormed_scalar_cons, wellFormed_padded,
    wellFormed_fractionText, hoffset, and_self]

end DateTime

/-! ## Durations -/

/-- The quotient of natural numbers rounded to the nearest one, to the even one of two. -/
def roundDiv (a d : ℕ) : ℕ :=
  let q := a / d
  let r := a % d
  if 2 * r < d then q else if d < 2 * r then q + 1 else if q % 2 = 0 then q else q + 1

/-- `int(d.total_seconds())` of a duration in microseconds: the quotient is a float, with 53
significant bits, and its fraction is then cut off. -/
def totalSeconds (d : ℤ) : ℤ :=
  let n := d.natAbs
  let shift := 53 - Nat.size (n / 1000000)
  d.sign * (roundDiv (n * 2 ^ shift) 1000000 / 2 ^ shift : ℕ)

lemma div_le_roundDiv (a d : ℕ) : a / d ≤ roundDiv a d := by
  simp only [roundDiv]
  split_ifs <;> omega

/-- A quotient that is at most a number is not rounded above it. -/
lemma roundDiv_le {a d n : ℕ} (hd : 0 < d) (h : a ≤ n * d) : roundDiv a d ≤ n := by
  have hdiv : a / d ≤ n := Nat.div_le_of_le_mul (by rw [Nat.mul_comm]; exact h)
  have hsplit := Nat.div_add_mod a d
  simp only [roundDiv]
  rcases hdiv.lt_or_eq with hlt | rfl
  · generalize a / d = q at *
    split_ifs <;> omega
  · -- nothing is left to round
    have hrest : a % d = 0 := by
      rw [Nat.mul_comm] at hsplit
      omega
    rw [hrest, if_pos (by omega)]

/-- Where the floats are closer to each other than a microsecond, only the fraction is cut off. -/
lemma totalSeconds_eq_div {d : ℤ} (h0 : 0 ≤ d) (h : d < 2 ^ 33 * 1000000) :
    totalSeconds d = d / 1000000 := by
  obtain ⟨n, rfl⟩ := Int.eq_ofNat_of_zero_le h0
  rcases Nat.eq_zero_or_pos n with rfl | hn
  · decide
  have hsign : (n : ℤ).sign = 1 := Int.sign_eq_one_of_pos (by omega)
  have hsize : Nat.size (n / 1000000) ≤ 33 := Nat.size_le.mpr (by omega)
  set shift := 53 - Nat.size (n / 1000000) with hshift
  have hfine : 2 ^ 20 ≤ 2 ^ shift := Nat.pow_le_pow_right (by omega) (by omega)
  set p := 2 ^ shift with hp
  have hlow : n / 1000000 * p ≤ roundDiv (n * p) 1000000 :=
    calc n / 1000000 * p ≤ n * p / 1000000 :=
          (Nat.le_div_iff_mul_le (by omega)).mpr (by
            rw [Nat.mul_right_comm]
            exact Nat.mul_le_mul_right _ (Nat.div_mul_le_self n 1000000))
      _ ≤ roundDiv (n * p) 1000000 := div_le_roundDiv _ _
  -- the next whole second is more than half a step of the floats away
  have hhigh : roundDiv (n * p) 1000000 ≤ (n / 1000000 + 1) * p - 1 := by
    refine roundDiv_le (by omega) ?_
    have hn' : n + 1 ≤ (n / 1000000 + 1) * 1000000 := by omega
    have hmul := Nat.mul_le_mul_right p hn'
    have hexp : (n / 1000000 + 1) * 1000000 * p = (n / 1000000 + 1) * p * 1000000 :=
      Nat.mul_right_comm _ _ _
    rw [Nat.sub_mul, ← hexp]
    rw [Nat.add_mul] at hmul
    omega
  have hquot : roundDiv (n * p) 1000000 / p = n / 1000000 := by
    have hpos : 0 < (n / 1000000 + 1) * p := Nat.mul_pos (by omega) (by omega)
    exact Nat.div_eq_of_lt_le hlow (by omega)
  have hcut : totalSeconds n = (n : ℤ).sign * (roundDiv (n * p) 1000000 / p : ℕ) := rfl
  rw [hcut, hquot, hsign, one_mul, Int.natCast_ediv]
  rfl

end Omkit.Lib
