import Omkit.Lib.DateTime

/-!
# Months

The days of a month lie between the start of the month and the start of the next one.
-/

namespace Omkit.Lib

/-- The year and the month after a month of a year. -/
def nextMonth (year month : ℕ) : ℕ × ℕ :=
  if month = 12 then (year + 1, 1) else (year, month + 1)

/-- The number of days before a month of a year. -/
def daysBefore (year month : ℕ) : ℕ := daysBeforeYear year + daysBeforeMonth year month

lemma daysInMonth_bounds (year month : ℕ) :
    28 ≤ daysInMonth year month ∧ daysInMonth year month ≤ 31 := by
  simp only [daysInMonth]
  split_ifs <;> omega

lemma daysBeforeMonth_one (year : ℕ) : daysBeforeMonth year 1 = 0 := rfl

lemma daysBeforeMonth_succ (year : ℕ) {month : ℕ} (h : 1 ≤ month) :
    daysBeforeMonth year (month + 1) = daysBeforeMonth year month + daysInMonth year month := by
  obtain ⟨m, rfl⟩ := Nat.exists_eq_add_of_le' h
  simp [daysBeforeMonth, List.range_succ]

lemma daysBeforeYear_succ {year : ℕ} (h : 1 ≤ year) :
    daysBeforeYear (year + 1) = daysBeforeYear year + if isLeap year then 366 else 365 := by
  obtain ⟨y, rfl⟩ := Nat.exists_eq_add_of_le' h
  have h100 : (y + 1) % 100 = 0 → (y + 1) % 4 = 0 := by omega
  have h400 : (y + 1) % 400 = 0 → (y + 1) % 100 = 0 := by omega
  have hcent : y / 100 ≤ y := Nat.div_le_self _ _
  simp only [daysBeforeYear, isLeap, decide_eq_true_eq, Nat.add_sub_cancel, Nat.succ_div,
    Nat.dvd_iff_mod_eq_zero]
  generalize y / 4 = a, y / 100 = b, y / 400 = c at *
  split_ifs <;> omega

/-- December ends with its year. -/
lemma daysBeforeMonth_december (year : ℕ) :
    daysBeforeMonth year 12 + 31 = if isLeap year then 366 else 365 := by
  cases h : isLeap year <;> simp [daysBeforeMonth, List.range_succ, daysInMonth, h]

/-- A month is followed by the next one at once. -/
lemma daysBefore_nextMonth {year month : ℕ} (hy : 1 ≤ year) (hm : 1 ≤ month) :
    daysBefore (nextMonth year month).1 (nextMonth year month).2 =
      daysBefore year month + daysInMonth year month := by
  rw [nextMonth]
  split
  · next h =>
    subst h
    have hdec := daysBeforeMonth_december year
    have hthirtyone : daysInMonth year 12 = 31 := rfl
    simp only [daysBefore, daysBeforeYear_succ hy, daysBeforeMonth_one, hthirtyone]
    omega
  · simp only [daysBefore, daysBeforeMonth_succ year hm]
    omega

namespace DateTime

variable (t : DateTime)

/-- The days from the start of the year 1 to the end of a date. -/
def days : ℕ := daysBefore t.year t.month + t.day

/-- The microseconds of a date since midnight. -/
def sinceMidnight : ℕ := ((t.hour * 60 + t.minute) * 60 + t.second) * 1000000 + t.micro

lemma wallClock_eq : t.wallClock = t.days * dayMicros + t.sinceMidnight := by
  simp only [wallClock, days, daysBefore, sinceMidnight, dayMicros]
  push_cast
  omega

lemma sinceMidnight_lt : (t.sinceMidnight : ℤ) < dayMicros := by
  have htime := t.time_ok
  simp only [sinceMidnight, dayMicros]
  omega

/-- A date lies in its month. -/
lemma days_bounds : daysBefore t.year t.month + 1 ≤ t.days ∧
    t.days + 1 ≤ daysBefore (nextMonth t.year t.month).1 (nextMonth t.year t.month).2 + 1 := by
  obtain ⟨⟨hy, -⟩, ⟨hm, -⟩, hd, hd'⟩ := t.date_ok
  rw [daysBefore_nextMonth hy hm, days]
  omega

end DateTime

end Omkit.Lib
