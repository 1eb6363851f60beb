import Omkit.Lib.Month

/-!
# Quotas

A query over the limit of its month is rejected with the seconds after which a retry will help.  They
are counted from an instant with microseconds and cut to whole seconds, so that a client that waits
for them comes back before the month has ended, except at an instant without a fraction.
-/

namespace Omkit.Quota

open Lib

/-! ## Limits and decisions -/

/-- `Resource`. -/
inductive Resource
  | docs
  | storageBytes
  | queriesPerMonth
deriving DecidableEq

/-- `Limits`. -/
structure Limits where
  docs : ℤ
  storageBytes : ℤ
  queriesPerMonth : ℤ
deriving DecidableEq

/-- `Usage`. -/
structure Usage where
  docs : ℤ
  storageBytes : ℤ
  queriesThisMonth : ℤ
deriving DecidableEq

/-- `Decision`; a `retryAfter` of 0 means that no retry will help. -/
structure Decision where
  allowed : Bool
  resource : Option Resource := none
  limit : ℤ := 0
  used : ℤ := 0
  retryAfter : ℤ := 0
deriving DecidableEq

/-- A date of the clock `datetime.now(timezone.utc)`. -/
abbrev Utc := { t : DateTime // t.offset = some 0 }

/-- `_cap_at_32_days`. -/
def capAt32Days (s : ℤ) : ℤ :=
  if s < 0 then 60
  else if s > 32 * 24 * 3600 then 32 * 24 * 3600
  else s

/-- `_seconds_until_next_month`; there is no month after the last one of the year 9999. -/
def secondsUntilNextMonth (now : Utc) : Except StdExc ℤ :=
  let (y, m) := if now.1.month = 12 then (now.1.year + 1, 1) else (now.1.year, now.1.month + 1)
  match DateTime.make y m 1 0 0 0 0 (some 0) with
  | none => .error .valueError
  -- both dates have the same `tzinfo`
  | some nxt => .ok (capAt32Days (totalSeconds (nxt.wallClock - now.1.wallClock)))

/-- `check_upload`. -/
def checkUpload (lim : Limits) (usage : Usage) (incomingBytes : ℤ) : Decision :=
  if usage.docs + 1 > lim.docs then
    { allowed := false, resource := some .docs, limit := lim.docs, used := usage.docs,
      retryAfter := 0 }
  else if usage.storageBytes + incomingBytes > lim.storageBytes then
    { allowed := false, resource := some .storageBytes, limit := lim.storageBytes,
      used := usage.storageBytes, retryAfter := 0 }
  else { allowed := true }

/-- `check_query`, at the time `now`. -/
def checkQuery (now : Utc) (lim : Limits) (usage : Usage) : Except StdExc Decision :=
  if usage.queriesThisMonth + 1 > lim.queriesPerMonth then do
    let retryAfter ← secondsUntilNextMonth now
    pure { allowed := false, resource := some .queriesPerMonth, limit := lim.queriesPerMonth,
           used := usage.queriesThisMonth, retryAfter }
  else pure { allowed := true }

/-- A rejected upload would go over a limit that does not end with the month. -/
lemma checkUpload_rejected {lim : Limits} {usage : Usage} {incomingBytes : ℤ}
    (h : (checkUpload lim usage incomingBytes).allowed = false) :
    (lim.docs < usage.docs + 1 ∨ lim.storageBytes < usage.storageBytes + incomingBytes) ∧
      (checkUpload lim usage incomingBytes).retryAfter = 0 := by
  rw [checkUpload] at h ⊢
  split at h
  · next hdocs => exact ⟨Or.inl hdocs, by rw [if_pos hdocs]⟩
  · next hdocs =>
    split at h
    · next hbytes => exact ⟨Or.inr hbytes, by rw [if_neg hdocs, if_pos hbytes]⟩
    · simp at h

/-! ## The rest of the month -/

/-- The microseconds from a date to the start of the next month. -/
def restOfMonth (now : Utc) : ℤ :=
  (daysBefore (nextMonth now.1.year now.1.month).1 (nextMonth now.1.year now.1.month).2 + 1 -
    now.1.days) * dayMicros - now.1.sinceMidnight

/-- A month has at most 31 days, and a date in it comes before its end. -/
lemma restOfMonth_bounds (now : Utc) :
    0 < restOfMonth now ∧ restOfMonth now ≤ 31 * dayMicros := by
  obtain ⟨⟨hy, -⟩, ⟨hm, -⟩, -⟩ := now.1.date_ok
  have hmonth := now.1.days_bounds
  have hnext := daysBefore_nextMonth hy hm
  have hlen := (daysInMonth_bounds now.1.year now.1.month).2
  have hday := now.1.sinceMidnight_lt
  rw [hnext] at hmonth
  simp only [restOfMonth, hnext, dayMicros] at hday ⊢
  omega

/-- The rest of a month has the fraction of a second that the date lacks. -/
lemma restOfMonth_emod (now : Utc) :
    restOfMonth now % 1000000 = 0 ↔ now.1.micro = 0 := by
  obtain ⟨-, -, -, hmicro⟩ := now.1.time_ok
  simp only [restOfMonth, DateTime.sinceMidnight, dayMicros]
  omega

lemma nextMonth_ok {year month : ℕ} (hy : 1 ≤ year ∧ year ≤ 9998) (hm : 1 ≤ month ∧ month ≤ 12) :
    (1 ≤ (nextMonth year month).1 ∧ (nextMonth year month).1 ≤ 9999) ∧
      1 ≤ (nextMonth year month).2 ∧ (nextMonth year month).2 ≤ 12 := by
  simp only [nextMonth]
  split_ifs <;> dsimp only <;> omega

lemma utc_ok : ∀ o ∈ some (0 : ℤ), -dayMicros < o ∧ o < dayMicros := by
  simp [dayMicros]

/-- The first of a month, at midnight. -/
lemma make_first {year month : ℕ} (hy : 1 ≤ year ∧ year ≤ 9999) (hm : 1 ≤ month ∧ month ≤ 12) :
    ∃ t : Utc, DateTime.make year month 1 0 0 0 0 (some 0) = some t.1 ∧ t.1.year = year ∧
      t.1.month = month ∧ t.1.wallClock = (daysBefore year month + 1) * dayMicros := by
  have hlen := (daysInMonth_bounds year month).1
  have hok : ((1 ≤ year ∧ year ≤ 9999) ∧ (1 ≤ month ∧ month ≤ 12) ∧
      1 ≤ 1 ∧ 1 ≤ daysInMonth year month) ∧
      (0 < 24 ∧ 0 < 60 ∧ 0 < 60 ∧ 0 < 1000000) ∧
      ∀ o ∈ some (0 : ℤ), -dayMicros < o ∧ o < dayMicros :=
    ⟨⟨hy, hm, le_rfl, by omega⟩, by omega, utc_ok⟩
  refine ⟨⟨⟨year, month, 1, 0, 0, 0, 0, some 0, hok.1, hok.2.1, hok.2.2⟩, rfl⟩, ?_, rfl, rfl, ?_⟩
  · rw [DateTime.make, dif_pos hok]
  · rw [DateTime.wallClock_eq]
    simp [DateTime.days, DateTime.sinceMidnight]

/-- The caps change nothing, and the fraction of a second is cut off. -/
lemma secondsUntilNextMonth_eq {now : Utc} (hy : now.1.year ≤ 9998) :
    secondsUntilNextMonth now = .ok (restOfMonth now / 1000000) := by
  obtain ⟨⟨hy1, -⟩, hm, -⟩ := now.1.date_ok
  obtain ⟨hyear, hmonth⟩ := nextMonth_ok ⟨hy1, hy⟩ hm
  obtain ⟨nxt, hmake, -, -, hwall⟩ := make_first hyear hmonth
  have hgap : nxt.1.wallClock - now.1.wallClock = restOfMonth now := by
    rw [hwall, DateTime.wallClock_eq, restOfMonth, Int.sub_mul]
    omega
  obtain ⟨hpos, hle⟩ := restOfMonth_bounds now
  have hbound : restOfMonth now ≤ 31 * 86400000000 := hle
  have hsecs := totalSeconds_eq_div hpos.le (by omega)
  have hcap : capAt32Days (restOfMonth now / 1000000) = restOfMonth now / 1000000 := by
    rw [capAt32Days, if_neg (by omega), if_neg (by omega)]
  have hsplit : secondsUntilNextMonth now =
      match DateTime.make (nextMonth now.1.year now.1.month).1
        (nextMonth now.1.year now.1.month).2 1 0 0 0 0 (some 0) with
      | none => .error .valueError
      | some nxt => .ok (capAt32Days (totalSeconds (nxt.wallClock - now.1.wallClock))) := rfl
  rw [hsplit, hmake]
  simp only [hgap, hsecs, hcap]

lemma checkQuery_rejects {now : Utc} (hy : now.1.year ≤ 9998) {lim : Limits} {usage : Usage}
    (h : lim.queriesPerMonth < usage.queriesThisMonth + 1) :
    checkQuery now lim usage =
      .ok ⟨false, some .queriesPerMonth, lim.queriesPerMonth, usage.queriesThisMonth,
        restOfMonth now / 1000000⟩ := by
  rw [checkQuery, if_pos h, secondsUntilNextMonth_eq hy]
  rfl

/-! ## When a retry helps -/

/-- There are seconds to wait, and the month after that of `now` has then begun. -/
def Helps (now : Utc) (d : Decision) : Prop :=
  0 < d.retryAfter ∧ ∃ u : Utc, u.1.wallClock = now.1.wallClock + d.retryAfter * 1000000 ∧
    (u.1.year, u.1.month) = nextMonth now.1.year now.1.month

/-- The seconds after which the month after has begun. -/
lemma helps_iff {now : Utc} (hy : now.1.year ≤ 9998) {d : Decision}
    (hd : d.retryAfter = restOfMonth now / 1000000) : Helps now d ↔ now.1.micro = 0 := by
  obtain ⟨⟨hy1, -⟩, hm, -⟩ := now.1.date_ok
  have hrest : restOfMonth now = (daysBefore (nextMonth now.1.year now.1.month).1
      (nextMonth now.1.year now.1.month).2 + 1) * dayMicros - now.1.wallClock := by
    rw [restOfMonth, DateTime.wallClock_eq, Int.sub_mul]
    omega
  have hpos := (restOfMonth_bounds now).1
  rw [← restOfMonth_emod, Helps, hd]
  constructor
  · rintro ⟨-, u, hu, hnext⟩
    -- a date of the next month is not before its start
    have hstart : (daysBefore u.1.year u.1.month + 1) * dayMicros ≤ u.1.wallClock := by
      have hdays := u.1.days_bounds.1
      rw [DateTime.wallClock_eq]
      have hmul := Int.mul_le_mul_of_nonneg_right (by exact_mod_cast hdays :
        (daysBefore u.1.year u.1.month + 1 : ℤ) ≤ u.1.days) (by decide : 0 ≤ dayMicros)
      omega
    have hyear : u.1.year = (nextMonth now.1.year now.1.month).1 := congrArg Prod.fst hnext
    have hmonth : u.1.month = (nextMonth now.1.year now.1.month).2 := congrArg Prod.snd hnext
    rw [hyear, hmonth] at hstart
    omega
  · intro hwhole
    obtain ⟨hyear, hmonth⟩ := nextMonth_ok ⟨hy1, hy⟩ hm
    obtain ⟨nxt, -, hy', hm', hwall⟩ := make_first hyear hmonth
    refine ⟨by omega, nxt, ?_, Prod.ext hy' hm'⟩
    rw [hwall]
    omega

/-- **The retry helps exactly if the clock shows no fraction of a second.** -/
theorem retry_helps_iff (now : Utc) (hy : now.1.year ≤ 9998) (lim : Limits) (usage : Usage) :
    ∃ d, checkQuery now lim usage = .ok d ∧
      (d.allowed = false → (Helps now d ↔ now.1.micro = 0)) := by
  by_cases h : lim.queriesPerMonth < usage.queriesThisMonth + 1
  · exact ⟨_, checkQuery_rejects hy h, fun _ => helps_iff hy rfl⟩
  · have hallowed : checkQuery now lim usage = .ok { allowed := true } := by
      rw [checkQuery, if_neg h]
      rfl
    exact ⟨_, hallowed, fun hrej => by simp at hrej⟩

/-- The limits and the usage of a tenant that has made its five queries. -/
def fiveQueries : Limits × Usage := (⟨100, 524288000, 5⟩, ⟨0, 0, 5⟩)

/-- Noon on the 15th of December 2026. -/
def noon : Utc :=
  ⟨⟨2026, 12, 15, 12, 0, 0, 0, some 0, by decide, by decide, utc_ok⟩, rfl⟩

/-- The last half second of January 2026. -/
def lastHalfSecond : Utc :=
  ⟨⟨2026, 1, 31, 23, 59, 59, 500000, some 0, by decide, by decide, utc_ok⟩, rfl⟩

theorem noon_retry_helps : ∃ d, checkQuery noon fiveQueries.1 fiveQueries.2 = .ok d ∧
    d.allowed = false ∧ Helps noon d := by
  obtain ⟨d, hd, hiff⟩ := retry_helps_iff noon (by decide) fiveQueries.1 fiveQueries.2
  have hrej : d.allowed = false := by
    have heq := checkQuery_rejects (by decide : noon.1.year ≤ 9998)
      (by decide : fiveQueries.1.queriesPerMonth < fiveQueries.2.queriesThisMonth + 1)
    rw [heq, Except.ok.injEq] at hd
    rw [← hd]
  exact ⟨d, hd, hrej, (hiff hrej).mpr rfl⟩

/-- In the last second of a month no retry would help. -/
theorem lastHalfSecond_no_retry : ¬ ∀ now : Utc, now.1.year ≤ 9998 → ∀ lim usage d,
    checkQuery now lim usage = .ok d → d.allowed = false → Helps now d := by
  intro hall
  have heq := checkQuery_rejects (by decide : lastHalfSecond.1.year ≤ 9998)
    (by decide : fiveQueries.1.queriesPerMonth < fiveQueries.2.queriesThisMonth + 1)
  have hhelps := hall lastHalfSecond (by decide) _ _ _ heq rfl
  exact absurd ((helps_iff (by decide) rfl).mp hhelps) (by decide)

end Omkit.Quota
