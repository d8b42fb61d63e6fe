import Mathlib.Data.Int.Init
import Mathlib.Tactic.Common
import Mathlib.Tactic.IntervalCases

/-!
# The proleptic Gregorian calendar

Days are counted from 1 March of the year 0. A year that starts in March has its leap day at
the end, so the start of the year and of the month are both given by linear expressions with
rounding, and all conversions are linear arithmetic.
-/

namespace Calendar

def isLeap (year : ℤ) : Bool := year % 4 = 0 ∧ (year % 100 ≠ 0 ∨ year % 400 = 0)

def daysIn (year : ℤ) (month : ℕ) : ℕ :=
  if month = 2 then if isLeap year then 29 else 28
  else if month = 4 ∨ month = 6 ∨ month = 9 ∨ month = 11 then 30 else 31

/-- A day that exists. -/
@[ext]
structure Date where
  year : ℤ
  month : ℕ
  day : ℕ
  isMonth : 1 ≤ month ∧ month ≤ 12
  isDay : 1 ≤ day ∧ day ≤ daysIn year month

/-- The first day of the year that starts in March of the given one. -/
def yearStart (year : ℤ) : ℤ := 365 * year + year / 4 - year / 100 + year / 400

/-- The year, counted from March, that a day lies in. -/
def yearOf (n : ℤ) : ℤ :=
  let year := n * 400 / 146097
  if yearStart (year + 1) ≤ n then year + 1 else year

theorem yearOf_spec (n : ℤ) : yearStart (yearOf n) ≤ n ∧ n < yearStart (yearOf n + 1) := by
  unfold yearOf yearStart
  dsimp only
  split_ifs <;> omega

theorem yearStart_mono {a b : ℤ} (h : a ≤ b) : yearStart a ≤ yearStart b := by
  unfold yearStart
  omega

theorem yearOf_eq {n year : ℤ} (hstart : yearStart year ≤ n) (hend : n < yearStart (year + 1)) :
    yearOf n = year := by
  obtain ⟨hstart', hend'⟩ := yearOf_spec n
  by_contra hne
  rcases Int.lt_or_gt_of_ne hne with hlt | hgt
  · have hmono : yearStart (yearOf n + 1) ≤ yearStart year := yearStart_mono (by omega)
    omega
  · have hmono : yearStart (year + 1) ≤ yearStart (yearOf n) := yearStart_mono (by omega)
    omega

/-- A year has a leap day at its end if the calendar year it runs into is a leap year. -/
theorem yearStart_succ (year : ℤ) :
    yearStart (year + 1) = yearStart year + if isLeap (year + 1) then 366 else 365 := by
  unfold yearStart isLeap
  split_ifs with h
  · simp only [decide_eq_true_eq] at h
    omega
  · simp only [decide_eq_true_eq] at h
    omega

/-- The first day of a month, counted from March, in its year. -/
def monthStart (month : ℕ) : ℕ := (153 * month + 2) / 5

/-- The month, counted from March, that a day of the year lies in. -/
def monthOf (day : ℕ) : ℕ := (5 * day + 2) / 153

theorem monthOf_spec (day : ℕ) : monthStart (monthOf day) ≤ day ∧
    day < monthStart (monthOf day + 1) := by
  unfold monthStart monthOf
  omega

namespace Date

/-- The calendar year and the month of a month counted from March. -/
def calendarMonth (month : ℕ) : ℕ := if month < 10 then month + 3 else month - 9

def marchMonth (month : ℕ) : ℕ := (month + 9) % 12

def marchYear (d : Date) : ℤ := if d.month ≤ 2 then d.year - 1 else d.year

def toDays (d : Date) : ℤ :=
  yearStart d.marchYear + monthStart (marchMonth d.month) + (d.day - 1)

def dayOfYear (n : ℤ) : ℕ := (n - yearStart (yearOf n)).toNat

theorem dayOfYear_spec (n : ℤ) : (dayOfYear n : ℤ) = n - yearStart (yearOf n) ∧
    dayOfYear n < if isLeap (yearOf n + 1) then 366 else 365 := by
  obtain ⟨hstart, hend⟩ := yearOf_spec n
  rw [yearStart_succ] at hend
  have hnat : (dayOfYear n : ℤ) = n - yearStart (yearOf n) := by
    unfold dayOfYear
    omega
  refine ⟨hnat, ?_⟩
  split_ifs at hend ⊢ <;> omega

def calendarYear (n : ℤ) : ℤ :=
  if monthOf (dayOfYear n) < 10 then yearOf n else yearOf n + 1

theorem monthOf_le (n : ℤ) : monthOf (dayOfYear n) ≤ 11 := by
  have h := (dayOfYear_spec n).2
  unfold monthOf
  split_ifs at h <;> omega

/-- The length of a month, from where it starts and, at the end of the year, where that ends. -/
theorem daysIn_calendarMonth (n : ℤ) :
    dayOfYear n - monthStart (monthOf (dayOfYear n)) + 1 ≤
      daysIn (calendarYear n) (calendarMonth (monthOf (dayOfYear n))) := by
  obtain ⟨hstart, hend⟩ := monthOf_spec (dayOfYear n)
  have hyear := (dayOfYear_spec n).2
  have hle := monthOf_le n
  unfold calendarYear calendarMonth daysIn
  generalize monthOf (dayOfYear n) = month at *
  generalize dayOfYear n = day at *
  unfold monthStart at *
  by_cases hfebruary : month = 11
  · subst hfebruary
    simp only [Nat.reduceLT, if_false, Nat.reduceSub, if_true]
    split_ifs at hyear ⊢ <;> omega
  · split_ifs <;> omega

def ofDays (n : ℤ) : Date where
  year := calendarYear n
  month := calendarMonth (monthOf (dayOfYear n))
  day := dayOfYear n - monthStart (monthOf (dayOfYear n)) + 1
  isMonth := by
    have h := monthOf_le n
    unfold calendarMonth
    split_ifs <;> omega
  isDay := ⟨Nat.le_add_left 1 _, daysIn_calendarMonth n⟩

theorem marchMonth_calendarMonth {month : ℕ} (h : month ≤ 11) :
    marchMonth (calendarMonth month) = month := by
  unfold marchMonth calendarMonth
  split_ifs <;> omega

theorem toDays_ofDays (n : ℤ) : (ofDays n).toDays = n := by
  obtain ⟨hday, -⟩ := dayOfYear_spec n
  obtain ⟨hstart, -⟩ := monthOf_spec (dayOfYear n)
  have hle := monthOf_le n
  have hyear : (ofDays n).marchYear = yearOf n := by
    unfold marchYear ofDays calendarYear calendarMonth
    dsimp only
    split_ifs <;> omega
  unfold toDays
  rw [hyear]
  simp only [ofDays, marchMonth_calendarMonth hle]
  omega

theorem year_ofDays {n : ℤ} (h : -60 ≤ n ∧ n ≤ 3652364) :
    0 ≤ (ofDays n).year ∧ (ofDays n).year ≤ 9999 := by
  obtain ⟨hstart, hend⟩ := yearOf_spec n
  obtain ⟨hday, -⟩ := dayOfYear_spec n
  have hfirst : -1 ≤ yearOf n := by
    by_contra hlt
    have hmono : yearStart (yearOf n + 1) ≤ yearStart (-1) := yearStart_mono (by omega)
    have hvalue : yearStart (-1) = -366 := by decide
    omega
  have hlast : yearOf n ≤ 9999 := by
    by_contra hlt
    have hmono : yearStart 10000 ≤ yearStart (yearOf n) := yearStart_mono (by omega)
    have hvalue : yearStart 10000 = 3652425 := by decide
    omega
  show 0 ≤ calendarYear n ∧ calendarYear n ≤ 9999
  unfold calendarYear monthOf
  -- The year that starts in March of -1 has only January and February in the range, and the
  -- one of 9999 has none of them.
  by_cases hstarts : yearOf n = -1
  · have hvalue : yearStart (yearOf n) = -366 := by rw [hstarts]; decide
    split_ifs <;> omega
  · by_cases hends : yearOf n = 9999
    · have hvalue : yearStart (yearOf n) = 3652059 := by rw [hends]; decide
      split_ifs <;> omega
    · split_ifs <;> omega

theorem calendarMonth_marchMonth (d : Date) : calendarMonth (marchMonth d.month) = d.month := by
  have h := d.isMonth
  unfold marchMonth calendarMonth
  split_ifs <;> omega

/-- The days of a month end where the next one starts, those of February with the year. -/
theorem day_le (d : Date) :
    monthStart (marchMonth d.month) + d.day ≤ monthStart (marchMonth d.month + 1) ∧
      monthStart (marchMonth d.month) + d.day ≤ if isLeap (d.marchYear + 1) then 366 else 365 := by
  obtain ⟨year, month, day, ⟨hfirst, hlast⟩, hday⟩ := d
  unfold daysIn at hday
  unfold monthStart marchMonth marchYear
  dsimp only
  by_cases hfebruary : month = 2
  · subst hfebruary
    simp only [if_true, Nat.reduceLeDiff, Int.sub_add_cancel] at hday ⊢
    split_ifs at hday ⊢ <;> omega
  · interval_cases month <;> split_ifs at hday ⊢ <;> omega

theorem monthOf_eq {day month : ℕ} (hstart : monthStart month ≤ day)
    (hend : day < monthStart (month + 1)) : monthOf day = month := by
  unfold monthOf monthStart at *
  omega

theorem ofDays_toDays (d : Date) : ofDays d.toDays = d := by
  obtain ⟨hmonthEnd, hyearEnd⟩ := d.day_le
  have hday := d.isDay.1
  have hsucc := yearStart_succ d.marchYear
  have hyear : yearOf d.toDays = d.marchYear := by
    apply yearOf_eq
    · unfold toDays
      omega
    · unfold toDays
      split_ifs at hyearEnd hsucc <;> omega
  have hdayOfYear : dayOfYear d.toDays = monthStart (marchMonth d.month) + (d.day - 1) := by
    unfold dayOfYear
    rw [hyear]
    unfold toDays
    omega
  have hmonth : monthOf (dayOfYear d.toDays) = marchMonth d.month := by
    rw [hdayOfYear]
    apply monthOf_eq
    · omega
    · omega
  have hcalendarYear : calendarYear d.toDays = d.year := by
    have hrange := d.isMonth
    unfold calendarYear
    rw [hmonth, hyear]
    unfold marchMonth marchYear
    split_ifs <;> omega
  apply Date.ext
  · exact hcalendarYear
  · show calendarMonth (monthOf (dayOfYear d.toDays)) = d.month
    rw [hmonth, calendarMonth_marchMonth]
  · show dayOfYear d.toDays - monthStart (monthOf (dayOfYear d.toDays)) + 1 = d.day
    rw [hmonth, hdayOfYear]
    omega

end Date

end Calendar
