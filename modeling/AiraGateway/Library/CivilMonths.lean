import AiraGateway.Library.CivilDates
import Mathlib.Order.Monotone.Basic
import Mathlib.Order.SuccPred.IntervalSucc
import Mathlib.Data.Int.SuccPred

/-!
# Months of the calendar

A month is counted by its year and its place in it (`monthIndex`), and begins with its first day
(`monthBegins`).

* `monthIndex_eq_iff`: the days of a month are those from its first to the next one's.
* `monthIndex_mono`: months are ordered as their days.
-/

namespace AiraGateway

/-- The number of a date's month. -/
def CivilDate.monthIndex (date : CivilDate) : ℤ := 12 * date.year + (date.month - 1)

/-- The first day of a month, by its number. -/
def monthBegins (index : ℤ) : ℤ := dayOf ⟨index / 12, index % 12 + 1, 1⟩

/-- The first day of the years that begin in March. -/
def marchOf (year : ℤ) : ℤ := 365 * year + year / 4 - year / 100 + year / 400 - 719468

/-- Only the last year of a leap cycle has a day more, and of a century's last leap cycle only where
the century is the cycle's last. -/
theorem cycleDay_day_le (day : ℤ) :
    ((cycleDay day).year < 3 → (cycleDay day).day ≤ 364) ∧
      ((cycleDay day).leap = 24 → (cycleDay day).century < 3 → (cycleDay day).day ≤ 364) := by
  simp only [cycleDay]
  constructor
  · intro hyear
    omega
  · intro hleap hcentury
    omega

/-- A day is in its cycle's year. -/
theorem lt_marchOf_succ (day : ℤ) :
    let c := cycleDay day
    let year := 400 * c.cycle + (100 * c.century + 4 * c.leap + c.year)
    marchOf year + c.day = day ∧ day < marchOf (year + 1) := by
  obtain ⟨hcentury, hleap, hyear, hday⟩ := cycleDay_bounded day
  obtain ⟨hshort, hcommon⟩ := cycleDay_day_le day
  have heq := eq_cycleDay day
  generalize cycleDay day = c at *
  simp only [marchOf]
  refine ⟨by omega, ?_⟩
  by_cases hlast : c.year = 3
  · by_cases hcycle : c.leap = 24
    · by_cases hyears : c.century = 3
      · omega
      · have := hcommon hcycle (by omega)
        omega
    · omega
  · have := hshort (by omega)
    omega

/-- A month's first day, in the year that began the March before. -/
theorem monthBegins_eq (index : ℤ) :
    monthBegins index = marchOf ((index - 2) / 12) + (153 * ((index - 2) % 12) + 2) / 5 := by
  rw [monthBegins, dayOf, marchOf]
  simp only
  by_cases hspring : index % 12 + 1 ≤ 2
  · rw [if_pos hspring, if_pos hspring]
    have hyear : (index - 2) / 12 = index / 12 - 1 := by omega
    have hmonth : (index - 2) % 12 = index % 12 + 1 + 9 := by omega
    rw [hyear, hmonth]
    omega
  · rw [if_neg hspring, if_neg hspring]
    have hyear : (index - 2) / 12 = index / 12 := by omega
    have hmonth : (index - 2) % 12 = index % 12 + 1 - 3 := by omega
    rw [hyear, hmonth]
    omega

theorem marchOf_lt (year : ℤ) : marchOf year + 365 ≤ marchOf (year + 1) := by
  rw [marchOf, marchOf]
  omega

theorem monthBegins_lt_succ (index : ℤ) : monthBegins index < monthBegins (index + 1) := by
  rw [monthBegins_eq, monthBegins_eq]
  by_cases hlast : (index - 2) % 12 = 11
  · have hyear : (index + 1 - 2) / 12 = (index - 2) / 12 + 1 := by omega
    have hmonth : (index + 1 - 2) % 12 = 0 := by omega
    have hmarch := marchOf_lt ((index - 2) / 12)
    rw [hyear, hmonth, hlast]
    omega
  · have hyear : (index + 1 - 2) / 12 = (index - 2) / 12 := by omega
    have hmonth : (index + 1 - 2) % 12 = (index - 2) % 12 + 1 := by omega
    rw [hyear, hmonth]
    omega

theorem monthBegins_lt_iff {index index' : ℤ} :
    monthBegins index < monthBegins index' ↔ index < index' :=
  (strictMono_int_of_lt_succ monthBegins_lt_succ).lt_iff_lt

theorem monthBegins_inj {index index' : ℤ} :
    monthBegins index = monthBegins index' ↔ index = index' :=
  (strictMono_int_of_lt_succ monthBegins_lt_succ).injective.eq_iff

/-- The day of the month is counted from its first day. -/
theorem monthBegins_add_day (day : ℤ) :
    monthBegins (civilOf day).monthIndex + ((civilOf day).day - 1) = day := by
  have hcounted := dayOf_civilOf day
  obtain ⟨hmonth, hmonth', -, -⟩ := civilOf_bounds day
  have hyear : (civilOf day).monthIndex / 12 = (civilOf day).year := by
    rw [CivilDate.monthIndex]
    omega
  have hplace : (civilOf day).monthIndex % 12 + 1 = (civilOf day).month := by
    rw [CivilDate.monthIndex]
    omega
  rw [monthBegins, hyear, hplace]
  rw [dayOf] at hcounted
  rw [dayOf]
  simp only at hcounted ⊢
  omega

/-- A day's month, in the year that began the March before. -/
theorem monthIndex_civilOf (day : ℤ) :
    let c := cycleDay day
    (civilOf day).monthIndex = 12 * (400 * c.cycle + (100 * c.century + 4 * c.leap + c.year)) +
      (5 * c.day + 2) / 153 + 2 := by
  obtain ⟨-, -, -, hday⟩ := cycleDay_bounded day
  simp only [CivilDate.monthIndex, civilOf]
  generalize cycleDay day = c at *
  have hmonth : 0 ≤ (5 * c.day + 2) / 153 ∧ (5 * c.day + 2) / 153 ≤ 11 := by omega
  generalize (5 * c.day + 2) / 153 = month at *
  by_cases hspring : month < 10
  · rw [if_pos hspring, if_neg (by omega)]
    omega
  · rw [if_neg hspring, if_pos (by omega)]
    omega

/-- A day is before the month after its own. -/
theorem lt_monthBegins_succ (day : ℤ) : day < monthBegins ((civilOf day).monthIndex + 1) := by
  obtain ⟨hmarch, hnext⟩ := lt_marchOf_succ day
  obtain ⟨-, -, -, hday⟩ := cycleDay_bounded day
  have hindex := monthIndex_civilOf day
  simp only at hmarch hnext hindex
  generalize cycleDay day = c at *
  generalize 400 * c.cycle + (100 * c.century + 4 * c.leap + c.year) = year at *
  have hmonth : 0 ≤ (5 * c.day + 2) / 153 ∧ (5 * c.day + 2) / 153 ≤ 11 := by omega
  rw [monthBegins_eq, hindex]
  by_cases hlast : (5 * c.day + 2) / 153 = 11
  · -- February is the last month of a year that begins in March
    have hyear : (12 * year + (5 * c.day + 2) / 153 + 2 + 1 - 2) / 12 = year + 1 := by omega
    have hplace : (12 * year + (5 * c.day + 2) / 153 + 2 + 1 - 2) % 12 = 0 := by omega
    rw [hyear, hplace]
    omega
  · have hyear : (12 * year + (5 * c.day + 2) / 153 + 2 + 1 - 2) / 12 = year := by omega
    have hplace : (12 * year + (5 * c.day + 2) / 153 + 2 + 1 - 2) % 12 =
        (5 * c.day + 2) / 153 + 1 := by omega
    rw [hyear, hplace]
    omega

/-- **The days of a month** are those from its first to the next month's. -/
theorem monthIndex_eq_iff {day index : ℤ} :
    (civilOf day).monthIndex = index ↔ monthBegins index ≤ day ∧ day < monthBegins (index + 1) := by
  have hfirst : monthBegins (civilOf day).monthIndex ≤ day := by
    have hday := monthBegins_add_day day
    have hbounds := civilOf_bounds day
    omega
  have hlast := lt_monthBegins_succ day
  constructor
  · rintro rfl
    exact ⟨hfirst, hlast⟩
  · rintro ⟨hbegins, hends⟩
    have hearlier := monthBegins_lt_iff.mp (hbegins.trans_lt hlast)
    have hlater := monthBegins_lt_iff.mp (hfirst.trans_lt hends)
    omega

/-- A month begins in itself, with its first day. -/
theorem civilOf_monthBegins (index : ℤ) :
    (civilOf (monthBegins index)).monthIndex = index ∧ (civilOf (monthBegins index)).day = 1 := by
  have hindex : (civilOf (monthBegins index)).monthIndex = index :=
    monthIndex_eq_iff.mpr ⟨le_refl _, monthBegins_lt_succ index⟩
  have hday := monthBegins_add_day (monthBegins index)
  rw [hindex] at hday
  exact ⟨hindex, by omega⟩

theorem monthIndex_mono {day day' : ℤ} (h : day ≤ day') :
    (civilOf day).monthIndex ≤ (civilOf day').monthIndex := by
  have hbegins := (monthIndex_eq_iff.mp rfl : monthBegins (civilOf day).monthIndex ≤ day ∧ _).1
  have hends := lt_monthBegins_succ day'
  have hless := monthBegins_lt_iff.mp ((hbegins.trans h).trans_lt hends)
  omega

example : monthBegins (12 * 2000 + 2) - monthBegins (12 * 2000 + 1) = 29 := by decide

end AiraGateway
