import AiraGateway.Budgets.Scopes
import AiraGateway.Common.Calendar

/-!
# Budget periods

A budget counts by the day or by the month, on the installation's clock. The key of a counter is a
date written out, or its year and month; where a period starts and ends is worked out apart, from a
midnight turned back into a moment.

* A date's key says which day, or which month, it is of (`dayKey_inj`, `monthKey_inj`), and keys
  are ordered as their dates (`dayKey_lt_iff`, `monthKey_lt_iff`).
* **Periods tile time and their keys name them** (`periods_tile`): a moment is in its period,
  moments in one have one key and no others do, and one period ends where the next starts.
-/

namespace AiraGateway.Budgets

open LocalClock

/-! ### Keys and boundaries -/

/-- A date as it is written out. -/
def writtenDate (date : CivilDate) : Date := ⟨date.year.toNat, date.month.toNat, date.day.toNat⟩

/-- The counter key for a moment. -/
def keyOf (zone : TimeZone) (period : Text) (now : ℤ) : Text :=
  periodKey period (writtenDate (civilOf (zone.localDate now)))

/-- The period a counter key names. -/
def periodOf (key : Text) : Text :=
  if key.length = ("YYYY-MM-DD" : Text).length then "day" else "month"

/-- The first moment of the counter a key names. -/
def periodStarts (zone : TimeZone) (period : Text) (now : ℤ) : ℤ :=
  if period = "day" then zone.dayStarts now else zone.monthStarts now

/-- When the counter is replaced by the next one. -/
def periodEnds (zone : TimeZone) (period : Text) (now : ℤ) : ℤ :=
  if period = "day" then zone.dayEnds now else zone.monthEnds now

/-- Today, this week and this month. -/
def windows (zone : TimeZone) (now : ℤ) : List (ℤ × ℤ) :=
  [(periodStarts zone "day" now, periodEnds zone "day" now),
    (zone.weekStarts now, zone.weekEnds now),
    (periodStarts zone "month" now, periodEnds zone "month" now)]

/-- The dates of a period. -/
def periodsOf (period : Text) : Periods := if period = "day" then days else months

theorem periodStarts_eq (zone : TimeZone) (period : Text) (now : ℤ) :
    periodStarts zone period now = (periodsOf period).starts zone now := by
  unfold periodStarts periodsOf
  split_ifs
  · rfl
  · rfl

theorem periodEnds_eq (zone : TimeZone) (period : Text) (now : ℤ) :
    periodEnds zone period now = (periodsOf period).ends zone now := by
  unfold periodEnds periodsOf
  split_ifs
  · rfl
  · rfl

/-! ### What a key says -/

theorem toDigits_inj {n n' : ℕ} (h : Nat.toDigits 10 n = Nat.toDigits 10 n') : n = n' := by
  rw [← Nat.ofDigitChars_ten_toDigits (n := n), h, Nat.ofDigitChars_ten_toDigits]

/-- The digits of a number of four. -/
theorem toDigits_four {n : ℕ} (hlow : 1000 ≤ n) (hhigh : n < 10000) :
    Nat.toDigits 10 n = [(n / 1000).digitChar, (n / 100 % 10).digitChar, (n / 10 % 10).digitChar,
      (n % 10).digitChar] := by
  rw [Nat.toDigits_of_base_le (by decide) (by omega),
    Nat.toDigits_of_base_le (by decide) (by omega),
    Nat.toDigits_of_base_le (by decide) (by omega), Nat.toDigits_of_lt_base (by omega)]
  have hthousands : n / 10 / 10 / 10 = n / 1000 := by omega
  have hhundreds : n / 10 / 10 % 10 = n / 100 % 10 := by omega
  rw [hthousands, hhundreds]
  rfl

theorem digitChar_lt_iff {a b : ℕ} (ha : a < 10) (hb : b < 10) :
    a.digitChar < b.digitChar ↔ a < b := by
  have hall : ∀ a < 10, ∀ b < 10, a.digitChar < b.digitChar ↔ a < b := by decide
  exact hall a ha b hb

theorem digitChar_inj {a b : ℕ} (ha : a < 10) (hb : b < 10) :
    a.digitChar = b.digitChar ↔ a = b := by
  have hall : ∀ a < 10, ∀ b < 10, a.digitChar = b.digitChar ↔ a = b := by decide
  exact hall a ha b hb

/-- Texts whose fronts are of one length are ordered by these first. -/
theorem append_lt_append_iff {front front' back back' : Text}
    (hlength : front.length = front'.length) :
    front ++ back < front' ++ back' ↔ front < front' ∨ front = front' ∧ back < back' := by
  induction front generalizing front' with
  | nil =>
    obtain rfl := List.eq_nil_of_length_eq_zero hlength.symm
    simp
  | cons c front ih =>
    obtain ⟨c', rest, rfl⟩ := List.exists_cons_of_length_pos (l := front') (by
      rw [← hlength]
      exact Nat.succ_pos _)
    have hrest : front.length = rest.length := by simpa using hlength
    rw [List.cons_append, List.cons_append, List.cons_lt_cons_iff, List.cons_lt_cons_iff, ih hrest,
      List.cons.injEq]
    tauto

/-- A number as two digits, after a hyphen. -/
def twoOf (n : ℕ) : Text := ['-', (n / 10).digitChar, (n % 10).digitChar]

theorem twoOf_inj {n n' : ℕ} (h : n < 100) (h' : n' < 100) : twoOf n = twoOf n' ↔ n = n' := by
  simp only [twoOf, List.cons.injEq, true_and, and_true]
  rw [digitChar_inj (by omega) (by omega), digitChar_inj (by omega) (by omega)]
  omega

theorem twoOf_lt_iff {n n' : ℕ} (h : n < 100) (h' : n' < 100) : twoOf n < twoOf n' ↔ n < n' := by
  simp only [twoOf, List.cons_lt_cons_iff, lt_self_iff_false, and_false, or_false, true_and,
    false_or]
  rw [digitChar_lt_iff (by omega) (by omega), digitChar_lt_iff (by omega) (by omega),
    digitChar_inj (by omega) (by omega)]
  omega

theorem toDigits_lt_iff {n n' : ℕ} (hlow : 1000 ≤ n) (hhigh : n < 10000) (hlow' : 1000 ≤ n')
    (hhigh' : n' < 10000) : Nat.toDigits 10 n < Nat.toDigits 10 n' ↔ n < n' := by
  rw [toDigits_four hlow hhigh, toDigits_four hlow' hhigh']
  simp only [List.cons_lt_cons_iff, List.not_lt_nil, and_false, or_false]
  rw [digitChar_lt_iff (by omega) (by omega), digitChar_lt_iff (by omega) (by omega),
    digitChar_lt_iff (by omega) (by omega), digitChar_lt_iff (by omega) (by omega),
    digitChar_inj (by omega) (by omega), digitChar_inj (by omega) (by omega),
    digitChar_inj (by omega) (by omega)]
  omega

theorem periodKey_month (date : Date) :
    periodKey "month" date = Nat.toDigits 10 date.year ++ twoOf date.month := rfl

theorem periodKey_day (date : Date) :
    periodKey "day" date = Nat.toDigits 10 date.year ++ twoOf date.month ++ twoOf date.day := rfl

/-! ### Dates by their keys -/

section Dates

variable {day day' : ℤ}

/-- A month's key says which it is. -/
theorem monthKey_inj (hyear : 0 ≤ (civilOf day).year) (hyear' : 0 ≤ (civilOf day').year) :
    periodKey "month" (writtenDate (civilOf day)) = periodKey "month" (writtenDate (civilOf day')) ↔
      (civilOf day).monthIndex = (civilOf day').monthIndex := by
  have hbounds := civilOf_bounds day
  have hbounds' := civilOf_bounds day'
  rw [periodKey_month, periodKey_month]
  simp only [writtenDate, CivilDate.monthIndex]
  constructor
  · intro h
    have hlength : (Nat.toDigits 10 (civilOf day).year.toNat).length =
        (Nat.toDigits 10 (civilOf day').year.toNat).length := by
      have hall := congrArg List.length h
      simpa [twoOf] using hall
    obtain ⟨hyears, hmonths⟩ := List.append_inj h hlength
    have hsame := toDigits_inj hyears
    rw [twoOf_inj (by omega) (by omega)] at hmonths
    omega
  · intro h
    have hyears : (civilOf day).year = (civilOf day').year := by omega
    have hmonths : (civilOf day).month = (civilOf day').month := by omega
    rw [hyears, hmonths]

/-- A date is its month and its day of the month. -/
theorem day_eq_iff : day = day' ↔
    (civilOf day).monthIndex = (civilOf day').monthIndex ∧
      (civilOf day).day = (civilOf day').day := by
  have hday := monthBegins_add_day day
  have hday' := monthBegins_add_day day'
  constructor
  · rintro rfl
    exact ⟨rfl, rfl⟩
  · rintro ⟨hmonths, hdays⟩
    rw [hmonths] at hday
    omega

theorem day_lt_iff : day < day' ↔
    (civilOf day).monthIndex < (civilOf day').monthIndex ∨
      (civilOf day).monthIndex = (civilOf day').monthIndex ∧
        (civilOf day).day < (civilOf day').day := by
  have hday := monthBegins_add_day day
  have hday' := monthBegins_add_day day'
  constructor
  · intro h
    obtain hless | hsame := (monthIndex_mono h.le).lt_or_eq
    · exact Or.inl hless
    · rw [hsame] at hday
      exact Or.inr ⟨hsame, by omega⟩
  · rintro (hless | ⟨hsame, hdays⟩)
    · by_contra hnot
      have hmono := monthIndex_mono (not_lt.mp hnot)
      omega
    · rw [hsame] at hday
      omega

/-- A day's key says which it is. -/
theorem dayKey_inj (hyear : 0 ≤ (civilOf day).year) (hyear' : 0 ≤ (civilOf day').year) :
    periodKey "day" (writtenDate (civilOf day)) = periodKey "day" (writtenDate (civilOf day')) ↔
      day = day' := by
  have hbounds := civilOf_bounds day
  have hbounds' := civilOf_bounds day'
  constructor
  · intro h
    rw [periodKey_day, periodKey_day] at h
    obtain ⟨hmonths, hdays⟩ := List.append_inj' h rfl
    simp only [writtenDate] at hdays
    rw [twoOf_inj (by omega) (by omega)] at hdays
    rw [day_eq_iff]
    exact ⟨(monthKey_inj hyear hyear').mp hmonths, by omega⟩
  · rintro rfl
    rfl

/-- Dates in years of four digits. -/
def FourDigits (day : ℤ) : Prop := 1000 ≤ (civilOf day).year ∧ (civilOf day).year ≤ 9999

theorem monthKey_lt_iff (h : FourDigits day) (h' : FourDigits day') :
    periodKey "month" (writtenDate (civilOf day)) < periodKey "month" (writtenDate (civilOf day')) ↔
      (civilOf day).monthIndex < (civilOf day').monthIndex := by
  have hbounds := civilOf_bounds day
  have hbounds' := civilOf_bounds day'
  obtain ⟨hlow, hhigh⟩ := h
  obtain ⟨hlow', hhigh'⟩ := h'
  have hlength : (Nat.toDigits 10 (civilOf day).year.toNat).length =
      (Nat.toDigits 10 (civilOf day').year.toNat).length := by
    rw [toDigits_four (by omega) (by omega), toDigits_four (by omega) (by omega)]
    rfl
  rw [periodKey_month, periodKey_month]
  simp only [writtenDate, CivilDate.monthIndex]
  rw [append_lt_append_iff hlength, toDigits_lt_iff (by omega) (by omega) (by omega) (by omega),
    twoOf_lt_iff (by omega) (by omega)]
  have hyears : Nat.toDigits 10 (civilOf day).year.toNat =
      Nat.toDigits 10 (civilOf day').year.toNat ↔ (civilOf day).year = (civilOf day').year := by
    constructor
    · intro hsame
      have hnumbers := toDigits_inj hsame
      omega
    · intro hsame
      rw [hsame]
  rw [hyears]
  omega

theorem dayKey_lt_iff (h : FourDigits day) (h' : FourDigits day') :
    periodKey "day" (writtenDate (civilOf day)) < periodKey "day" (writtenDate (civilOf day')) ↔
      day < day' := by
  have hbounds := civilOf_bounds day
  have hbounds' := civilOf_bounds day'
  have hmonth := monthKey_lt_iff h h'
  have hyear : 0 ≤ (civilOf day).year := le_trans (by decide) h.1
  have hyear' : 0 ≤ (civilOf day').year := le_trans (by decide) h'.1
  have hsame := monthKey_inj hyear hyear'
  have hdays : twoOf (civilOf day).day.toNat < twoOf (civilOf day').day.toNat ↔
      (civilOf day).day < (civilOf day').day := by
    rw [twoOf_lt_iff (by omega) (by omega)]
    omega
  have hlength : (periodKey "month" (writtenDate (civilOf day))).length =
      (periodKey "month" (writtenDate (civilOf day'))).length := by
    obtain ⟨hlow, hhigh⟩ := h
    obtain ⟨hlow', hhigh'⟩ := h'
    simp only [periodKey_month, writtenDate]
    rw [toDigits_four (by omega) (by omega), toDigits_four (by omega) (by omega)]
    rfl
  change periodKey "month" (writtenDate (civilOf day)) ++ twoOf (civilOf day).day.toNat <
    periodKey "month" (writtenDate (civilOf day')) ++ twoOf (civilOf day').day.toNat ↔ _
  rw [append_lt_append_iff hlength, hmonth, hsame, hdays, ← day_lt_iff]

end Dates

/-! ### Periods -/

section Tiles

variable (zone : TimeZone)

def IsPeriod (period : Text) : Prop := period = "day" ∨ period = "month"

/-- A moment of the years 1000 to 9998. -/
def InYears (m : ℤ) : Prop :=
  1000 ≤ (civilOf (zone.localDate m)).year ∧ (civilOf (zone.localDate m)).year ≤ 9998

/-- From a moment to another are the moments of consecutive days, all of each. -/
def UnionOfDays (starts ends first next : ℤ) : Prop :=
  starts = zone.midnight first ∧ ends = zone.midnight next ∧
    zone.dayStarts starts = starts ∧ zone.dayStarts ends = ends ∧
    ∀ n, starts ≤ n ∧ n < ends ↔
      ∃ day, first ≤ day ∧ day < next ∧ zone.midnight day ≤ n ∧ n < zone.midnight (day + 1)

/-- **Periods tile time and their keys name them.** -/
structure PeriodsTile : Prop where
  inside : ∀ period, IsPeriod period → ∀ m, InYears zone m →
    periodStarts zone period m ≤ m ∧ m < periodEnds zone period m
  /-- Another moment of the calendar, which has no year before the first. -/
  named : ∀ period, IsPeriod period → ∀ m n, InYears zone m →
    0 < (civilOf (zone.localDate n)).year →
      (keyOf zone period n = keyOf zone period m ↔
        periodStarts zone period m ≤ n ∧ n < periodEnds zone period m)
  meet : ∀ period, IsPeriod period → ∀ m, InYears zone m →
    periodStarts zone period (periodEnds zone period m) = periodEnds zone period m
  months : ∀ m, InYears zone m → ∃ first next, (civilOf first).day = 1 ∧ (civilOf next).day = 1 ∧
    (civilOf next).monthIndex = (civilOf first).monthIndex + 1 ∧
      UnionOfDays zone (zone.monthStarts m) (zone.monthEnds m) first next
  weeks : ∀ m, InYears zone m → ∃ monday, weekday monday = 0 ∧
    UnionOfDays zone (zone.weekStarts m) (zone.weekEnds m) monday (monday + 7)
  shown : ∀ m, InYears zone m → ∀ window ∈ windows zone m, window.1 ≤ m ∧ m < window.2
  ordered : ∀ period, IsPeriod period → ∀ m n, InYears zone m → InYears zone n →
    (keyOf zone period m < keyOf zone period n ↔ periodEnds zone period m ≤ n)
  read : ∀ period, IsPeriod period → ∀ m, InYears zone m → periodOf (keyOf zone period m) = period

variable {zone} (hskips : zone.SkipsFromMidnight)

include hskips

/-- A period of dates is a union of days. -/
theorem unionOfDays (periods : Periods) (m : ℤ) :
    UnionOfDays zone (periods.starts zone m) (periods.ends zone m)
      (periods.first (zone.localDate m)) (periods.next (zone.localDate m)) := by
  have hboundary : ∀ date, zone.dayStarts (zone.midnight date) = zone.midnight date :=
    fun date => Periods.starts_midnight hskips days rfl
  refine ⟨rfl, rfl, hboundary _, hboundary _, fun n => ?_⟩
  rw [Periods.mem_iff hskips]
  simp only [TimeZone.midnight_le_iff hskips, TimeZone.lt_midnight_iff hskips]
  constructor
  · rintro ⟨hfirst, hnext⟩
    exact ⟨zone.localDate n, hfirst, hnext, le_refl _, by omega⟩
  · rintro ⟨day, hfirst, hnext, hday, hday'⟩
    omega

/-- A period is over where a later one has begun. -/
theorem ends_le_iff (periods : Periods) (m n : ℤ) :
    periods.ends zone m ≤ n ↔
      periods.first (zone.localDate m) < periods.first (zone.localDate n) := by
  rw [Periods.ends, TimeZone.midnight_le_iff hskips]
  have hstart := periods.first_le (zone.localDate m)
  have hend := periods.lt_next (zone.localDate m)
  constructor
  · intro h
    have hnext := Periods.first_le_first (periods.first_next _) h
    omega
  · intro h
    by_contra hnot
    have hlater := periods.first_le (zone.localDate n)
    have hsame := (periods.same (zone.localDate m) (zone.localDate n)).mpr ⟨by omega, by omega⟩
    omega

/-- **Budget periods tile time and their keys name them**, in every time zone whose dates never go
back and where a change that skips a midnight skips from it. -/
theorem periods_tile : PeriodsTile zone where
  inside period _ m _ := by
    rw [periodStarts_eq, periodEnds_eq]
    exact Periods.mem hskips (periodsOf period) m
  named period hperiod m n hm hn := by
    rw [periodStarts_eq, periodEnds_eq, Periods.mem_iff_first hskips]
    have hyear : 0 ≤ (civilOf (zone.localDate m)).year := by
      have hlow := hm.1
      omega
    obtain rfl | rfl := hperiod
    · exact dayKey_inj hn.le hyear
    · rw [keyOf, keyOf, monthKey_inj hn.le hyear]
      exact (monthFirst_eq_iff _ _).symm
  meet period _ m _ := by
    rw [periodStarts_eq, periodEnds_eq]
    exact Periods.starts_ends hskips m
  months m _ := by
    have hfirst := civilOf_monthBegins (civilOf (zone.localDate m)).monthIndex
    have hnext := civilOf_monthBegins ((civilOf (zone.localDate m)).monthIndex + 1)
    rw [← monthFirst_eq] at hfirst
    rw [← monthNext_eq] at hnext
    exact ⟨monthFirst (zone.localDate m), monthNext (zone.localDate m), hfirst.2, hnext.2,
      by rw [hnext.1, hfirst.1], unionOfDays hskips LocalClock.months m⟩
  weeks m _ := by
    have hweek := unionOfDays hskips LocalClock.weeks m
    have hnext : LocalClock.weeks.next (zone.localDate m) =
        LocalClock.weeks.first (zone.localDate m) + 7 := by
      change zone.localDate m + (7 - weekday (zone.localDate m)) =
        zone.localDate m - weekday (zone.localDate m) + 7
      omega
    rw [hnext] at hweek
    refine ⟨LocalClock.weeks.first (zone.localDate m), ?_, hweek⟩
    change weekday (zone.localDate m - weekday (zone.localDate m)) = 0
    rw [weekday, weekday]
    omega
  shown m _ window hwindow := by
    simp only [windows, List.mem_cons, List.not_mem_nil, or_false] at hwindow
    obtain rfl | rfl | rfl := hwindow
    · exact Periods.mem hskips days m
    · exact Periods.mem hskips LocalClock.weeks m
    · exact Periods.mem hskips LocalClock.months m
  ordered period hperiod m n hm hn := by
    rw [periodEnds_eq, ends_le_iff hskips]
    have hdate : FourDigits (zone.localDate m) := ⟨hm.1, by have := hm.2; omega⟩
    have hdate' : FourDigits (zone.localDate n) := ⟨hn.1, by have := hn.2; omega⟩
    obtain rfl | rfl := hperiod
    · exact dayKey_lt_iff hdate hdate'
    · rw [keyOf, keyOf, monthKey_lt_iff hdate hdate', ← monthBegins_lt_iff,
        ← monthFirst_eq, ← monthFirst_eq]
      rfl
  read period hperiod m hm := by
    have hlow := hm.1
    have hhigh := hm.2
    have hfour := toDigits_four (n := (civilOf (zone.localDate m)).year.toNat) (by omega) (by omega)
    obtain rfl | rfl := hperiod
    · rw [periodOf, keyOf, periodKey_day]
      simp [writtenDate, hfour, twoOf]
    · rw [periodOf, keyOf, periodKey_month]
      simp [writtenDate, hfour, twoOf]

end Tiles

/-- An hour ahead of UTC, and two from an hour of a day in spring. -/
def summerOffset (m : ℤ) : ℤ := if m < (24 * 20541 + 1) * hour then hour else 2 * hour

theorem summerOffset_bounded (m : ℤ) : -aDay < summerOffset m ∧ summerOffset m < aDay := by
  rw [summerOffset]
  split_ifs
  · decide
  · decide

theorem summerOffset_forward (m : ℤ) :
    (m + summerOffset m) / aDay ≤ (m + 1 + summerOffset (m + 1)) / aDay := by
  simp only [summerOffset, aDay, hour]
  split_ifs
  · omega
  · omega

def summerTime : TimeZone where
  offset := summerOffset
  bounded := summerOffset_bounded
  forward := summerOffset_forward

theorem summerTime_periods_tile : PeriodsTile summerTime := by
  refine periods_tile fun m day hbefore hafter => ?_
  simp only [TimeZone.shown, summerTime, summerOffset, aDay, hour] at *
  split_ifs at * <;> omega

end AiraGateway.Budgets
