import AiraGateway.Common.Clock
import AiraGateway.Library.CivilMonths

/-!
# Days, weeks and months of a time zone

A time zone's offset is a function of the moment, a moment a microsecond. A boundary is a date's
midnight turned back into a moment: by the offset before a change where it is skipped, and the first
time where it is shown twice.

* **A date's midnight is its first moment** (`midnight_le_iff`), where a change that skips a
  midnight skips from it. A date that is skipped as a whole has the midnight of the next one.
* What joins consecutive dates into periods (`Periods`) joins their moments: a period runs from the
  midnight of its first date to that of the next period's (`Periods.mem_iff`).
* An installation's clock is such a zone, and has its midnights (`Zone.timeZone_midnight`).
-/

namespace AiraGateway.LocalClock

/-- A day, in microseconds. -/
def aDay : ℤ := 24 * hour

/-- A time zone: how far ahead of UTC it is at a moment. Its dates never go back. -/
structure TimeZone where
  offset : ℤ → ℤ
  bounded : ∀ m, -aDay < offset m ∧ offset m < aDay
  forward : ∀ m, (m + offset m) / aDay ≤ (m + 1 + offset (m + 1)) / aDay

namespace TimeZone

variable (zone : TimeZone)

/-- `astimezone`: what the zone shows at a moment. -/
def shown (m : ℤ) : ℤ := m + zone.offset m

def localDate (m : ℤ) : ℤ := zone.shown m / aDay

theorem exists_reaches (wall : ℤ) : ∃ n : ℕ, wall ≤ zone.shown (wall - aDay + n) := by
  refine ⟨(2 * aDay).toNat, ?_⟩
  have hmoment : wall - aDay + ((2 * aDay).toNat : ℤ) = wall + aDay := by
    rw [Int.toNat_of_nonneg (by decide)]
    omega
  have hbounded := zone.bounded (wall + aDay)
  rw [hmoment, shown]
  omega

/-- The first moment at which the zone shows a wall time or a later one. -/
def reaches (wall : ℤ) : ℤ := wall - aDay + Nat.find (zone.exists_reaches wall)

/-- The moment of a wall time. -/
def toUtc (wall : ℤ) : ℤ :=
  let first := zone.reaches wall
  if zone.shown first = wall then first else wall - zone.offset (first - 1)

def midnight (day : ℤ) : ℤ := zone.toUtc (aDay * day)

/-- A change that skips a midnight skips from it. -/
def SkipsFromMidnight : Prop :=
  ∀ m day, zone.shown (m - 1) < aDay * day → aDay * day < zone.shown m →
    zone.shown (m - 1) + 1 = aDay * day

/-! ### Midnights -/

variable {zone}

theorem localDate_mono {m m' : ℤ} (h : m ≤ m') : zone.localDate m ≤ zone.localDate m' :=
  monotone_int_of_le_succ (f := zone.localDate) zone.forward h

/-- The first moment of a wall time or a later one: there, and no earlier. -/
theorem reaches_spec (wall : ℤ) :
    wall ≤ zone.shown (zone.reaches wall) ∧ ∀ m < zone.reaches wall, zone.shown m < wall := by
  refine ⟨Nat.find_spec (zone.exists_reaches wall), fun m hm => ?_⟩
  by_cases hfar : m < wall - aDay
  · have hbounded := zone.bounded m
    rw [shown]
    omega
  · have hearlier : (m - (wall - aDay)).toNat < Nat.find (zone.exists_reaches wall) := by
      rw [reaches] at hm
      omega
    have hnot := Nat.find_min (zone.exists_reaches wall) hearlier
    rw [Int.toNat_of_nonneg (by omega), add_sub_cancel] at hnot
    exact not_le.mp hnot

theorem midnight_eq_reaches (hskips : zone.SkipsFromMidnight) (day : ℤ) :
    zone.midnight day = zone.reaches (aDay * day) := by
  obtain ⟨hreached, hbefore⟩ := zone.reaches_spec (aDay * day)
  rw [midnight, toUtc]
  split
  · rfl
  · next hskipped =>
    have hlast := hbefore (zone.reaches (aDay * day) - 1) (by omega)
    have hfrom := hskips (zone.reaches (aDay * day)) day hlast (by omega)
    rw [shown] at hfrom
    omega

theorem le_localDate_iff {day m : ℤ} : day ≤ zone.localDate m ↔ aDay * day ≤ zone.shown m := by
  rw [localDate, Int.le_ediv_iff_mul_le (by decide), mul_comm]

/-- **A date's midnight is its first moment**, or that of the first later date there is. -/
theorem midnight_le_iff (hskips : zone.SkipsFromMidnight) (day m : ℤ) :
    zone.midnight day ≤ m ↔ day ≤ zone.localDate m := by
  obtain ⟨hreached, hbefore⟩ := zone.reaches_spec (aDay * day)
  rw [midnight_eq_reaches hskips]
  constructor
  · intro hle
    exact (le_localDate_iff.mpr hreached).trans (localDate_mono hle)
  · intro hdate
    by_contra hearlier
    have hwall := hbefore m (not_le.mp hearlier)
    have hshown := le_localDate_iff.mp hdate
    omega

theorem lt_midnight_iff (hskips : zone.SkipsFromMidnight) {day m : ℤ} :
    m < zone.midnight day ↔ zone.localDate m < day := by
  rw [← not_le, midnight_le_iff hskips, not_le]

/-- What is no later than a midnight's date and no earlier than the midnight's own has it too. -/
theorem midnight_eq_of_le (hskips : zone.SkipsFromMidnight) {day day' : ℤ} (h : day ≤ day')
    (h' : day' ≤ zone.localDate (zone.midnight day)) : zone.midnight day' = zone.midnight day := by
  refine le_antisymm ((midnight_le_iff hskips _ _).mpr h') ((midnight_le_iff hskips _ _).mpr ?_)
  exact h.trans ((midnight_le_iff hskips _ _).mp (le_refl _))

end TimeZone

/-! ### Dates joined into periods -/

/-- Consecutive dates joined into periods: the first date of a date's period, and of the next. -/
structure Periods where
  first : ℤ → ℤ
  next : ℤ → ℤ
  first_le : ∀ day, first day ≤ day
  lt_next : ∀ day, day < next day
  same : ∀ day day', first day' = first day ↔ first day ≤ day' ∧ day' < next day
  first_next : ∀ day, first (next day) = next day

namespace Periods

variable (periods : Periods) (zone : TimeZone)

/-- The first moment of the period a moment falls in. -/
def starts (m : ℤ) : ℤ := zone.midnight (periods.first (zone.localDate m))

/-- The first moment of the next period. -/
def ends (m : ℤ) : ℤ := zone.midnight (periods.next (zone.localDate m))

variable {periods} {zone} (hskips : zone.SkipsFromMidnight)

include hskips

theorem starts_le (m : ℤ) : periods.starts zone m ≤ m :=
  (TimeZone.midnight_le_iff hskips _ _).mpr (periods.first_le _)

theorem lt_ends (m : ℤ) : m < periods.ends zone m :=
  (TimeZone.lt_midnight_iff hskips).mpr (periods.lt_next _)

/-- A moment is in its period. -/
theorem mem (periods : Periods) (m : ℤ) :
    periods.starts zone m ≤ m ∧ m < periods.ends zone m :=
  ⟨starts_le hskips m, lt_ends hskips m⟩

/-- **A period is its dates**: the moments of the dates from its first to the next one's. -/
theorem mem_iff (m n : ℤ) :
    periods.starts zone m ≤ n ∧ n < periods.ends zone m ↔
      periods.first (zone.localDate m) ≤ zone.localDate n ∧
        zone.localDate n < periods.next (zone.localDate m) :=
  and_congr (TimeZone.midnight_le_iff hskips _ _) (TimeZone.lt_midnight_iff hskips)

theorem mem_iff_first (m n : ℤ) :
    periods.starts zone m ≤ n ∧ n < periods.ends zone m ↔
      periods.first (zone.localDate n) = periods.first (zone.localDate m) := by
  rw [mem_iff hskips, periods.same]

omit hskips in
/-- The first date of a date no earlier than a period's first is no earlier either. -/
theorem first_le_first {first day : ℤ} (hfirst : periods.first first = first) (h : first ≤ day) :
    first ≤ periods.first day := by
  by_contra hearlier
  have hinside : periods.first day ≤ first ∧ first < periods.next day :=
    ⟨(not_le.mp hearlier).le, h.trans_lt (periods.lt_next day)⟩
  have hsame := (periods.same day first).mpr hinside
  rw [hfirst] at hsame
  omega

/-- The moment a period ends begins a period. -/
theorem starts_midnight (periods : Periods) {first : ℤ} (hfirst : periods.first first = first) :
    periods.starts zone (zone.midnight first) = zone.midnight first := by
  have hdate := (TimeZone.midnight_le_iff hskips first (zone.midnight first)).mp (le_refl _)
  exact TimeZone.midnight_eq_of_le hskips (first_le_first hfirst hdate)
    (periods.first_le _)

/-- **A period ends where the next one starts.** -/
theorem starts_ends (m : ℤ) : periods.starts zone (periods.ends zone m) = periods.ends zone m :=
  starts_midnight hskips periods (periods.first_next _)

end Periods

/-! ### Days, weeks and months -/

/-- Each date by itself. -/
def days : Periods where
  first day := day
  next day := day + 1
  first_le day := le_refl day
  lt_next day := by omega
  same day day' := by omega
  first_next day := rfl

/-- `date.weekday()`: Monday is none. -/
def weekday (day : ℤ) : ℤ := (day + 3) % 7

def weeks : Periods where
  first day := day - weekday day
  next day := day + (7 - weekday day)
  first_le day := by
    rw [weekday]
    omega
  lt_next day := by
    rw [weekday]
    omega
  same day day' := by
    rw [weekday, weekday]
    omega
  first_next day := by
    simp only [weekday]
    omega

/-- The first day of a date's month. -/
def monthFirst (day : ℤ) : ℤ := dayOf { civilOf day with day := 1 }

/-- The first day of the next month. -/
def monthNext (day : ℤ) : ℤ :=
  let today := civilOf day
  if today.month = 12 then dayOf ⟨today.year + 1, 1, 1⟩ else dayOf ⟨today.year, today.month + 1, 1⟩

theorem monthFirst_eq (day : ℤ) : monthFirst day = monthBegins (civilOf day).monthIndex := by
  obtain ⟨hmonth, hmonth', -, -⟩ := civilOf_bounds day
  have hyear : (civilOf day).monthIndex / 12 = (civilOf day).year := by
    rw [CivilDate.monthIndex]
    omega
  have hplace : (civilOf day).monthIndex % 12 + 1 = (civilOf day).month := by
    rw [CivilDate.monthIndex]
    omega
  rw [monthFirst, monthBegins, hyear, hplace]

theorem monthNext_eq (day : ℤ) : monthNext day = monthBegins ((civilOf day).monthIndex + 1) := by
  obtain ⟨hmonth, hmonth', -, -⟩ := civilOf_bounds day
  rw [monthNext, monthBegins, CivilDate.monthIndex]
  by_cases hlast : (civilOf day).month = 12
  · have hyear : (12 * (civilOf day).year + ((civilOf day).month - 1) + 1) / 12 =
        (civilOf day).year + 1 := by omega
    have hplace : (12 * (civilOf day).year + ((civilOf day).month - 1) + 1) % 12 + 1 = 1 := by
      omega
    rw [hyear, hplace]
    exact if_pos hlast
  · have hyear : (12 * (civilOf day).year + ((civilOf day).month - 1) + 1) / 12 =
        (civilOf day).year := by omega
    have hplace : (12 * (civilOf day).year + ((civilOf day).month - 1) + 1) % 12 + 1 =
        (civilOf day).month + 1 := by omega
    rw [hyear, hplace]
    exact if_neg hlast

/-- Two dates are of one month exactly where their months begin with one day. -/
theorem monthFirst_eq_iff (day day' : ℤ) :
    monthFirst day' = monthFirst day ↔ (civilOf day').monthIndex = (civilOf day).monthIndex := by
  rw [monthFirst_eq, monthFirst_eq, monthBegins_inj]

def months : Periods where
  first := monthFirst
  next := monthNext
  first_le day := by
    rw [monthFirst_eq]
    exact (monthIndex_eq_iff.mp rfl).1
  lt_next day := by
    rw [monthNext_eq]
    exact lt_monthBegins_succ day
  same day day' := by
    rw [monthFirst_eq_iff, monthIndex_eq_iff, ← monthFirst_eq, ← monthNext_eq]
  first_next day := by
    rw [monthFirst_eq, monthNext_eq]
    refine congrArg monthBegins (monthIndex_eq_iff.mpr ⟨le_refl _, ?_⟩)
    exact monthBegins_lt_succ _

namespace TimeZone

variable (zone : TimeZone) (m : ℤ)

/-- The first moment of the day a moment falls in. -/
def dayStarts : ℤ := zone.midnight (zone.localDate m)

/-- The first moment of the next day. -/
def dayEnds : ℤ := zone.midnight (zone.localDate m + 1)

/-- The first moment of the week a moment falls in: Monday. -/
def weekStarts : ℤ :=
  let today := zone.localDate m
  zone.midnight (today - weekday today)

/-- The first moment of the next week. -/
def weekEnds : ℤ :=
  let today := zone.localDate m
  zone.midnight (today + (7 - weekday today))

/-- The first moment of the month a moment falls in. -/
def monthStarts : ℤ := zone.midnight (monthFirst (zone.localDate m))

/-- The first moment of the next month. -/
def monthEnds : ℤ := zone.midnight (monthNext (zone.localDate m))

end TimeZone

/-! ### The installation's clock -/

namespace Zone

variable (zone : Zone)

theorem offset_bounded (m : ℤ) :
    -aDay < zone.offset (hourOf m) * hour ∧ zone.offset (hourOf m) * hour < aDay := by
  have hbounded := zone.bounded (hourOf m)
  rw [aDay, hour]
  omega

theorem date_forward (m : ℤ) :
    (m + zone.offset (hourOf m) * hour) / aDay
      ≤ (m + 1 + zone.offset (hourOf (m + 1)) * hour) / aDay := by
  have hhere : zone.localDate m = zone.dateAt (hourOf m) := localDate_eq m
  have hnext : zone.localDate (m + 1) = zone.dateAt (hourOf (m + 1)) := localDate_eq (m + 1)
  rw [localDate, localTime] at hhere hnext
  rw [aDay, hhere, hnext]
  exact dateAt_mono (Int.ediv_le_ediv (by decide) (by omega))

/-- An installation's clock, moment by moment. -/
def timeZone : TimeZone where
  offset m := zone.offset (hourOf m) * hour
  bounded := zone.offset_bounded
  forward := zone.date_forward

theorem timeZone_localDate (m : ℤ) : zone.timeZone.localDate m = zone.localDate m := rfl

theorem timeZone_shown (m : ℤ) :
    zone.timeZone.shown m = zone.wall (hourOf m) * hour + (m - hourOf m * hour) := by
  change m + zone.offset (hourOf m) * hour = _
  rw [wall]
  rw [hour]
  omega

/-- A wall hour is first reached at the beginning of an hour. -/
theorem timeZone_reaches (day : ℤ) :
    zone.timeZone.reaches (aDay * day) = zone.reaches (24 * day) * hour := by
  obtain ⟨hreached, hbefore⟩ := zone.timeZone.reaches_spec (aDay * day)
  obtain ⟨hhour, hearlier⟩ := zone.reaches_spec (24 * day)
  generalize hr : zone.reaches (24 * day) = r at *
  have hstart : hourOf (r * hour) = r := by
    rw [hourOf, hour]
    omega
  refine le_antisymm ?_ ?_
  · by_contra hlate
    have hshown := hbefore (r * hour) (not_le.mp hlate)
    rw [timeZone_shown, hstart, aDay, hour] at hshown
    omega
  · by_contra hearly
    have hbefore' : hourOf (zone.timeZone.reaches (aDay * day)) < r := by
      rw [hour] at hearly
      rw [hourOf, hour]
      omega
    have hwall := hearlier _ hbefore'
    rw [timeZone_shown] at hreached
    generalize zone.timeZone.reaches (aDay * day) = m at *
    have hinside : m - hourOf m * hour < hour := by
      rw [hourOf, hour]
      omega
    rw [aDay, hour] at hreached
    rw [hour] at hinside
    omega

/-- **An installation's clock has its midnights.** -/
theorem timeZone_midnight (day : ℤ) : zone.timeZone.midnight day = zone.midnight day * hour := by
  have hstart : ∀ r : ℤ, hourOf (r * hour) = r := by
    intro r
    rw [hourOf, hour]
    omega
  have hlast : ∀ r : ℤ, hourOf (r * hour - 1) = r - 1 := by
    intro r
    rw [hourOf, hour]
    omega
  rw [TimeZone.midnight, TimeZone.toUtc, midnight, toUtc, timeZone_reaches]
  simp only [timeZone_shown, hstart, sub_self, add_zero]
  by_cases hthere : zone.wall (zone.reaches (24 * day)) = 24 * day
  · rw [if_pos hthere, hthere, aDay, if_pos (by rw [hour]; omega)]
  · rw [if_neg hthere, aDay, if_neg (by rw [hour]; omega)]
    change _ - zone.offset (hourOf (zone.reaches (24 * day) * hour - 1)) * hour = _
    rw [hlast, hour]
    omega

end Zone

end AiraGateway.LocalClock
