import AiraGateway.Library.CodePoints
import Mathlib.Algebra.Order.Ring.Nat
import Mathlib.Data.Int.Notation

/-!
# Calendar dates

Days are counted from 1970-01-01; a day's date is of the Gregorian calendar, before its introduction
as well (`civilOf`), and `dayOf` counts a date's days.

* `dayOf_civilOf`: a day's date counts as that day.
* `readDay_dayText`: the text `YYYY-MM-DD` of a day says which it is, whatever follows it.
-/

namespace AiraGateway

/-! ### Dates -/

structure CivilDate where
  year : ℤ
  month : ℤ
  day : ℤ
  deriving DecidableEq

/-- A day in its cycle of 400 years, which begin in March: a leap day is the last of its year. -/
structure CycleDay where
  cycle : ℤ
  century : ℤ
  leap : ℤ
  year : ℤ
  day : ℤ

/-- Which day of a cycle a day is: of four centuries, 25 leap cycles and four years, the last of
each may be longer. -/
def cycleDay (day : ℤ) : CycleDay :=
  let shifted := day + 719468
  let inCycle := shifted % 146097
  let century := min 3 (inCycle / 36524)
  let inCentury := inCycle - 36524 * century
  let leap := inCentury / 1461
  let inLeap := inCentury - 1461 * leap
  let year := min 3 (inLeap / 365)
  ⟨shifted / 146097, century, leap, year, inLeap - 365 * year⟩

/-- The date of a day. -/
def civilOf (day : ℤ) : CivilDate :=
  let c := cycleDay day
  -- months counted from March
  let month := (5 * c.day + 2) / 153
  let civil := if month < 10 then month + 3 else month - 9
  { year := 400 * c.cycle + (100 * c.century + 4 * c.leap + c.year) + if civil ≤ 2 then 1 else 0
    month := civil
    day := c.day - (153 * month + 2) / 5 + 1 }

/-- The day of a date. -/
def dayOf (date : CivilDate) : ℤ :=
  let year := if date.month ≤ 2 then date.year - 1 else date.year
  let month := if date.month ≤ 2 then date.month + 9 else date.month - 3
  let inYear := (153 * month + 2) / 5 + date.day - 1
  365 * year + year / 4 - year / 100 + year / 400 + inYear - 719468

structure CycleDay.Bounded (c : CycleDay) : Prop where
  century : 0 ≤ c.century ∧ c.century ≤ 3
  leap : 0 ≤ c.leap ∧ c.leap ≤ 24
  year : 0 ≤ c.year ∧ c.year ≤ 3
  day : 0 ≤ c.day ∧ c.day ≤ 365

theorem cycleDay_bounded (day : ℤ) : (cycleDay day).Bounded := by
  have hlow : 0 ≤ (day + 719468) % 146097 := Int.emod_nonneg _ (by decide)
  have hhigh : (day + 719468) % 146097 < 146097 := Int.emod_lt_of_pos _ (by decide)
  refine ⟨?_, ?_, ?_, ?_⟩
  all_goals
    simp only [cycleDay]
    omega

theorem eq_cycleDay (day : ℤ) :
    day = 146097 * (cycleDay day).cycle + 36524 * (cycleDay day).century
      + 1461 * (cycleDay day).leap + 365 * (cycleDay day).year + (cycleDay day).day - 719468 := by
  simp only [cycleDay]
  omega

theorem civilOf_bounds (day : ℤ) :
    1 ≤ (civilOf day).month ∧ (civilOf day).month ≤ 12 ∧ 1 ≤ (civilOf day).day ∧
      (civilOf day).day ≤ 31 := by
  obtain ⟨-, -, -, hlow, hhigh⟩ := cycleDay_bounded day
  simp only [civilOf]
  omega

/-- **A day's date counts as that day.** -/
theorem dayOf_civilOf (day : ℤ) : dayOf (civilOf day) = day := by
  obtain ⟨hcentury, hleap, hyear, hday⟩ := cycleDay_bounded day
  have heq := eq_cycleDay day
  generalize hc : cycleDay day = c at hcentury hleap hyear hday heq
  -- the parts of a year are those of its number
  have hparts : ∀ year : ℤ,
      year = 400 * c.cycle + (100 * c.century + 4 * c.leap + c.year) →
        365 * year + year / 4 - year / 100 + year / 400
          = 146097 * c.cycle + 36524 * c.century + 1461 * c.leap + 365 * c.year := by
    intro year hnumber
    omega
  simp only [dayOf, civilOf, hc]
  have hmonth : 0 ≤ (5 * c.day + 2) / 153 ∧ (5 * c.day + 2) / 153 ≤ 11 := by omega
  generalize (5 * c.day + 2) / 153 = month at hmonth
  by_cases hspring : month < 10
  · rw [if_pos hspring, if_neg (by omega), if_neg (by omega), if_neg (by omega), hparts _ (by omega)]
    have hback : month + 3 - 3 = month := by omega
    rw [hback]
    omega
  · rw [if_neg hspring, if_pos (by omega), if_pos (by omega), if_pos (by omega),
      hparts _ (by omega)]
    have hback : month - 9 + 9 = month := by omega
    rw [hback]
    omega

example : civilOf 0 = ⟨1970, 1, 1⟩ := by decide

example : civilOf 11016 = ⟨2000, 2, 29⟩ := by decide

/-- The days of the years 1 to 9998, and a few more. -/
def Written (day : ℤ) : Prop := -719200 ≤ day ∧ day ≤ 2932600

theorem year_bounds {day : ℤ} (h : Written day) :
    0 ≤ (civilOf day).year ∧ (civilOf day).year ≤ 9999 := by
  obtain ⟨hlow, hhigh⟩ := h
  obtain ⟨hcentury, hleap, hyear, hday⟩ := cycleDay_bounded day
  have heq := eq_cycleDay day
  simp only [civilOf]
  omega

/-! ### Texts -/

/-- A number in decimal, as many of its last digits as asked for. -/
def padded : ℕ → ℕ → CodePoints
  | 0, _ => []
  | width + 1, n => padded width (n / 10) ++ [48 + n % 10]

/-- The number that digits are. -/
def readDigits (text : CodePoints) : ℕ := text.foldl (fun n c => 10 * n + (c - 48)) 0

theorem length_padded (width n : ℕ) : (padded width n).length = width := by
  induction width generalizing n with
  | zero => rfl
  | succ width ih => rw [padded, List.length_append, ih, List.length_singleton]

/-- Digits, and nothing else. -/
theorem digit_of_mem_padded {width n c : ℕ} (h : c ∈ padded width n) : 48 ≤ c ∧ c ≤ 57 := by
  induction width generalizing n with
  | zero => cases h
  | succ width ih =>
    obtain hinit | hlast := List.mem_append.mp h
    · exact ih hinit
    · rw [List.mem_singleton.mp hlast]
      omega

theorem readDigits_padded {width n : ℕ} (h : n < 10 ^ width) :
    readDigits (padded width n) = n := by
  induction width generalizing n with
  | zero =>
    rw [Nat.lt_one_iff.mp h]
    rfl
  | succ width ih =>
    have hinit := @ih (n / 10) (by
      rw [Nat.div_lt_iff_lt_mul (by decide), ← pow_succ]
      exact h)
    rw [readDigits] at hinit
    rw [padded, readDigits, List.foldl_append, hinit]
    simp only [List.foldl_cons, List.foldl_nil]
    omega

/-- `YYYY-MM-DD`. -/
def dateText (date : CivilDate) : CodePoints :=
  padded 4 date.year.toNat ++ (45 :: padded 2 date.month.toNat) ++ (45 :: padded 2 date.day.toNat)

def dayText (day : ℤ) : CodePoints := dateText (civilOf day)

/-- The date at the beginning of a text. -/
def readDate (text : CodePoints) : CivilDate where
  year := readDigits (text.take 4)
  month := readDigits ((text.drop 5).take 2)
  day := readDigits ((text.drop 8).take 2)

def readDay (text : CodePoints) : ℤ := dayOf (readDate text)

theorem length_dayText (day : ℤ) : (dayText day).length = 10 := by
  simp [dayText, dateText, length_padded]

/-- A day's text has no blank in it. -/
theorem blank_notMem_dayText (day : ℤ) : 32 ∉ dayText day := by
  intro h
  simp only [dayText, dateText, List.mem_append, List.mem_cons] at h
  obtain (hyear | hdash | hmonth) | hdash | hday := h
  · have hdigit := digit_of_mem_padded hyear
    omega
  · omega
  · have hdigit := digit_of_mem_padded hmonth
    omega
  · omega
  · have hdigit := digit_of_mem_padded hday
    omega

/-- **The text of a day says which it is**, whatever follows it. -/
theorem readDay_dayText {day : ℤ} (h : Written day) (rest : CodePoints) :
    readDay (dayText day ++ rest) = day := by
  obtain ⟨hmonth, hmonth', hday, hday'⟩ := civilOf_bounds day
  obtain ⟨hyear, hyear'⟩ := year_bounds h
  have htext : dayText day ++ rest = padded 4 (civilOf day).year.toNat ++
      (45 :: (padded 2 (civilOf day).month.toNat ++ (45 :: (padded 2 (civilOf day).day.toNat ++
        rest)))) := by
    simp [dayText, dateText]
  have hread : readDate (dayText day ++ rest) = civilOf day := by
    rw [htext, readDate]
    have hfour := length_padded 4 (civilOf day).year.toNat
    have htwo := length_padded 2 (civilOf day).month.toNat
    have htwo' := length_padded 2 (civilOf day).day.toNat
    have htake : ∀ (width : ℕ) (front back : CodePoints), front.length = width →
        (front ++ back).take width = front := by
      rintro width front back rfl
      exact List.take_left
    have hdrop : ∀ (width : ℕ) (front back : CodePoints), front.length = width →
        (front ++ 45 :: back).drop (width + 1) = back := by
      rintro width front back rfl
      rw [← List.drop_drop, List.drop_left]
      rfl
    rw [htake 4 _ _ hfour, hdrop 4 _ _ hfour, htake 2 _ _ htwo,
      ← List.drop_drop (i := 3) (j := 5), hdrop 4 _ _ hfour, hdrop 2 _ _ htwo, htake 2 _ _ htwo',
      readDigits_padded (by omega), readDigits_padded (by omega), readDigits_padded (by omega),
      Int.toNat_of_nonneg hyear, Int.toNat_of_nonneg (by omega), Int.toNat_of_nonneg (by omega)]
  rw [readDay, hread, dayOf_civilOf]

theorem dayText_inj {day day' : ℤ} (h : Written day) (h' : Written day')
    (heq : dayText day = dayText day') : day = day' := by
  have hread := readDay_dayText h []
  rw [heq, readDay_dayText h'] at hread
  exact hread.symm

example : dayText 11016 = "2000-02-29" := by decide

end AiraGateway
