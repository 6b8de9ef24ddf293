import AiraGateway.Library.CodePoints
import Mathlib.Data.Set.Function
import Mathlib.Order.Monotone.Basic
import Mathlib.Order.SuccPred.IntervalSucc
import Mathlib.Data.Int.SuccPred

/-!
# The installation's clock

One time zone for the installation, a whole number of hours from UTC at every moment: its offset is
a function of the hour of UTC. Moments are microseconds, hours and days are counted from the epoch.
A wall time is turned back into an instant by the offset before a change, where it is skipped, and
the first time where it is shown twice.

* `midnight_le_iff`: where a change that skips a midnight skips from it, a date's midnight is its
  first hour.
* `exists_late_midnight`: otherwise some date's midnight is later than its first hour.
-/

namespace AiraGateway.LocalClock

/-- An hour, in microseconds. -/
def hour : ℤ := 3600000000

def hourOf (moment : ℤ) : ℤ := moment / hour

/-- The first hour of the year 1000, and of 9999. -/
def firstHour : ℤ := -354285 * 24

def lastHour : ℤ := 2932532 * 24

/-- The clock an installation keeps: how many hours it is ahead in an hour of UTC. Its dates never
go back, and its changes are of the years 1000 to 9998. -/
structure Zone where
  name : CodePoints
  /-- Whether it is UTC itself. -/
  utc : Bool
  offset : ℤ → ℤ
  offset_utc : utc = true → ∀ h, offset h = 0
  bounded : ∀ h, -24 < offset h ∧ offset h < 24
  forward : ∀ h, (h + offset h) / 24 ≤ (h + 1 + offset (h + 1)) / 24
  changes : ∀ h, offset (h - 1) ≠ offset h → firstHour < h ∧ h < lastHour

namespace Zone

variable (zone : Zone)

/-- The hour the clock shows in an hour of UTC. -/
def wall (h : ℤ) : ℤ := h + zone.offset h

/-- The date in an hour of UTC. -/
def dateAt (h : ℤ) : ℤ := zone.wall h / 24

/-- `astimezone`: what the clock shows at a moment. -/
def localTime (moment : ℤ) : ℤ := moment + zone.offset (hourOf moment) * hour

def localDate (moment : ℤ) : ℤ := zone.localTime moment / (24 * hour)

/-- The first hour of UTC in which the clock shows a wall hour or a later one. -/
def reaches (wall : ℤ) : ℤ :=
  (((List.range 48).map fun i : ℕ => wall - 24 + i).find? fun h => wall ≤ zone.wall h).getD wall

/-- The hour of UTC of a wall hour. -/
def toUtc (wall : ℤ) : ℤ :=
  let first := zone.reaches wall
  if zone.wall first = wall then first else wall - zone.offset (first - 1)

/-- The first moment of a date, as an hour of UTC. -/
def midnight (day : ℤ) : ℤ := zone.toUtc (24 * day)

/-- The first moment of the day a moment falls in. -/
def dayStarts (moment : ℤ) : ℤ := zone.midnight (zone.localDate moment) * hour

/-- The first moment of the next day. -/
def dayEnds (moment : ℤ) : ℤ := zone.midnight (zone.localDate moment + 1) * hour

/-- A change that skips a midnight skips from it. -/
def SkipsFromMidnight : Prop :=
  ∀ h day, zone.wall (h - 1) < 24 * day → 24 * day < zone.wall h →
    zone.wall (h - 1) + 1 = 24 * day

/-! ### Dates -/

variable {zone}

theorem localDate_eq (moment : ℤ) : zone.localDate moment = zone.dateAt (hourOf moment) := by
  rw [localDate, localTime, dateAt, wall, hourOf, hour]
  omega

theorem dateAt_mono {h h' : ℤ} (hle : h ≤ h') : zone.dateAt h ≤ zone.dateAt h' :=
  monotone_int_of_le_succ zone.forward hle

theorem localDate_mono {moment moment' : ℤ} (h : moment ≤ moment') :
    zone.localDate moment ≤ zone.localDate moment' := by
  rw [localDate_eq, localDate_eq]
  exact dateAt_mono (Int.ediv_le_ediv (by decide) h)

/-- The first hour of a wall hour or a later one: there, and no earlier. -/
theorem reaches_spec (wall : ℤ) :
    wall ≤ zone.wall (zone.reaches wall) ∧ ∀ h < zone.reaches wall, zone.wall h < wall := by
  have hsome : ∃ h, ((List.range 48).map fun i : ℕ => wall - 24 + i).find?
      (fun h => wall ≤ zone.wall h) = some h := by
    have hlast : wall ≤ zone.wall (wall - 24 + (47 : ℕ)) := by
      have hbounded := zone.bounded (wall - 24 + (47 : ℕ))
      rw [Zone.wall]
      omega
    rw [← Option.isSome_iff_exists, List.find?_isSome]
    exact ⟨_, List.mem_map.mpr ⟨47, by decide, rfl⟩, decide_eq_true hlast⟩
  obtain ⟨h, hfound⟩ := hsome
  have hreaches : zone.reaches wall = h := by rw [reaches, hfound, Option.getD_some]
  obtain ⟨hholds, before, after, hlist, hbefore⟩ := List.find?_eq_some_iff_append.mp hfound
  rw [hreaches]
  refine ⟨of_decide_eq_true hholds, fun earlier hearlier => ?_⟩
  by_cases hfar : earlier < wall - 24
  · have hbounded := zone.bounded earlier
    rw [Zone.wall]
    omega
  · -- an earlier hour of the search comes before the one that was found
    have hindex : before.length < 48 := by
      have hlength := congrArg List.length hlist
      simp only [List.length_map, List.length_range, List.length_append, List.length_cons]
        at hlength
      omega
    have hat : ∀ i : ℕ, i < 48 → ((List.range 48).map fun i : ℕ => wall - 24 + i)[i]?
        = some (wall - 24 + i) := by
      intro i hi
      rw [List.getElem?_map, List.getElem?_range hi, Option.map_some]
    have hh : h = wall - 24 + before.length := by
      have hget := hat before.length hindex
      rw [hlist, List.getElem?_append_right (le_refl _), Nat.sub_self,
        List.getElem?_cons_zero] at hget
      exact Option.some.inj hget
    have hi : (earlier - (wall - 24)).toNat < before.length := by omega
    have hmem : earlier ∈ before := by
      have hget := hat (earlier - (wall - 24)).toNat (by omega)
      rw [hlist, List.getElem?_append_left hi] at hget
      have hmem := List.mem_of_getElem? hget
      rwa [Int.toNat_of_nonneg (by omega), add_sub_cancel] at hmem
    have hnot := hbefore earlier hmem
    simpa using hnot

/-- The first hour with a date is the first hour of the dates it skips too. -/
theorem reaches_eq {h day : ℤ} (hbefore : zone.dateAt (h - 1) < day)
    (hafter : day ≤ zone.dateAt h) : zone.reaches (24 * day) = h := by
  obtain ⟨hreached, hearlier⟩ := zone.reaches_spec (24 * day)
  refine le_antisymm ?_ ?_
  · by_contra hlate
    have hwall := hearlier h (by omega)
    rw [dateAt] at hafter
    omega
  · by_contra hearly
    have hdate : zone.dateAt (zone.reaches (24 * day)) ≤ zone.dateAt (h - 1) :=
      dateAt_mono (by omega)
    rw [dateAt] at hdate
    omega

/-- A midnight is no earlier than the date's first hour. -/
theorem reaches_le_midnight (day : ℤ) : zone.reaches (24 * day) ≤ zone.midnight day := by
  obtain ⟨-, hbefore⟩ := zone.reaches_spec (24 * day)
  rw [midnight, toUtc]
  split
  · exact le_refl _
  · have hlast := hbefore (zone.reaches (24 * day) - 1) (by omega)
    rw [wall] at hlast
    omega

/-- **A date's midnight is its first hour**, where a change that skips a midnight skips from it. -/
theorem midnight_le_iff (hskips : zone.SkipsFromMidnight) (day h : ℤ) :
    zone.midnight day ≤ h ↔ day ≤ zone.dateAt h := by
  obtain ⟨hreached, hbefore⟩ := zone.reaches_spec (24 * day)
  have hfirst : zone.midnight day = zone.reaches (24 * day) := by
    rw [midnight, toUtc]
    split
    · rfl
    · next hskipped =>
      have hlast := hbefore (zone.reaches (24 * day) - 1) (by omega)
      have hfrom := hskips (zone.reaches (24 * day)) day hlast (by omega)
      rw [wall] at hfrom
      omega
  rw [hfirst]
  constructor
  · intro hle
    have hdate : day ≤ zone.dateAt (zone.reaches (24 * day)) := by
      rw [dateAt]
      omega
    exact hdate.trans (dateAt_mono hle)
  · intro hdate
    by_contra hearlier
    have hwall := hbefore h (by omega)
    rw [dateAt] at hdate
    omega

/-- A date's midnight is in the date, or later. -/
theorem le_dateAt_midnight (day : ℤ) : day ≤ zone.dateAt (zone.midnight day) := by
  obtain ⟨hreached, -⟩ := zone.reaches_spec (24 * day)
  refine le_trans ?_ (dateAt_mono (zone.reaches_le_midnight day))
  rw [dateAt]
  omega

/-- An hour comes before the midnight of a later date. -/
theorem lt_midnight {h day : ℤ} (hlater : zone.dateAt h < day) : h < zone.midnight day := by
  have hreached := zone.le_dateAt_midnight day
  by_contra hnot
  have hdate : zone.dateAt (zone.midnight day) ≤ zone.dateAt h := dateAt_mono (not_lt.mp hnot)
  omega

/-- **A date's midnight is later than its first hour** where a change skips a midnight from before
it: that of the date the change leads to, or that of the date after the one it leads from. -/
theorem exists_late_midnight (h : ¬zone.SkipsFromMidnight) :
    ∃ hour, firstHour < hour ∧ hour < lastHour ∧ (hour < zone.midnight (zone.dateAt hour) ∨
      zone.dateAt (hour - 1) < zone.dateAt hour ∧
        hour < zone.midnight (zone.dateAt (hour - 1) + 1)) := by
  simp only [SkipsFromMidnight, not_forall] at h
  obtain ⟨hour, day, hbefore, hafter, hfrom⟩ := h
  have hchange : zone.offset (hour - 1) ≠ zone.offset hour := by
    rw [wall] at hbefore hfrom
    rw [wall] at hafter
    omega
  obtain ⟨hfirst, hlast⟩ := zone.changes hour hchange
  refine ⟨hour, hfirst, hlast, ?_⟩
  by_contra hneither
  -- a midnight that is skipped and yet on time ends the hour before the change
  have hontime : ∀ date, zone.dateAt (hour - 1) < date → date ≤ zone.dateAt hour →
      zone.midnight date ≤ hour →
        zone.wall hour = 24 * date ∨ zone.wall (hour - 1) + 1 = 24 * date := by
    intro date hlater hearlier hle
    rw [midnight, toUtc, reaches_eq hlater hearlier] at hle
    split at hle
    · next hshown => exact Or.inl hshown
    · simp only [dateAt, wall] at hlater ⊢
      omega
  have hdates : zone.dateAt (hour - 1) < zone.dateAt hour := by
    rw [dateAt, dateAt]
    omega
  have hled := hontime (zone.dateAt hour) hdates (le_refl _) (by omega)
  have hleft := hontime (zone.dateAt (hour - 1) + 1) (by omega) (by omega) (by omega)
  have hbounded := zone.bounded hour
  have hbounded' := zone.bounded (hour - 1)
  simp only [dateAt, wall] at *
  omega

end Zone

end AiraGateway.LocalClock
