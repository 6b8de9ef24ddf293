import AiraGateway.Common.Clock
import AiraGateway.Library.CivilDates
import AiraGateway.Reporting.Service

/-!
# The axis of a usage series

Every bucket of a window, on the installation's clock: its days by their dates, its hours by the
hour of UTC each begins on. A label is the clock's date, or its hour with its offset, as the hour
the clocks go back happens twice.

* `axis_spec`: the axis has every bucket of the window once, in the order of time.
* `exists_missing_bucket`: where a change skips a midnight from before it, some window's axis lacks
  a day.
-/

namespace AiraGateway.Reporting

open LocalClock

/-! ### Labels -/

/-- How wide a bucket is in UTC. -/
def Granularity.step : Granularity → ℤ
  | day => 24 * LocalClock.hour
  | hour => LocalClock.hour

def hourText (h : ℤ) : CodePoints := padded 2 (h % 24).toNat

/-- The bucket a clock that reads a time is in. -/
def label (reading : ℤ) : Granularity → CodePoints
  | .day => dayText (reading / (24 * hour))
  | .hour => dayText (reading / (24 * hour)) ++ 84 :: hourText (hourOf reading)

/-- `+HH:00`. -/
def offsetText (offset : ℤ) : CodePoints :=
  (if offset < 0 then 45 else 43) :: (padded 2 offset.natAbs ++ [58, 48, 48])

/-- The bucket a moment is in on the installation's clock. -/
def zonedLabel (zone : Zone) (moment : ℤ) : Granularity → CodePoints
  | .day => label (zone.localTime moment) .day
  | .hour => label (zone.localTime moment) .hour ++ offsetText (zone.offset (hourOf moment))

/-- What names the hour of a moment as the database renders it. -/
def stamp (moment : ℤ) : CodePoints :=
  dayText (moment / (24 * hour)) ++ 32 :: hourText (hourOf moment)

/-- The hour a text names. -/
def utcHour (rendered : CodePoints) : ℤ :=
  24 * readDay rendered + readDigits ((rendered.drop 11).take 2)

/-! ### The axis -/

/-- `while cursor < end`, with what is stepped to next. -/
def walk (next : ℤ → ℤ) (stop : ℤ) : ℕ → ℤ → List ℤ
  | 0, _ => []
  | fuel + 1, cursor =>
    if cursor < stop then cursor :: walk next stop fuel (next cursor) else []

/-- How many steps of an hour or more there are to an end. -/
def stepsTo (stop cursor : ℤ) : ℕ := ((stop - cursor) / hour + 1).toNat

def axis (zone : Zone) (start stop : ℤ) (granularity : Granularity) : List CodePoints :=
  if zone.utc then
    let cursor := start / granularity.step * granularity.step
    (walk (· + granularity.step) stop (stepsTo stop cursor) cursor).map (label · granularity)
  else
    match granularity with
    | .day =>
      let cursor := zone.dayStarts start
      (walk zone.dayEnds stop (stepsTo stop cursor) cursor).map (zonedLabel zone · .day)
    | .hour =>
      let cursor := hourOf start * hour
      (walk (· + hour) stop (stepsTo stop cursor) cursor).map (zonedLabel zone · .hour)

/-- The installation's clock as a report reads it. How the database renders what follows an hour,
and how a report states a moment, is its own. -/
def zoneClock (zone : Zone) (rest shown : ℤ → CodePoints) : Clock where
  utc := zone.utc
  name := zone.name
  rendered := fun moment => stamp moment ++ rest moment
  zonedLabel := fun rendered => zonedLabel zone (utcHour rendered * hour)
  axis := axis zone
  shown := shown

/-! ### Buckets -/

section Buckets

variable {zone : Zone} {granularity : Granularity} {moment moment' : ℤ}

/-- The label of the bucket a moment is in. -/
def bucketLabel (zone : Zone) (granularity : Granularity) (moment : ℤ) : CodePoints :=
  if zone.utc then label moment granularity else zonedLabel zone moment granularity

/-- The bucket itself: a date of the clock, or an hour of UTC. -/
def place (zone : Zone) : Granularity → ℤ → ℤ
  | .day, moment => zone.localDate moment
  | .hour, moment => hourOf moment

theorem localTime_utc (hutc : zone.utc = true) (moment : ℤ) : zone.localTime moment = moment := by
  rw [Zone.localTime, zone.offset_utc hutc, Int.zero_mul, Int.add_zero]

theorem hourOf_localTime (moment : ℤ) :
    hourOf (zone.localTime moment) = zone.wall (hourOf moment) := by
  rw [hourOf, Zone.localTime, Zone.wall, hourOf, hour]
  omega

theorem bucketLabel_day (moment : ℤ) :
    bucketLabel zone .day moment = dayText (zone.localDate moment) := by
  rw [bucketLabel]
  split
  · next hutc => rw [label, Zone.localDate, localTime_utc hutc]
  · rfl

theorem bucketLabel_hour (moment : ℤ) :
    bucketLabel zone .hour moment = dayText (zone.dateAt (hourOf moment)) ++
      84 :: (hourText (zone.wall (hourOf moment)) ++
        if zone.utc then [] else offsetText (zone.offset (hourOf moment))) := by
  rw [← Zone.localDate_eq, ← hourOf_localTime]
  rw [bucketLabel]
  split
  · next hutc => rw [label, Zone.localDate, localTime_utc hutc, List.append_nil]
  · rw [zonedLabel, label, Zone.localDate, List.append_assoc, List.cons_append]

/-- Moments of one bucket have its label. -/
theorem bucketLabel_congr (h : place zone granularity moment = place zone granularity moment') :
    bucketLabel zone granularity moment = bucketLabel zone granularity moment' := by
  cases granularity with
  | day =>
    have hday : zone.localDate moment = zone.localDate moment' := h
    rw [bucketLabel_day, bucketLabel_day, hday]
  | hour =>
    have hhour : hourOf moment = hourOf moment' := h
    rw [bucketLabel_hour, bucketLabel_hour, hhour]

theorem padded_two_inj {n m : ℕ} (hn : n < 100) (hm : m < 100) (h : padded 2 n = padded 2 m) :
    n = m := by
  have hread := congrArg readDigits h
  rwa [readDigits_padded hn, readDigits_padded hm] at hread

theorem offsetText_inj {offset offset' : ℤ} (h : -24 < offset ∧ offset < 24)
    (h' : -24 < offset' ∧ offset' < 24) (heq : offsetText offset = offsetText offset') :
    offset = offset' := by
  rw [offsetText, offsetText, List.cons.injEq] at heq
  obtain ⟨hsign, hdigits⟩ := heq
  have hlength : (padded 2 offset.natAbs).length = (padded 2 offset'.natAbs).length := by
    rw [length_padded, length_padded]
  have habs := padded_two_inj (by omega) (by omega) (List.append_inj hdigits hlength).1
  split at hsign
  · split at hsign
    · omega
    · cases hsign
  · split at hsign
    · cases hsign
    · omega

/-- **A label says which bucket it is.** -/
theorem place_of_bucketLabel (hmoment : Written (zone.localDate moment))
    (hmoment' : Written (zone.localDate moment'))
    (h : bucketLabel zone granularity moment = bucketLabel zone granularity moment') :
    place zone granularity moment = place zone granularity moment' := by
  cases granularity with
  | day =>
    rw [bucketLabel_day, bucketLabel_day] at h
    exact dayText_inj hmoment hmoment' h
  | hour =>
    rw [bucketLabel_hour, bucketLabel_hour] at h
    have hlength : (dayText (zone.dateAt (hourOf moment))).length
        = (dayText (zone.dateAt (hourOf moment'))).length := by
      rw [length_dayText, length_dayText]
    obtain ⟨hdate, hrest⟩ := List.append_inj h hlength
    rw [Zone.localDate_eq] at hmoment hmoment'
    have hday := dayText_inj hmoment hmoment' hdate
    rw [List.cons.injEq] at hrest
    have hlength' : (hourText (zone.wall (hourOf moment))).length
        = (hourText (zone.wall (hourOf moment'))).length := by
      rw [hourText, hourText, length_padded, length_padded]
    obtain ⟨hhour, hoffset⟩ := List.append_inj hrest.2 hlength'
    have hwall := padded_two_inj (by omega) (by omega) hhour
    have hsame : zone.offset (hourOf moment) = zone.offset (hourOf moment') := by
      cases hutc : zone.utc with
      | true => rw [zone.offset_utc hutc, zone.offset_utc hutc]
      | false =>
        rw [hutc] at hoffset
        exact offsetText_inj (zone.bounded _) (zone.bounded _) hoffset
    rw [Zone.dateAt, Zone.dateAt] at hday
    have hwalls : zone.wall (hourOf moment) = zone.wall (hourOf moment') := by omega
    rw [Zone.wall, Zone.wall, hsame] at hwalls
    exact add_right_cancel hwalls

/-- **The hour a database names** is the hour of the moment. -/
theorem utcHour_stamp (h : Written (moment / (24 * hour))) (rest : CodePoints) :
    utcHour (stamp moment ++ rest) = hourOf moment := by
  have htail : ((stamp moment ++ rest).drop 11).take 2 = hourText (hourOf moment) := by
    have hlength := length_dayText (moment / (24 * hour))
    have hfront : stamp moment ++ rest = dayText (moment / (24 * hour)) ++
        (32 :: (hourText (hourOf moment) ++ rest)) := by
      rw [stamp, List.append_assoc, List.cons_append]
    rw [hfront, ← List.drop_drop (i := 1) (j := 10), ← hlength, List.drop_left, List.drop_one,
      List.tail_cons]
    have htwo : (hourText (hourOf moment)).length = 2 := length_padded 2 _
    rw [← htwo, List.take_left]
  have hday : readDay (stamp moment ++ rest) = moment / (24 * hour) := by
    rw [stamp, List.append_assoc]
    exact readDay_dayText h _
  rw [utcHour, htail, hday, hourText, readDigits_padded (by omega), hourOf, hour]
  omega

end Buckets

/-! ### What is on the axis -/

section Walk

variable {next place : ℤ → ℤ} {P : ℤ → Prop} {stop : ℤ}

/-- A step is of an hour or more, and to the next place. -/
structure Steps (next place : ℤ → ℤ) (P : ℤ → Prop) : Prop where
  keeps : ∀ c, P c → P (next c)
  hour : ∀ c, P c → c + LocalClock.hour ≤ next c
  later : ∀ c, P c → place c < place (next c)
  within : ∀ c, P c → ∀ t, c ≤ t → t < next c → place t = place c

/-- **A walk** goes through every place up to its end, each once and in order. -/
theorem walk_spec (hsteps : Steps next place P) {fuel : ℕ} {cursor : ℤ} (hcursor : P cursor)
    (hfuel : stop ≤ cursor + fuel * hour) :
    (walk next stop fuel cursor).Pairwise (fun a b => a < b ∧ place a < place b) ∧
    (∀ c ∈ walk next stop fuel cursor, cursor ≤ c ∧ c < stop ∧ place cursor ≤ place c) ∧
    ∀ t, cursor ≤ t → t < stop → ∃ c ∈ walk next stop fuel cursor, place t = place c := by
  have hpos : (0 : ℤ) < hour := by decide
  induction fuel generalizing cursor with
  | zero =>
    refine ⟨List.Pairwise.nil, fun c hc => absurd hc List.not_mem_nil, fun t hle hlt => ?_⟩
    simp only [Nat.cast_zero, zero_mul, add_zero] at hfuel
    omega
  | succ fuel ih =>
    have hstep := hsteps.hour cursor hcursor
    have hlater := hsteps.later cursor hcursor
    obtain ⟨hpairs, hbounds, hcovers⟩ := ih (hsteps.keeps cursor hcursor) (by
      push_cast at hfuel
      simp only [hour] at *
      omega)
    rw [walk]
    split
    · next hbefore =>
      refine ⟨List.pairwise_cons.mpr ⟨fun c hc => ?_, hpairs⟩, ?_, fun t hle hlt => ?_⟩
      · obtain ⟨hfrom, -, hplace⟩ := hbounds c hc
        exact ⟨by omega, by omega⟩
      · rw [List.forall_mem_cons]
        refine ⟨⟨le_refl _, hbefore, le_refl _⟩, fun c hc => ?_⟩
        obtain ⟨hfrom, hto, hplace⟩ := hbounds c hc
        exact ⟨by omega, hto, by omega⟩
      · by_cases hnext : t < next cursor
        · exact ⟨cursor, List.mem_cons_self, hsteps.within cursor hcursor t hle hnext⟩
        · obtain ⟨c, hc, hplace⟩ := hcovers t (by omega) hlt
          exact ⟨c, List.mem_cons_of_mem _ hc, hplace⟩
    · next hend =>
      exact ⟨List.Pairwise.nil, fun c hc => absurd hc List.not_mem_nil, fun t hle hlt => by omega⟩

theorem le_stepsTo (stop cursor : ℤ) : stop ≤ cursor + stepsTo stop cursor * hour := by
  rw [stepsTo, hour]
  omega

end Walk

section Axis

variable {zone : Zone}

/-- A step of a day on UTC's clock, from the beginning of one. -/
theorem steps_utcDay (hutc : zone.utc = true) :
    Steps (· + 24 * hour) (place zone .day) (fun c => c % (24 * hour) = 0) := by
  have hplace : ∀ t, place zone .day t = t / (24 * hour) := by
    intro t
    rw [place, Zone.localDate, localTime_utc hutc]
  refine ⟨fun c hc => ?_, fun c hc => ?_, fun c hc => ?_, fun c hc t hle hlt => ?_⟩
  all_goals simp only [hplace, hour] at *
  all_goals omega

theorem steps_hour : Steps (· + hour) (place zone .hour) (fun c => c % hour = 0) := by
  have hplace : ∀ t, place zone .hour t = t / hour := fun t => rfl
  refine ⟨fun c hc => ?_, fun c hc => ?_, fun c hc => ?_, fun c hc t hle hlt => ?_⟩
  all_goals simp only [hplace, hour] at *
  all_goals omega

/-- A step to the next day of a clock, from a whole hour. -/
theorem steps_dayEnds (hskips : zone.SkipsFromMidnight) :
    Steps zone.dayEnds (place zone .day) (fun c => c % hour = 0) := by
  have hfirst := Zone.midnight_le_iff hskips
  have hwhole : ∀ h : ℤ, hourOf (h * hour) = h := by
    intro h
    rw [hourOf, hour]
    omega
  have hdate : ∀ c, zone.localDate c < zone.localDate (zone.dayEnds c) := by
    intro c
    rw [Zone.dayEnds, zone.localDate_eq (_ * hour), hwhole]
    have hreached := (hfirst (zone.localDate c + 1) _).mp (le_refl _)
    omega
  refine ⟨fun c hc => ?_, fun c hc => ?_, fun c hc => hdate c, fun c hc t hle hlt => ?_⟩
  · rw [Zone.dayEnds, Int.mul_emod_left]
  · -- a whole hour after a whole hour is an hour after it
    have hlater : c < zone.dayEnds c := by
      by_contra hnot
      have hback := zone.localDate_mono (not_lt.mp hnot)
      have hforward := hdate c
      omega
    rw [Zone.dayEnds, hour] at *
    omega
  · have hnot : ¬zone.localDate c + 1 ≤ zone.localDate t := by
      intro hpast
      rw [zone.localDate_eq t, ← hfirst] at hpast
      rw [Zone.dayEnds] at hlt
      rw [hourOf, hour] at hpast
      rw [hour] at hlt
      omega
    have hback := zone.localDate_mono hle
    rw [place, place]
    omega

/-- A moment of the years 1000 to 9998. -/
def InYears (moment : ℤ) : Prop := firstHour * hour ≤ moment ∧ moment ≤ lastHour * hour

instance (moment : ℤ) : Decidable (InYears moment) := inferInstanceAs (Decidable (_ ∧ _))

theorem written_of_inYears {moment : ℤ} (h : InYears moment) :
    Written (moment / (24 * hour)) ∧ Written (zone.localDate moment) := by
  have hbounded := zone.bounded (hourOf moment)
  rw [Zone.localDate, Zone.localTime]
  generalize zone.offset (hourOf moment) = offset at hbounded
  obtain ⟨hlow, hhigh⟩ := h
  simp only [Written, firstHour, lastHour, hour] at *
  omega

/-- What the axis says of a window. -/
structure Covers (zone : Zone) (start stop : ℤ) (granularity : Granularity)
    (labels : List CodePoints) : Prop where
  chronological : ∃ moments : List ℤ, moments.Pairwise (· < ·) ∧
    labels = moments.map (bucketLabel zone granularity)
  once : labels.Nodup
  every : ∀ t, start ≤ t → t < stop → bucketLabel zone granularity t ∈ labels

theorem covers_of_walk {granularity : Granularity} {next : ℤ → ℤ} {P : ℤ → Prop}
    {start stop cursor : ℤ} (hsteps : Steps next (place zone granularity) P) (hcursor : P cursor)
    (hfrom : place zone granularity cursor = place zone granularity start)
    (hle : cursor ≤ start) (hstart : InYears start) (hstop : InYears stop) :
    Covers zone start stop granularity
      ((walk next stop (stepsTo stop cursor) cursor).map (bucketLabel zone granularity)) := by
  obtain ⟨hpairs, hbounds, hcovers⟩ := walk_spec hsteps hcursor (le_stepsTo stop cursor)
  have hwritten : ∀ c ∈ walk next stop (stepsTo stop cursor) cursor,
      Written (zone.localDate c) := by
    intro c hc
    obtain ⟨hafter, hbefore, hplace⟩ := hbounds c hc
    have hfirst := (@written_of_inYears zone _ hstart).2
    have hlast := (@written_of_inYears zone _ hstop).2
    have hupper := zone.localDate_mono hbefore.le
    have hlower : zone.localDate start ≤ zone.localDate c := by
      rw [hfrom] at hplace
      cases granularity with
      | day => exact hplace
      | hour =>
        rw [zone.localDate_eq, zone.localDate_eq]
        exact Zone.dateAt_mono hplace
    rw [Written] at *
    omega
  refine ⟨⟨_, hpairs.imp And.left, rfl⟩, ?_, fun t hfromStart hbefore => ?_⟩
  · rw [List.Nodup, List.pairwise_map]
    refine (List.Pairwise.and_mem.mp hpairs).imp fun hpair hsame => ?_
    obtain ⟨ha, hb, -, hless⟩ := hpair
    exact absurd (place_of_bucketLabel (hwritten _ ha) (hwritten _ hb) hsame) hless.ne
  · obtain ⟨c, hc, hplace⟩ := hcovers t (hle.trans hfromStart) hbefore
    rw [bucketLabel_congr hplace]
    exact List.mem_map_of_mem hc

/-- **The axis has every bucket** of the window, once and in the order of time, where a change that
skips a midnight skips from it. -/
theorem axis_spec {start stop : ℤ} {granularity : Granularity}
    (hskips : granularity = .day → zone.SkipsFromMidnight) (hstart : InYears start)
    (hstop : InYears stop) :
    Covers zone start stop granularity (axis zone start stop granularity) := by
  have hlabel : ∀ t, bucketLabel zone granularity t
      = if zone.utc then label t granularity else zonedLabel zone t granularity := fun t => rfl
  rw [axis.eq_def]
  cases hutc : zone.utc with
  | true =>
    have hsame : (label · granularity) = bucketLabel zone granularity := by
      funext t
      rw [hlabel, hutc]
      rfl
    simp only [if_true, hsame]
    cases granularity with
    | day =>
      refine covers_of_walk (steps_utcDay hutc) ?_ ?_ ?_ hstart hstop
      · exact Int.mul_emod_left _ _
      · simp only [place, Zone.localDate, localTime_utc hutc, Granularity.step, hour]
        omega
      · simp only [Granularity.step, hour]
        omega
    | hour =>
      refine covers_of_walk steps_hour ?_ ?_ ?_ hstart hstop
      · exact Int.mul_emod_left _ _
      · simp only [place, hourOf, Granularity.step, hour]
        omega
      · simp only [Granularity.step, hour]
        omega
  | false =>
    have hsame : (zonedLabel zone · granularity) = bucketLabel zone granularity := by
      funext t
      rw [hlabel, hutc]
      rfl
    simp only [Bool.false_eq_true, if_false]
    cases granularity with
    | day =>
      have hfirst := Zone.midnight_le_iff (hskips rfl)
      have hle : zone.midnight (zone.localDate start) ≤ hourOf start := by
        rw [hfirst, zone.localDate_eq]
      have hwhole : hourOf (zone.dayStarts start) = zone.midnight (zone.localDate start) := by
        rw [Zone.dayStarts, hourOf, hour]
        omega
      have hbefore : zone.dayStarts start ≤ start := by
        rw [Zone.dayStarts]
        rw [hourOf] at hle
        rw [hour] at *
        omega
      simp only [hsame]
      refine covers_of_walk (steps_dayEnds (hskips rfl)) ?_ ?_ hbefore hstart hstop
      · exact Int.mul_emod_left _ _
      · refine le_antisymm (zone.localDate_mono hbefore) ?_
        change zone.localDate start ≤ zone.localDate (zone.dayStarts start)
        rw [zone.localDate_eq (zone.dayStarts start), hwhole]
        exact (hfirst _ _).mp (le_refl _)
    | hour =>
      simp only [hsame]
      refine covers_of_walk steps_hour ?_ ?_ ?_ hstart hstop
      · exact Int.mul_emod_left _ _
      · simp only [place, hourOf, hour]
        omega
      · simp only [hourOf, hour]
        omega

theorem walk_of_le {next : ℤ → ℤ} {stop cursor : ℤ} (fuel : ℕ) (hend : stop ≤ cursor) :
    walk next stop fuel cursor = [] := by
  cases fuel with
  | zero => rfl
  | succ fuel => rw [walk, if_neg (not_lt.mpr hend)]

/-- A walk from before its end whose first step is past it. -/
theorem walk_of_step {next : ℤ → ℤ} {stop cursor : ℤ} (fuel : ℕ) (hstep : stop ≤ next cursor) :
    walk next stop fuel cursor ⊆ [cursor] := by
  cases fuel with
  | zero => exact List.nil_subset _
  | succ fuel =>
    rw [walk]
    split
    · rw [walk_of_le fuel hstep]
      exact List.Subset.refl _
    · exact List.nil_subset _

/-- **A day is not on the axis** of some window, where a change skips a midnight from before it. -/
theorem exists_missing_bucket (h : ¬zone.SkipsFromMidnight) :
    ∃ start stop, InYears start ∧ InYears stop ∧
      ¬Covers zone start stop .day (axis zone start stop .day) := by
  have hutc : zone.utc = false := by
    by_contra hutc
    refine h fun hour day hbefore hafter => ?_
    rw [Zone.wall, zone.offset_utc (Bool.not_eq_false _ ▸ hutc)] at *
    omega
  obtain ⟨change, hfirst, hlast, hlate⟩ := Zone.exists_late_midnight h
  have hwhole : ∀ h : ℤ, hourOf (h * hour) = h := by
    intro h
    rw [hourOf, hour]
    omega
  have hdate : ∀ h : ℤ, zone.localDate (h * hour) = zone.dateAt h := by
    intro h
    rw [zone.localDate_eq, hwhole]
  have hyears : ∀ h, firstHour ≤ h → h < lastHour →
      InYears (h * hour) ∧ InYears (h * hour + 1) := by
    intro h hfrom hto
    simp only [InYears, hour]
    omega
  have hstop := (hyears change (by omega) hlast).2
  -- a date's label on the axis is the label of a place that is walked through
  have hlabel : ∀ {h : ℤ} {start stop : ℤ}, InYears (h * hour) →
      bucketLabel zone .day (h * hour) ∈ axis zone start stop .day → ∃ c ∈ walk zone.dayEnds stop
        (stepsTo stop (zone.dayStarts start)) (zone.dayStarts start),
        bucketLabel zone .day c = bucketLabel zone .day (h * hour) := by
    intro h start stop hin hmem
    rw [axis, hutc] at hmem
    obtain ⟨c, hc, hsame⟩ := List.mem_map.mp hmem
    refine ⟨c, hc, ?_⟩
    rw [← hsame, bucketLabel, hutc]
    rfl
  obtain hlate | ⟨hdates, hlate⟩ := hlate
  · -- the day begins too late for a window of its first hour
    refine ⟨change * hour, change * hour + 1, (hyears change (by omega) hlast).1, hstop, ?_⟩
    intro hcovers
    obtain ⟨c, hc, -⟩ := hlabel (hyears change (by omega) hlast).1
      (hcovers.every (change * hour) (le_refl _) (by omega))
    rw [Zone.dayStarts, hdate, walk_of_le] at hc
    · exact absurd hc List.not_mem_nil
    · rw [hour]
      omega
  · -- the next day begins too late for a window of the hours about the change
    have hbefore := (hyears (change - 1) (by omega) (by omega)).1
    refine ⟨(change - 1) * hour, change * hour + 1, hbefore, hstop, ?_⟩
    intro hcovers
    have hone : ∀ h : ℤ, InYears (h * hour) → (change - 1) * hour ≤ h * hour →
        h * hour < change * hour + 1 → bucketLabel zone .day (zone.dayStarts ((change - 1) * hour))
          = bucketLabel zone .day (h * hour) := by
      intro h hin hle hlt
      obtain ⟨c, hc, hsame⟩ := hlabel hin (hcovers.every (h * hour) hle hlt)
      have hstep : change * hour + 1 ≤ zone.dayEnds (zone.dayStarts ((change - 1) * hour)) := by
        have hfrom : change < zone.midnight
            (zone.dateAt (zone.midnight (zone.dateAt (change - 1))) + 1) := by
          by_cases hsoon : zone.midnight (zone.dateAt (change - 1)) ≤ change - 1
          · have hback : zone.dateAt (zone.midnight (zone.dateAt (change - 1)))
                ≤ zone.dateAt (change - 1) := Zone.dateAt_mono hsoon
            have hreached := zone.le_dateAt_midnight (zone.dateAt (change - 1))
            rwa [le_antisymm hback hreached]
          · have hnext : zone.midnight (zone.dateAt (change - 1)) < zone.midnight
                (zone.dateAt (zone.midnight (zone.dateAt (change - 1))) + 1) :=
              Zone.lt_midnight (Int.lt_succ _)
            omega
        rw [Zone.dayEnds, Zone.dayStarts, hdate, hdate, hour]
        omega
      rw [← hsame, List.mem_singleton.mp (walk_of_step _ hstep hc)]
    have hsame := (hone (change - 1) hbefore (le_refl _) (by rw [hour]; omega)).symm.trans
      (hone change (hyears change (by omega) hlast).1 (by rw [hour]; omega) (by omega))
    have hplace := place_of_bucketLabel (written_of_inYears hbefore).2
      (written_of_inYears (hyears change (by omega) hlast).1).2 hsame
    rw [place, place, hdate, hdate] at hplace
    omega

end Axis

end AiraGateway.Reporting
