import AiraGateway.Library.Grouping
import AiraGateway.Reporting.Axis

/-!
# A usage series adds up

The rows of a window are grouped by the beginning of a rendered time in the database, on a clock
other than UTC's folded from hours to the clock's buckets, and laid out on an axis that is computed
apart. The bands are the labels of a breakdown, its tail folded into one.

* `utcPoints_spec`, `zonedPoints_spec`: a series' points hold the rows of each bucket and band.
* `addsUp_iff`: on an axis with every bucket a series adds up exactly where its bands are told
  apart: a label may stand for several values of a column, and for the tail.
* `series_addsUp_iff`: so it does in every window, unless a change of the clock skips a midnight
  from before it.
-/

namespace AiraGateway.Reporting

open Sql LocalClock

/-! ### Figures add up -/

attribute [ext] Sums Folded

instance : Add Sums := ⟨Sums.add⟩

instance : Zero Sums := ⟨{}⟩

theorem Sums.add_def (a b : Sums) : a + b = Sums.add a b := rfl

theorem Sums.zero_def : (0 : Sums) = {} := rfl

instance : AddCancelCommMonoid Sums where
  add_assoc a b c := by simp [Sums.add_def, Sums.add, add_assoc]
  zero_add a := by simp [Sums.add_def, Sums.zero_def, Sums.add]
  add_zero a := by simp [Sums.add_def, Sums.zero_def, Sums.add]
  add_comm a b := by simp [Sums.add_def, Sums.add, add_comm]
  nsmul := nsmulRec
  add_left_cancel a b c h := by
    simp only [Sums.add_def, Sums.add, Sums.mk.injEq, add_right_inj] at h
    exact Sums.ext_iff.mpr h

section Rows

variable {rows rows' : List Measured}

theorem summed_eq_sum (column : Measured → Option ℤ) (rows : List Measured) :
    summed column rows = (rows.filterMap column).sum :=
  List.sum_eq_foldl.symm

theorem summed_append (column : Measured → Option ℤ) (rows rows' : List Measured) :
    summed column (rows ++ rows') = summed column rows + summed column rows' := by
  rw [summed_eq_sum, summed_eq_sum, summed_eq_sum, List.filterMap_append, List.sum_append]

theorem sums_append (rows rows' : List Measured) :
    sums (rows ++ rows') = sums rows + sums rows' := by
  simp only [sums, Sums.add_def, Sums.add, List.countP_append, summed_append]

/-- **Figures are the sums** of the rows' own. -/
theorem sums_eq_sum (rows : List Measured) : sums rows = (rows.map fun row => sums [row]).sum := by
  induction rows with
  | nil => rfl
  | cons row rows ih => rw [← List.singleton_append, sums_append, ih, List.map_append,
      List.sum_append, List.map_singleton, List.sum_singleton]

theorem sums_perm (h : rows.Perm rows') : sums rows = sums rows' := by
  rw [sums_eq_sum, sums_eq_sum]
  exact (h.map _).sum_eq

end Rows

/-! ### Hours fold -/

/-- What the hours of one place fold to, from their rows. No latency is shorter than none. -/
def foldedOf (rows : List Measured) : Folded :=
  { sums rows with
    latencySum := summed (·.latencyMs) rows
    latencyCount := (rows.filterMap (·.latencyMs)).length
    longest := (rows.filterMap (·.latencyMs)).max?.map (max 0) }

theorem max?_perm {known known' : List ℤ} (h : known.Perm known') : known.max? = known'.max? := by
  refine Option.ext fun longest => ?_
  rw [List.max?_eq_some_iff, List.max?_eq_some_iff, h.mem_iff]
  simp only [h.mem_iff]

/-- The longest of both is the longer of the two. -/
theorem max?_append {known known' : List ℤ} {longest' : ℤ} (h : known'.max? = some longest') :
    (known ++ known').max? = some (known.max?.elim longest' (max · longest')) := by
  obtain ⟨hmem', hle'⟩ := List.max?_eq_some_iff.mp h
  rw [List.max?_eq_some_iff]
  cases hmax : known.max? with
  | none =>
    rw [List.max?_eq_none_iff.mp hmax, List.nil_append]
    exact ⟨hmem', hle'⟩
  | some longest =>
    obtain ⟨hmem, hle⟩ := List.max?_eq_some_iff.mp hmax
    rw [Option.elim_some]
    refine ⟨?_, fun latency hlatency => ?_⟩
    · rw [List.mem_append]
      obtain hless | hless := le_total longest longest'
      · rw [max_eq_right hless]
        exact Or.inr hmem'
      · rw [max_eq_left hless]
        exact Or.inl hmem
    · obtain hlatency | hlatency := List.mem_append.mp hlatency
      · exact le_max_of_le_left (hle latency hlatency)
      · exact le_max_of_le_right (hle' latency hlatency)

theorem foldedOf_add (rows rows' : List Measured) :
    (foldedOf rows).add rows' = foldedOf (rows ++ rows') := by
  have hsums : (foldedOf rows).toSums.add (sums rows') = sums (rows ++ rows') :=
    (sums_append rows rows').symm
  have hsum := summed_append (·.latencyMs) rows rows'
  rw [Folded.add, hsums, foldedOf, foldedOf, List.filterMap_append, List.length_append, hsum]
  cases hlast : (rows'.filterMap (·.latencyMs)).max? with
  | none =>
    have hnil := List.max?_eq_none_iff.mp hlast
    have hzero : summed (·.latencyMs) rows' = 0 := by
      rw [summed, hnil]
      rfl
    rw [hnil, hzero, List.append_nil]
    rfl
  | some longest' =>
    rw [max?_append hlast]
    cases (rows.filterMap (·.latencyMs)).max? with
    | none => rfl
    | some longest =>
      simp only [Option.map_some, Option.getD_some, Option.elim_some, max_assoc]
      rfl

theorem foldedOf_perm {rows rows' : List Measured} (h : rows.Perm rows') :
    foldedOf rows = foldedOf rows' := by
  have hknown := h.filterMap (·.latencyMs)
  have hsum : summed (·.latencyMs) rows = summed (·.latencyMs) rows' := by
    rw [summed_eq_sum, summed_eq_sum, hknown.sum_eq]
  rw [foldedOf, foldedOf, sums_perm h, hsum, hknown.length_eq, max?_perm hknown]

/-- **Hours fold** to what their rows would be together. -/
theorem foldl_add (hours : List (List Measured)) (rows : List Measured) :
    hours.foldl (fun folded hour => some ((folded.getD {}).add hour)) (some (foldedOf rows))
      = some (foldedOf (rows ++ hours.flatten)) := by
  induction hours generalizing rows with
  | nil => rw [List.foldl_nil, List.flatten_nil, List.append_nil]
  | cons hour hours ih =>
    rw [List.foldl_cons, Option.getD_some, foldedOf_add, ih, List.flatten_cons, List.append_assoc]

/-! ### Groups -/

section Groups

variable {κ : Type} [DecidableEq κ]

theorem groups_keyed (key : Measured → κ) (rows : List Measured) :
    groups (rows.map fun row => (key row, row))
      = (rows.map key).eraseDups.map fun k => (k, rows.filter (key · = k)) := by
  rw [groups, List.map_map]
  refine List.map_congr_left fun k _ => ?_
  rw [List.filter_map, List.map_map]
  exact congrArg (k, ·) (List.map_id _)

theorem mem_keys {key : Measured → κ} {rows : List Measured} {k : κ} :
    k ∈ (rows.map key).eraseDups ↔ ∃ row ∈ rows, key row = k := by
  rw [List.mem_eraseDups, List.mem_map]

/-- Points that hold the rows of distinct places between them, with what the rows add up to. -/
structure Parts (rows : List Measured) (place : Measured → κ) (parts : List (κ × Sums)) : Prop where
  once : (parts.map (·.1)).Nodup
  every : ∀ row ∈ rows, place row ∈ parts.map (·.1)
  inhabited : ∀ part ∈ parts, ∃ row ∈ rows, place row = part.1
  sums : ∀ part ∈ parts, part.2 = sums (rows.filter (place · = part.1))

/-- **The parts of some places** add up to the rows there. -/
theorem Parts.sum {rows : List Measured} {place : Measured → κ} {parts : List (κ × Sums)}
    (h : Parts rows place parts) (q : κ → Bool) :
    ((parts.filter fun part => q part.1).map (·.2)).sum
      = Reporting.sums (rows.filter fun row => q (place row)) := by
  have hmap : (parts.filter fun part => q part.1).map (·.2)
      = ((parts.map (·.1)).filter q).map fun k =>
          ((rows.filter (place · = k)).map fun row => Reporting.sums [row]).sum := by
    rw [List.filter_map, List.map_map]
    refine List.map_congr_left fun part hpart => ?_
    rw [h.sums part (List.mem_of_mem_filter hpart), sums_eq_sum]
    rfl
  rw [hmap, Grouping.sum_groups place _ h.once h.every q, sums_eq_sum]

theorem Parts.perm {rows : List Measured} {place : Measured → κ} {parts parts' : List (κ × Sums)}
    (h : Parts rows place parts) (hperm : parts'.Perm parts) : Parts rows place parts' where
  once := (hperm.map _).nodup_iff.mpr h.once
  every row hrow := (hperm.map _).mem_iff.mpr (h.every row hrow)
  inhabited part hpart := h.inhabited part (hperm.mem_iff.mp hpart)
  sums part hpart := h.sums part (hperm.mem_iff.mp hpart)

/-- Groups are parts. -/
theorem parts_groups (key : Measured → κ) (rows : List Measured) :
    Parts rows key ((groups (rows.map fun row => (key row, row))).map fun group =>
      (group.1, sums group.2)) := by
  rw [groups_keyed, List.map_map]
  refine ⟨?_, fun row hrow => ?_, fun part hpart => ?_, fun part hpart => ?_⟩
  · rw [List.map_map]
    exact (List.map_id _).symm ▸ Grouping.nodup_eraseDups _
  · rw [List.map_map]
    exact List.mem_map.mpr ⟨key row, mem_keys.mpr ⟨row, hrow, rfl⟩, rfl⟩
  · obtain ⟨k, hk, rfl⟩ := List.mem_map.mp hpart
    exact mem_keys.mp hk
  · obtain ⟨k, -, rfl⟩ := List.mem_map.mp hpart
    rfl

/-- The groups that go to one place hold the rows of that place. -/
theorem flatten_perm {σ : Type} [DecidableEq σ] {key : Measured → κ} {place : κ → σ}
    {spot : Measured → σ} {rows : List Measured} (hplace : ∀ row ∈ rows, place (key row) = spot row)
    {parts : List (κ × List Measured)}
    (hperm : parts.Perm (groups (rows.map fun row => (key row, row)))) (at_ : σ) :
    ((parts.filter fun part => place part.1 = at_).map (·.2)).flatten.Perm
      (rows.filter (spot · = at_)) := by
  have hgroups : (((groups (rows.map fun row => (key row, row))).filter
      fun part => place part.1 = at_).map (·.2)).flatten
      = ((rows.map key).eraseDups.filter (place · = at_)).flatMap
          fun k => rows.filter (key · = k) := by
    rw [groups_keyed, List.filter_map, List.map_map, List.flatMap_def]
    rfl
  have hsame : rows.filter (key · ∈ (rows.map key).eraseDups.filter (place · = at_))
      = rows.filter (spot · = at_) := by
    refine List.filter_congr fun row hrow => ?_
    have hmem : key row ∈ (rows.map key).eraseDups := mem_keys.mpr ⟨row, hrow, rfl⟩
    simp only [List.mem_filter, hmem, true_and, decide_eq_true_eq, hplace row hrow]
  refine ((hperm.filter _).map _).flatten.trans ?_
  rw [hgroups, ← hsame]
  exact Grouping.flatMap_filter_perm key rows ((Grouping.nodup_eraseDups _).filter _)

end Groups

/-! ### Points -/

section Points

variable (mean : ℤ → ℕ → ℤ)

def Point.spot (point : Point) : CodePoints × CodePoints := (point.bucket, point.key)

/-- The point of some rows, from what their hours fold to. -/
def foldedPoint (spot : CodePoints × CodePoints) (folded : Folded) : Point :=
  { folded.toSums with
    bucket := spot.1
    key := spot.2
    latency := some
      { average :=
          if folded.latencyCount = 0 then none
          else some (mean folded.latencySum folded.latencyCount)
        longest := folded.longest } }

/-- What a point says of its bucket and band. -/
def partsOf (points : List Point) : List ((CodePoints × CodePoints) × Sums) :=
  points.map fun point => (point.spot, point.toSums)

/-- A latency that is no less than none, where any is known. -/
def Lasting (rows : List Measured) : Prop :=
  ∀ row ∈ rows, ∀ latency ∈ row.latencyMs, ∃ row' ∈ rows, ∃ latency' ∈ row'.latencyMs, 0 ≤ latency'

instance (rows : List Measured) : Decidable (Lasting rows) :=
  inferInstanceAs (Decidable (∀ row ∈ rows, ∀ latency ∈ row.latencyMs,
    ∃ row' ∈ rows, ∃ latency' ∈ row'.latencyMs, 0 ≤ latency'))

variable {mean}

/-- **A folded point has the figures of its rows**, where the longest of them took no less than
none. -/
theorem foldedPoint_eq_iff (spot : CodePoints × CodePoints) (rows : List Measured) :
    (foldedPoint mean spot (foldedOf rows)).toFigures = figures mean spot.2 rows ↔ Lasting rows := by
  have hcount : (rows.filterMap (·.latencyMs)).length = 0
      ↔ (rows.filterMap (·.latencyMs)).isEmpty = true := by
    rw [List.length_eq_zero_iff, List.isEmpty_iff]
  have hfigures : (foldedPoint mean spot (foldedOf rows)).toFigures = figures mean spot.2 rows
      ↔ (rows.filterMap (·.latencyMs)).max?.map (max 0) = (rows.filterMap (·.latencyMs)).max? := by
    simp only [foldedPoint, foldedOf, figures, latency, hcount, summed]
    simp
  rw [hfigures]
  cases hmax : (rows.filterMap (·.latencyMs)).max? with
  | none =>
    have hnil := List.max?_eq_none_iff.mp hmax
    refine iff_of_true rfl fun row hrow latency hlatency => ?_
    have hmem : latency ∈ rows.filterMap (·.latencyMs) :=
      List.mem_filterMap.mpr ⟨row, hrow, hlatency⟩
    rw [hnil] at hmem
    exact absurd hmem List.not_mem_nil
  | some longest =>
    obtain ⟨hmem, hle⟩ := List.max?_eq_some_iff.mp hmax
    obtain ⟨row, hrow, hlatency⟩ := List.mem_filterMap.mp hmem
    rw [Option.map_some, Option.some.injEq, max_eq_right_iff]
    constructor
    · intro hpositive row' _ latency' _
      exact ⟨row, hrow, longest, hlatency, hpositive⟩
    · intro hlasting
      obtain ⟨row', hrow', latency', hlatency', hpositive⟩ := hlasting row hrow longest hlatency
      exact hpositive.trans (hle latency' (List.mem_filterMap.mpr ⟨row', hrow', hlatency'⟩))

end Points

/-! ### What the database's buckets are called -/

section Labels

variable {granularity : Granularity} {moment moment' : ℤ}

/-- How much of a rendered moment names its bucket. -/
def bucketPrefix : Granularity → ℤ → CodePoints
  | .day, moment => dayText (moment / (24 * hour))
  | .hour, moment => stamp moment

theorem take_rendered (rest : CodePoints) :
    (stamp moment ++ rest).take granularity.width = bucketPrefix granularity moment := by
  have hday := length_dayText (moment / (24 * hour))
  have hhour : (hourText (hourOf moment)).length = 2 := length_padded 2 _
  cases granularity with
  | day =>
    rw [stamp, List.append_assoc, List.take_append_of_le_length (by rw [hday]; rfl)]
    exact List.take_of_length_le (by rw [hday]; rfl)
  | hour =>
    have hlength : (stamp moment).length = 13 := by
      rw [stamp, List.length_append, List.length_cons, hday, hhour]
    rw [List.take_append_of_le_length (by rw [hlength]; rfl)]
    exact List.take_of_length_le (by rw [hlength]; rfl)

theorem map_eq_self_of_blankless {text : CodePoints} (h : 32 ∉ text) :
    text.map (fun c => if c = 0x20 then 0x54 else c) = text := by
  refine (List.map_congr_left fun c hc => ?_).trans (List.map_id text)
  exact if_neg (ne_of_mem_of_not_mem hc h)

theorem blank_notMem_hourText (h : ℤ) : 32 ∉ hourText h := by
  intro hmem
  have hdigit := digit_of_mem_padded hmem
  omega

/-- **The database's name of a bucket**, normalised, is its label on the axis. -/
theorem normalise_bucketPrefix :
    normalise (bucketPrefix granularity moment) granularity = label moment granularity := by
  rw [← take_rendered [], normalise, List.take_take, min_self, take_rendered]
  cases granularity with
  | day => exact map_eq_self_of_blankless (blank_notMem_dayText _)
  | hour =>
    rw [bucketPrefix, stamp, List.map_append, List.map_cons,
      map_eq_self_of_blankless (blank_notMem_dayText _),
      map_eq_self_of_blankless (blank_notMem_hourText _)]
    rfl

/-- An hour of UTC begins in the bucket its moments are in. -/
theorem bucketLabel_hourOf {zone : Zone} : bucketLabel zone granularity (hourOf moment * hour)
    = bucketLabel zone granularity moment := by
  have hwhole : hourOf (hourOf moment * hour) = hourOf moment := by
    rw [hourOf, hourOf, hour]
    omega
  refine bucketLabel_congr ?_
  cases granularity with
  | day => rw [place, place, zone.localDate_eq, hwhole, zone.localDate_eq]
  | hour => exact hwhole

theorem bucketPrefix_of_label (h : label moment granularity = label moment' granularity) :
    bucketPrefix granularity moment = bucketPrefix granularity moment' := by
  cases granularity with
  | day => exact h
  | hour =>
    have hlength : (dayText (moment / (24 * hour))).length
        = (dayText (moment' / (24 * hour))).length := by
      rw [length_dayText, length_dayText]
    obtain ⟨hday, hhour⟩ := List.append_inj h hlength
    rw [bucketPrefix, bucketPrefix, stamp, stamp, hday, (List.cons.inj hhour).2]

end Labels

/-! ### The points of a series -/

section SeriesPoints

variable (mean : ℤ → ℕ → ℤ) (rest shown : ℤ → CodePoints) (zone : Zone)
  (granularity : Granularity) (split : Split) (kept : List CodePoints)

/-- A row's bucket and its band. -/
def spot (row : Measured) : CodePoints × CodePoints :=
  (bucketLabel zone granularity row.createdAt, band split kept row)

variable {mean rest shown zone granularity split kept} {rows : List Measured}

/-- A row's bucket as the database names it, and its band. -/
def stored (granularity : Granularity) (split : Split) (kept : List CodePoints) (row : Measured) :
    CodePoints × CodePoints :=
  (bucketPrefix granularity row.createdAt, band split kept row)

theorem bucketed_perm : (bucketed (zoneClock zone rest shown) granularity split kept rows).Perm
    (groups (rows.map fun row => (stored granularity split kept row, row))) := by
  refine (List.perm_insertionSort _ _).trans (List.Perm.of_eq ?_)
  refine congrArg groups (List.map_congr_left fun row _ => ?_)
  rw [zoneClock, take_rendered]
  rfl

theorem mem_bucketed {group : (CodePoints × CodePoints) × List Measured}
    (h : group ∈ bucketed (zoneClock zone rest shown) granularity split kept rows) :
    ∃ row ∈ rows, group.1 = stored granularity split kept row ∧
      group.2 = rows.filter (stored granularity split kept · = group.1) := by
  have hmem := bucketed_perm.mem_iff.mp h
  rw [groups_keyed (stored granularity split kept)] at hmem
  obtain ⟨key, hkey, rfl⟩ := List.mem_map.mp hmem
  obtain ⟨row, hrow, rfl⟩ := mem_keys.mp hkey
  exact ⟨row, hrow, rfl, rfl⟩

theorem parts_bucketed : Parts rows (stored granularity split kept)
    ((bucketed (zoneClock zone rest shown) granularity split kept rows).map fun group =>
      (group.1, sums group.2)) :=
  (parts_groups (stored granularity split kept) rows).perm (bucketed_perm.map _)

/-- **The points on UTC's clock** hold the rows of each bucket and band, with their figures. -/
theorem utcPoints_spec (hutc : zone.utc = true) :
    Parts rows (spot zone granularity split kept)
      (partsOf (seriesPoints mean (zoneClock zone rest shown) granularity split kept rows)) ∧
    ∀ point ∈ seriesPoints mean (zoneClock zone rest shown) granularity split kept rows,
      point.toFigures = figures mean point.key
        (rows.filter (spot zone granularity split kept · = point.spot)) := by
  -- a bucket's two names tell the same buckets apart
  have hsame : ∀ row row', stored granularity split kept row = stored granularity split kept row'
      ↔ spot zone granularity split kept row = spot zone granularity split kept row' := by
    intro row row'
    simp only [stored, spot, bucketLabel, hutc, if_true, Prod.mk.injEq]
    refine and_congr_left fun _ => ⟨fun h => ?_, bucketPrefix_of_label⟩
    rw [← normalise_bucketPrefix, h, normalise_bucketPrefix]
  have hspot : ∀ row, (normalise (stored granularity split kept row).1 granularity,
      (stored granularity split kept row).2) = spot zone granularity split kept row := by
    intro row
    rw [spot, bucketLabel, if_pos hutc, ← normalise_bucketPrefix]
    rfl
  have hpoints : seriesPoints mean (zoneClock zone rest shown) granularity split kept rows
      = (bucketed (zoneClock zone rest shown) granularity split kept rows).map fun group =>
          { figures mean group.1.2 group.2 with bucket := normalise group.1.1 granularity } := by
    exact if_pos hutc
  have hfigures : ∀ point ∈ seriesPoints mean (zoneClock zone rest shown) granularity split kept
      rows, (∃ row ∈ rows, spot zone granularity split kept row = point.spot) ∧
        point.toFigures = figures mean point.key
          (rows.filter (spot zone granularity split kept · = point.spot)) := by
    intro point hpoint
    rw [hpoints] at hpoint
    obtain ⟨group, hgroup, rfl⟩ := List.mem_map.mp hpoint
    obtain ⟨row, hrow, hkey, hrows⟩ := mem_bucketed hgroup
    have hat : spot zone granularity split kept row
        = (normalise group.1.1 granularity, group.1.2) := by
      rw [← hspot, hkey]
    refine ⟨⟨row, hrow, hat⟩, ?_⟩
    have hfilter : rows.filter (stored granularity split kept · = group.1)
        = rows.filter (spot zone granularity split kept · =
            (normalise group.1.1 granularity, group.1.2)) := by
      refine List.filter_congr fun row' _ => ?_
      rw [← hat, hkey, decide_eq_decide]
      exact hsame row' row
    change figures mean group.1.2 group.2 = _
    rw [hrows, hfilter]
    rfl
  refine ⟨⟨?_, fun row hrow => ?_, fun part hpart => ?_, fun part hpart => ?_⟩,
    fun point hpoint => (hfigures point hpoint).2⟩
  · have hkeys := (@parts_bucketed rest shown zone granularity split kept rows).once
    rw [List.map_map] at hkeys
    have hplaces : (partsOf (seriesPoints mean (zoneClock zone rest shown) granularity split kept
        rows)).map (·.1) = ((bucketed (zoneClock zone rest shown) granularity split kept rows).map
          (·.1)).map fun key => (normalise key.1 granularity, key.2) := by
      rw [hpoints, partsOf, List.map_map, List.map_map, List.map_map]
      rfl
    rw [hplaces]
    refine List.Nodup.map_on (fun key hkey key' hkey' heq => ?_) hkeys
    obtain ⟨group, hgroup, rfl⟩ := List.mem_map.mp hkey
    obtain ⟨group', hgroup', rfl⟩ := List.mem_map.mp hkey'
    obtain ⟨row, -, hrow, -⟩ := mem_bucketed hgroup
    obtain ⟨row', -, hrow', -⟩ := mem_bucketed hgroup'
    rw [hrow, hrow', hspot, hspot] at heq
    rw [hrow, hrow', hsame]
    exact heq
  · have hmem := (@parts_bucketed rest shown zone granularity split kept rows).every row hrow
    rw [List.map_map] at hmem
    obtain ⟨group, hgroup, hkey⟩ := List.mem_map.mp hmem
    rw [hpoints, partsOf, List.map_map, List.map_map]
    refine List.mem_map.mpr ⟨group, hgroup, ?_⟩
    have hkey' : group.1 = stored granularity split kept row := hkey
    rw [← hspot, ← hkey']
    rfl
  · obtain ⟨point, hpoint, rfl⟩ := List.mem_map.mp hpart
    exact (hfigures point hpoint).1
  · obtain ⟨point, hpoint, rfl⟩ := List.mem_map.mp hpart
    exact congrArg Figures.toSums (hfigures point hpoint).2

/-- What the hours of one place come to in a fold, if there are any. -/
theorem foldl_hours (hours : List ((CodePoints × CodePoints) × List Measured)) :
    hours.foldl (fun folded hour => some ((folded.getD {}).add hour.2)) none
      = if hours = [] then none else some (foldedOf (hours.map (·.2)).flatten) := by
  cases hours with
  | nil => rfl
  | cons hour hours =>
    have hfirst : (({} : Folded).add hour.2) = foldedOf hour.2 := foldedOf_add [] hour.2
    have hrest := foldl_add (hours.map (·.2)) hour.2
    rw [List.foldl_map] at hrest
    rw [List.foldl_cons, Option.getD_none, hfirst, hrest, if_neg (List.cons_ne_nil _ _),
      List.map_cons, List.flatten_cons]

/-- The place an hour of the database's and its band are folded to. -/
def hourPlace (zone : Zone) (granularity : Granularity) (key : CodePoints × CodePoints) :
    CodePoints × CodePoints :=
  (zonedLabel zone (utcHour key.1 * LocalClock.hour) granularity, key.2)

/-- An hour's place is that of its rows. -/
theorem hourPlace_stored (hutc : zone.utc = false) {row : Measured}
    (hyears : InYears row.createdAt) :
    hourPlace zone granularity (stored .hour split kept row)
      = spot zone granularity split kept row := by
  have hhour : utcHour (stored .hour split kept row).1 = hourOf row.createdAt := by
    have hstamp := utcHour_stamp (@written_of_inYears zone _ hyears).1 []
    rwa [List.append_nil] at hstamp
  rw [hourPlace, hhour, spot, ← bucketLabel_hourOf, bucketLabel, hutc]
  rfl

/-- The hours of a series folded into their places. -/
def foldedHours (zone : Zone) (rest shown : ℤ → CodePoints) (granularity : Granularity)
    (split : Split) (kept : List CodePoints) (rows : List Measured) :
    List ((CodePoints × CodePoints) × Folded) :=
  Grouping.fold (fun hour => hourPlace zone granularity hour.1)
    (fun folded hour => (folded.getD {}).add hour.2) []
    (bucketed (zoneClock zone rest shown) .hour split kept rows)

theorem nodup_foldedHours :
    ((foldedHours zone rest shown granularity split kept rows).map (·.1)).Nodup := by
  rw [foldedHours]
  refine Grouping.nodup_keys_fold _ _ ?_ _
  exact List.nodup_nil

/-- **A place has what its rows fold to**, if there are any. -/
theorem dictGet_foldedHours (hutc : zone.utc = false)
    (hyears : ∀ row ∈ rows, InYears row.createdAt) (at_ : CodePoints × CodePoints) :
    dictGet (foldedHours zone rest shown granularity split kept rows) at_
      = if rows.filter (spot zone granularity split kept · = at_) = [] then none
        else some (foldedOf (rows.filter (spot zone granularity split kept · = at_))) := by
  have hplace : ∀ row ∈ rows, hourPlace zone granularity (stored .hour split kept row)
      = spot zone granularity split kept row :=
    fun row hrow => hourPlace_stored hutc (hyears row hrow)
  have hperm := flatten_perm hplace
    (@bucketed_perm rest shown zone .hour split kept rows) at_
  rw [foldedHours, Grouping.dictGet_fold]
  refine (foldl_hours _).trans ?_
  by_cases hhours : (bucketed (zoneClock zone rest shown) .hour split kept rows).filter
      (fun hour => hourPlace zone granularity hour.1 = at_) = []
  · rw [hhours] at hperm ⊢
    rw [if_pos rfl, if_pos (List.nil_perm.mp hperm)]
  · have hrows : rows.filter (spot zone granularity split kept · = at_) ≠ [] := by
      obtain ⟨hour, hhour⟩ := List.exists_mem_of_ne_nil _ hhours
      obtain ⟨hmem, hat⟩ := List.mem_filter.mp hhour
      obtain ⟨row, hrow, hkey, -⟩ := mem_bucketed hmem
      have hspot : spot zone granularity split kept row = at_ := by
        rw [← hplace row hrow, ← hkey]
        exact of_decide_eq_true hat
      exact List.ne_nil_of_mem (List.mem_filter.mpr ⟨hrow, decide_eq_true hspot⟩)
    rw [if_neg hhours, if_neg hrows, foldedOf_perm hperm]

/-- **The points on another clock** hold the rows of each bucket and band; a point has their figures
where the longest of them took no less than none. -/
theorem zonedPoints_spec (hutc : zone.utc = false) (hyears : ∀ row ∈ rows, InYears row.createdAt) :
    Parts rows (spot zone granularity split kept)
      (partsOf (seriesPoints mean (zoneClock zone rest shown) granularity split kept rows)) ∧
    ∀ point ∈ seriesPoints mean (zoneClock zone rest shown) granularity split kept rows,
      (point.toFigures = figures mean point.key
        (rows.filter (spot zone granularity split kept · = point.spot)) ↔
          Lasting (rows.filter (spot zone granularity split kept · = point.spot))) := by
  have hzoned : (zoneClock zone rest shown).utc = false := hutc
  have hpoints : seriesPoints mean (zoneClock zone rest shown) granularity split kept rows
      = (foldedHours zone rest shown granularity split kept rows).map fun entry =>
          foldedPoint mean entry.1 entry.2 := by
    rw [seriesPoints, hzoned, if_neg Bool.false_ne_true]
    rfl
  have hspots : (partsOf (seriesPoints mean (zoneClock zone rest shown) granularity split kept
      rows)).map (·.1) = (foldedHours zone rest shown granularity split kept rows).map (·.1) := by
    rw [hpoints, partsOf, List.map_map, List.map_map]
    rfl
  have hentry : ∀ entry ∈ foldedHours zone rest shown granularity split kept rows,
      (∃ row ∈ rows, spot zone granularity split kept row = entry.1) ∧
        entry.2 = foldedOf (rows.filter (spot zone granularity split kept · = entry.1)) := by
    intro entry hentry
    have hget := (dictGet_eq_some_iff nodup_foldedHours).mpr hentry
    rw [dictGet_foldedHours hutc hyears] at hget
    split at hget
    · cases hget
    · next hrows =>
      obtain ⟨row, hrow⟩ := List.exists_mem_of_ne_nil _ hrows
      obtain ⟨hmem, hat⟩ := List.mem_filter.mp hrow
      exact ⟨⟨row, hmem, of_decide_eq_true hat⟩, (Option.some.inj hget).symm⟩
  refine ⟨⟨?_, fun row hrow => ?_, fun part hpart => ?_, fun part hpart => ?_⟩,
    fun point hpoint => ?_⟩
  · rw [hspots]
    exact nodup_foldedHours
  · have hthere := @dictGet_foldedHours rest shown zone granularity split kept rows hutc hyears
      (spot zone granularity split kept row)
    rw [if_neg (List.ne_nil_of_mem (List.mem_filter.mpr ⟨hrow, decide_eq_true rfl⟩))] at hthere
    rw [hspots]
    exact List.mem_map.mpr ⟨_, dictGet_mem hthere, rfl⟩
  · rw [partsOf, hpoints, List.map_map] at hpart
    obtain ⟨entry, hmem, rfl⟩ := List.mem_map.mp hpart
    exact (hentry entry hmem).1
  · rw [partsOf, hpoints, List.map_map] at hpart
    obtain ⟨entry, hmem, rfl⟩ := List.mem_map.mp hpart
    exact congrArg Folded.toSums (hentry entry hmem).2
  · rw [hpoints] at hpoint
    obtain ⟨entry, hmem, rfl⟩ := List.mem_map.mp hpoint
    rw [(hentry entry hmem).2]
    exact foldedPoint_eq_iff entry.1 _

end SeriesPoints

/-! ### Bands -/

/-- `[:top]`: how many of a length. -/
def sliceLength (top : ℤ) (length : ℕ) : ℕ := if top < 0 then (length + top).toNat else top.toNat

section Series

variable (mean : ℤ → ℕ → ℤ) (clock : Clock) (top : ℤ) (split : Split) (rows : List Measured)

/-- The breakdown a series is ranked by. -/
def ranked : List Figures := grouped mean (rows.map fun row => (split.column row, row))

/-- The breakdown's rows as a series ranks them. -/
def order : List Figures := (ranked mean split rows).insertionSort busier

/-- The rows of the breakdown that keep a band of their own, -/
def keptRows : List Figures :=
  (order mean split rows).take (sliceLength top (order mean split rows).length)

/-- and those that do not. -/
def droppedRows : List Figures :=
  (order mean split rows).drop (sliceLength top (order mean split rows).length)

def keptKeys : List CodePoints := (keptRows mean top split rows).map (·.key)

/-- The series of a window with at most so many bands of their own. -/
def seriesUpTo (start stop : ℤ) (granularity : Granularity) : Series :=
  let kept := keptKeys mean top split rows
  let folded := decide (top < (order mean split rows).length)
  let points := seriesPoints mean clock granularity split kept rows
  let axis := clock.axis start stop granularity
  let beside := ((points.map (·.bucket)).eraseDups.filter (!axis.contains ·)).insertionSort (· ≤ ·)
  { granularity := granularity
    split := split
    timeZone := clock.name
    buckets := axis ++ beside
    keys := if folded then kept ++ [otherLabel] else kept
    folded := folded
    points := points }

variable {mean clock top split rows}

theorem order_perm : (order mean split rows).Perm
    ((groups (rows.map fun row => (split.column row, row))).map fun group =>
      figures mean (groupLabel group.1) group.2) :=
  (List.perm_insertionSort _ _).trans (List.perm_insertionSort _ _)

/-- **The rows of the breakdown** under a label add up to the rows of the log under it. -/
theorem sum_order (key : CodePoints) :
    (((order mean split rows).filter (·.key = key)).map (·.toSums)).sum
      = sums (rows.filter fun row => groupLabel (split.column row) = key) := by
  have hparts := (parts_groups split.column rows).sum fun value => groupLabel value = key
  rw [← hparts]
  refine (((order_perm.filter _).map _).sum_eq).trans (congrArg List.sum ?_)
  rw [List.filter_map, List.map_map, List.filter_map, List.map_map]
  rfl

theorem mem_order {row : Measured} (hrow : row ∈ rows) :
    ∃ figures ∈ order mean split rows, figures.key = groupLabel (split.column row) := by
  have hmem := (parts_groups split.column rows).every row hrow
  rw [List.map_map] at hmem
  obtain ⟨group, hgroup, hkey⟩ := List.mem_map.mp hmem
  refine ⟨figures mean (groupLabel group.1) group.2, ?_, congrArg groupLabel hkey⟩
  exact order_perm.mem_iff.mpr (List.mem_map.mpr ⟨group, hgroup, rfl⟩)

theorem order_eq : order mean split rows
    = keptRows mean top split rows ++ droppedRows mean top split rows :=
  (List.take_append_drop _ _).symm

/-- Where a row of the breakdown is not kept, the tail is folded. -/
theorem folded_of_dropped {figures : Figures} (h : figures ∈ droppedRows mean top split rows) :
    top < (order mean split rows).length := by
  have hlength := List.length_pos_of_mem h
  rw [droppedRows, List.length_drop, sliceLength] at hlength
  split at hlength
  · omega
  · omega

/-- **The rows of a band** that is kept are the rows under its label, unless that is the label of
the tail. -/
theorem band_eq_iff (htail : top < (order mean split rows).length →
      otherLabel ∉ keptKeys mean top split rows)
    {key : CodePoints} (hkey : key ∈ keptKeys mean top split rows) {row : Measured}
    (hrow : row ∈ rows) :
    band split (keptKeys mean top split rows) row = key ↔ groupLabel (split.column row) = key := by
  have hkept : keptKeys mean top split rows ≠ [] := List.ne_nil_of_mem hkey
  rw [band, if_neg hkept]
  split
  · exact Iff.rfl
  · next hnamed =>
    have hnot : groupLabel (split.column row) ∉ keptKeys mean top split rows := by
      simpa using hnamed
    obtain ⟨figures, hfigures, hlabel⟩ := @mem_order mean split rows row hrow
    rw [@order_eq mean top split rows, List.mem_append] at hfigures
    have hdropped : figures ∈ droppedRows mean top split rows := by
      obtain hkeptRow | hdropped := hfigures
      · exact absurd (List.mem_map.mpr ⟨figures, hkeptRow, hlabel⟩) hnot
      · exact hdropped
    have hother := htail (folded_of_dropped hdropped)
    constructor
    · intro heq
      rw [heq] at hother
      exact absurd hkey hother
    · intro heq
      rw [heq] at hnot
      exact absurd hkey hnot

/-- Of values with distinct keys, those with one's key are that one. -/
theorem filter_key {values : List Figures} (hnodup : (values.map (·.key)).Nodup) {value : Figures}
    (hvalue : value ∈ values) : values.filter (·.key = value.key) = [value] := by
  induction values with
  | nil => exact absurd hvalue List.not_mem_nil
  | cons first values ih =>
    obtain ⟨hnew, hrest⟩ := List.nodup_cons.mp hnodup
    obtain rfl | hvalue := List.mem_cons.mp hvalue
    · have hothers : values.filter (·.key = value.key) = [] := by
        refine List.filter_eq_nil_iff.mpr fun other hother hsame => ?_
        exact hnew (List.mem_map.mpr ⟨other, hother, of_decide_eq_true hsame⟩)
      rw [List.filter_cons_of_pos (by simp), hothers]
    · have hne : first.key ≠ value.key := fun hsame =>
        hnew (List.mem_map.mpr ⟨value, hvalue, hsame.symm⟩)
      rw [List.filter_cons_of_neg (by simpa using hne), ih hrest hvalue]

/-- **The rows of a band that is kept** add up to its row of the breakdown, and what is under its
label in the tail. -/
theorem sums_kept (htail : top < (order mean split rows).length →
      otherLabel ∉ keptKeys mean top split rows)
    (hlabels : (keptKeys mean top split rows).Nodup) {figures : Figures}
    (hfigures : figures ∈ keptRows mean top split rows) :
    sums (rows.filter fun row => band split (keptKeys mean top split rows) row = figures.key)
      = figures.toSums + (((droppedRows mean top split rows).filter (·.key = figures.key)).map
          (·.toSums)).sum := by
  have hkey : figures.key ∈ keptKeys mean top split rows := List.mem_map_of_mem hfigures
  have hband : rows.filter (fun row => band split (keptKeys mean top split rows) row = figures.key)
      = rows.filter fun row => groupLabel (split.column row) = figures.key := by
    refine List.filter_congr fun row hrow => ?_
    rw [decide_eq_decide]
    exact band_eq_iff htail hkey hrow
  rw [hband, ← @sum_order mean, @order_eq mean top, List.filter_append, List.map_append,
    List.sum_append, filter_key hlabels hfigures, List.map_singleton, List.sum_singleton]

end Series

/-! ### The series adds up -/

/-- The rows a report is about, as its queries read them. -/
def windowRows (log : List RequestLog) (scope : Scope) (start stop : ℤ)
    (person : Option CodePoints) : List Measured :=
  (select (inWindow scope start stop person) log).map measured

theorem mem_window {log : List RequestLog} {scope : Scope} {start stop : ℤ}
    {person : Option CodePoints} {row : Measured}
    (hrow : row ∈ windowRows log scope start stop person) :
    start ≤ row.createdAt ∧ row.createdAt < stop := by
  obtain ⟨logged, hlogged, rfl⟩ := List.mem_map.mp hrow
  have hselected := (List.mem_filter.mp hlogged).2
  have hfirst := List.all_eq_true.mp hselected
    (fun row => some (decide (start ≤ row.createdAt) && decide (row.createdAt < stop)))
    (by rw [inWindow.eq_def, List.append_assoc]; exact List.mem_cons_self)
  have htrue := of_decide_eq_true hfirst
  have hboth := Option.some.inj htrue
  rw [Bool.and_eq_true, decide_eq_true_iff, decide_eq_true_iff] at hboth
  exact hboth

/-- The breakdown of a report that its series is split by. -/
def Report.splitBy (report : Report) : Split → List Figures
  | .model => report.byModel
  | .useCase => report.byUseCase
  | .outcome => report.byOutcome

section AddsUp

variable (mean : ℤ → ℕ → ℤ) (zone : Zone) (start stop : ℤ) (granularity : Granularity)
  (split : Split) (top : ℤ) (rows : List Measured)

/-- A series adds up, bucket by bucket and band by band: each point has the figures of the rows of
its bucket and band, and every row is in one; its buckets are the axis, which has every bucket of
the window once and in order; a kept band's points add up to its row of the breakdown; the bands are
distinct; and all points add up to the totals. -/
structure AddsUp (report : Report) (series : Series) : Prop where
  parts : Parts rows (spot zone granularity split (keptKeys mean top split rows))
    (partsOf series.points)
  figures : ∀ point ∈ series.points, point.toFigures = figures mean point.key
    (rows.filter (spot zone granularity split (keptKeys mean top split rows) · = point.spot))
  buckets : series.buckets = axis zone start stop granularity
  covers : Covers zone start stop granularity series.buckets
  onAxis : ∀ point ∈ series.points, point.bucket ∈ series.buckets
  keys : series.keys.Nodup
  kept : ∀ figures ∈ keptRows mean top split rows, figures ∈ report.splitBy split ∧
    ((series.points.filter (·.key = figures.key)).map (·.toSums)).sum = figures.toSums
  total : (series.points.map (·.toSums)).sum = report.totals.toSums

/-- What tells the bands of a window's rows apart: the labels of those that are kept are distinct,
none is the tail's where there is one, and nothing under such a label is left for the tail. On
another clock than UTC's, what took a known time in a bucket and band did not all take less than
none. -/
structure ToldApart : Prop where
  labels : (keptKeys mean top split rows).Nodup
  tail : top < (order mean split rows).length → otherLabel ∉ keptKeys mean top split rows
  whole : ∀ figures ∈ keptRows mean top split rows,
    (((droppedRows mean top split rows).filter (·.key = figures.key)).map (·.toSums)).sum = 0
  lasting : zone.utc = false → ∀ row ∈ rows, Lasting (rows.filter
    (spot zone granularity split (keptKeys mean top split rows) · =
      spot zone granularity split (keptKeys mean top split rows) row))

end AddsUp

section AddsUp

variable {mean : ℤ → ℕ → ℤ} {rest shown : ℤ → CodePoints} {zone : Zone} {start stop : ℤ}
  {granularity : Granularity} {split : Split} {top : ℤ} {rows : List Measured}

/-- The points of a series on either clock. -/
theorem points_spec {kept : List CodePoints} (hyears : ∀ row ∈ rows, InYears row.createdAt) :
    Parts rows (spot zone granularity split kept)
      (partsOf (seriesPoints mean (zoneClock zone rest shown) granularity split kept rows)) ∧
    ∀ point ∈ seriesPoints mean (zoneClock zone rest shown) granularity split kept rows,
      (point.toFigures = figures mean point.key
        (rows.filter (spot zone granularity split kept · = point.spot)) ↔ (zone.utc = false →
          Lasting (rows.filter (spot zone granularity split kept · = point.spot)))) := by
  cases hutc : zone.utc with
  | true =>
    obtain ⟨hparts, hfigures⟩ :=
      @utcPoints_spec mean rest shown zone granularity split kept rows hutc
    refine ⟨hparts, fun point hpoint => iff_of_true (hfigures point hpoint) ?_⟩
    exact fun hfalse => Bool.noConfusion hfalse
  | false =>
    obtain ⟨hparts, hfigures⟩ :=
      @zonedPoints_spec mean rest shown zone granularity split kept rows hutc hyears
    refine ⟨hparts, fun point hpoint => (hfigures point hpoint).trans ?_⟩
    exact ⟨fun hlasting _ => hlasting, fun hlasting => hlasting rfl⟩

/-- The points of a series in some places add up to the rows there. -/
theorem sum_points {points : List Point} {place : Measured → CodePoints × CodePoints}
    (hparts : Parts rows place (partsOf points)) (q : CodePoints × CodePoints → Bool) :
    ((points.filter fun point => q point.spot).map (·.toSums)).sum
      = sums (rows.filter fun row => q (place row)) := by
  rw [← hparts.sum q, partsOf, List.filter_map, List.map_map]
  rfl

/-- **A series adds up exactly where its bands are told apart**, on an axis with every bucket. -/
theorem addsUp_iff {report : Report}
    (hcovers : Covers zone start stop granularity (axis zone start stop granularity))
    (hwindow : ∀ row ∈ rows, start ≤ row.createdAt ∧ row.createdAt < stop)
    (hyears : ∀ row ∈ rows, InYears row.createdAt)
    (hranked : report.splitBy split = ranked mean split rows)
    (htotal : report.totals.toSums = sums rows) :
    AddsUp mean zone start stop granularity split top rows report
      (seriesUpTo mean (zoneClock zone rest shown) top split rows start stop granularity) ↔
    ToldApart mean zone granularity split top rows := by
  obtain ⟨hparts, hfigures⟩ := @points_spec mean rest shown zone granularity split rows
    (keptKeys mean top split rows) hyears
  -- what is on the axis, and what the points of a band add up to
  have hon : ∀ point ∈ (seriesUpTo mean (zoneClock zone rest shown) top split rows start stop
      granularity).points, point.bucket ∈ axis zone start stop granularity := by
    intro point hpoint
    obtain ⟨row, hrow, hspot⟩ := hparts.inhabited _ (List.mem_map.mpr ⟨point, hpoint, rfl⟩)
    obtain ⟨hfrom, hto⟩ := hwindow row hrow
    rw [← (Prod.mk.inj hspot).1]
    exact hcovers.every row.createdAt hfrom hto
  have hbuckets : (seriesUpTo mean (zoneClock zone rest shown) top split rows start stop
      granularity).buckets = axis zone start stop granularity := by
    have hbeside : (((seriesUpTo mean (zoneClock zone rest shown) top split rows start stop
        granularity).points.map (·.bucket)).eraseDups.filter
          (!(axis zone start stop granularity).contains ·)) = [] := by
      refine List.filter_eq_nil_iff.mpr fun bucket hbucket => ?_
      obtain ⟨point, hpoint, rfl⟩ := List.mem_map.mp (List.mem_eraseDups.mp hbucket)
      simpa using hon point hpoint
    refine (congrArg (axis zone start stop granularity ++ ·)
      (congrArg (List.insertionSort (· ≤ ·)) hbeside)).trans ?_
    exact List.append_nil _
  have hkeys : (seriesUpTo mean (zoneClock zone rest shown) top split rows start stop
      granularity).keys.Nodup ↔ (keptKeys mean top split rows).Nodup ∧
        (top < (order mean split rows).length → otherLabel ∉ keptKeys mean top split rows) := by
    rw [seriesUpTo]
    by_cases hfolded : top < (order mean split rows).length
    · simp only [hfolded, decide_true, if_true, forall_const]
      rw [List.nodup_append_comm, List.singleton_append, List.nodup_cons, and_comm]
    · simp [hfolded]
  have hsum : ∀ key, (((seriesUpTo mean (zoneClock zone rest shown) top split rows start stop
      granularity).points.filter (·.key = key)).map (·.toSums)).sum
        = sums (rows.filter fun row => band split (keptKeys mean top split rows) row = key) :=
    fun key => sum_points hparts fun spot => spot.2 = key
  have hkept : ∀ key ∈ keptRows mean top split rows, key ∈ report.splitBy split := by
    intro figures hfigures
    rw [hranked]
    exact (List.perm_insertionSort _ _).mem_iff.mp (List.mem_of_mem_take hfigures)
  constructor
  · intro h
    obtain ⟨hlabels, htail⟩ := hkeys.mp h.keys
    refine ⟨hlabels, htail, fun figures hmem => ?_, fun hutc row hrow => ?_⟩
    · have hrow := (h.kept figures hmem).2
      rw [hsum, sums_kept htail hlabels hmem] at hrow
      exact add_eq_left.mp hrow
    · obtain ⟨part, hpart, hspot⟩ := List.mem_map.mp (hparts.every row hrow)
      obtain ⟨point, hpoint, rfl⟩ := List.mem_map.mp hpart
      rw [← hspot]
      exact (hfigures point hpoint).mp (h.figures point hpoint) hutc
  · intro h
    refine ⟨hparts, fun point hpoint => (hfigures point hpoint).mpr fun hutc => ?_, hbuckets,
      hbuckets ▸ hcovers, hbuckets ▸ hon, hkeys.mpr ⟨h.labels, h.tail⟩,
      fun figures hmem => ⟨hkept figures hmem, ?_⟩, ?_⟩
    · obtain ⟨row, hrow, hspot⟩ := hparts.inhabited _ (List.mem_map.mpr ⟨point, hpoint, rfl⟩)
      have hspot' : spot zone granularity split (keptKeys mean top split rows) row = point.spot :=
        hspot
      rw [← hspot']
      exact h.lasting hutc row hrow
    · rw [hsum, sums_kept h.tail h.labels hmem, h.whole figures hmem, add_zero]
    · have hall := sum_points hparts fun _ => true
      rw [List.filter_true, List.filter_true] at hall
      rw [htotal]
      exact hall

/-- **The usage series adds up** in every window, bucket by bucket and band by band, exactly where
its bands are told apart: on a clock on which a change that skips a midnight skips from it, or in a
series of hours. On another clock some window's axis lacks a day. -/
theorem series_addsUp_iff (mean : ℤ → ℕ → ℤ) (rest shown : ℤ → CodePoints) (zone : Zone)
    (log : List RequestLog) (scope : Scope) (person limited : Option CodePoints)
    (granularity : Granularity) (split : Split) (top : ℤ) :
    ((granularity = .day → zone.SkipsFromMidnight) → ∀ start stop, InYears start → InYears stop →
      (AddsUp mean zone start stop granularity split top (windowRows log scope start stop person)
        (report mean (zoneClock zone rest shown) log scope start stop (some granularity) split
          person limited)
        (seriesUpTo mean (zoneClock zone rest shown) top split
          (windowRows log scope start stop person) start stop granularity) ↔
      ToldApart mean zone granularity split top (windowRows log scope start stop person))) ∧
    (granularity = .day → ¬zone.SkipsFromMidnight → ∃ start stop, InYears start ∧ InYears stop ∧
      ¬AddsUp mean zone start stop granularity split top (windowRows log scope start stop person)
        (report mean (zoneClock zone rest shown) log scope start stop (some granularity) split
          person limited)
        (seriesUpTo mean (zoneClock zone rest shown) top split
          (windowRows log scope start stop person) start stop granularity)) := by
  refine ⟨fun hskips start stop hstart hstop => ?_, fun hday hskips => ?_⟩
  · have hwindow : ∀ row ∈ windowRows log scope start stop person,
        start ≤ row.createdAt ∧ row.createdAt < stop := fun row hrow => mem_window hrow
    have hranked : (report mean (zoneClock zone rest shown) log scope start stop (some granularity)
        split person limited).splitBy split
          = ranked mean split (windowRows log scope start stop person) := by
      cases split with
      | model => rfl
      | useCase => rfl
      | outcome => rfl
    refine addsUp_iff (axis_spec hskips hstart hstop) hwindow (fun row hrow => ?_) hranked rfl
    obtain ⟨hfrom, hto⟩ := hwindow row hrow
    exact ⟨hstart.1.trans hfrom, hto.le.trans hstop.2⟩
  · obtain ⟨start, stop, hstart, hstop, hmissing⟩ := exists_missing_bucket hskips
    refine ⟨start, stop, hstart, hstop, fun h => hmissing ?_⟩
    have hcovers := h.covers
    rw [h.buckets, hday] at hcovers
    exact hcovers

/-- A clock an hour ahead of UTC's, and more hours from one on. -/
def springs (hours : ℤ) (h : 1 ≤ hours ∧ hours < 24) (change : ℤ)
    (hchange : firstHour < change ∧ change < lastHour) : Zone where
  name := "Somewhere"
  utc := false
  offset := fun h => if h < change then 1 else hours
  offset_utc := fun hutc => Bool.noConfusion hutc
  bounded := fun h => by split <;> omega
  forward := fun h => by split <;> split <;> omega
  changes := fun h hne => by
    split at hne
    · split at hne
      · exact absurd rfl hne
      · have hat : h = change := by omega
        rwa [hat]
    · split at hne
      · omega
      · exact absurd rfl hne

/-- The clock of a place with summer time, from two in the morning. -/
def summerTime : Zone := springs 2 (by decide) 466609 (by decide)

/-- A clock that goes from eleven in the evening to one in the morning. -/
def lateMidnight : Zone := springs 3 (by decide) 466630 (by decide)

theorem skipsFromMidnight_summerTime : summerTime.SkipsFromMidnight := by
  intro h day hbefore hafter
  simp only [Zone.wall, summerTime, springs] at *
  split at hbefore <;> split at hafter <;> omega

theorem not_skipsFromMidnight_lateMidnight : ¬lateMidnight.SkipsFromMidnight := by
  intro hskips
  exact absurd (hskips 466630 19443 (by decide) (by decide)) (by decide)

/-- Two requests on the night of the change, and one the night after. -/
def requests : List RequestLog := [
  { id := "1", createdAt := 466608 * hour + 1, useCase := some "search", latencyMs := some 40 },
  { id := "2", createdAt := 466609 * hour, useCase := some "search", costNanos := some 7 },
  { id := "3", createdAt := 466630 * hour, useCase := some "chat", latencyMs := some 55 }]

theorem series_addsUp_requests :
    AddsUp (fun _ _ => 0) summerTime (466600 * hour) (466640 * hour) .day .useCase 1
      (windowRows requests none (466600 * hour) (466640 * hour) none)
      (report (fun _ _ => 0) (zoneClock summerTime (fun _ => []) fun _ => []) requests none
        (466600 * hour) (466640 * hour) (some .day) .useCase none none)
      (seriesUpTo (fun _ _ => 0) (zoneClock summerTime (fun _ => []) fun _ => []) 1 .useCase
        (windowRows requests none (466600 * hour) (466640 * hour) none) (466600 * hour)
        (466640 * hour) .day) ∧
    ∃ start stop, InYears start ∧ InYears stop ∧
      ¬AddsUp (fun _ _ => 0) lateMidnight start stop .day .useCase 1
        (windowRows requests none start stop none)
        (report (fun _ _ => 0) (zoneClock lateMidnight (fun _ => []) fun _ => []) requests none
          start stop (some .day) .useCase none none)
        (seriesUpTo (fun _ _ => 0) (zoneClock lateMidnight (fun _ => []) fun _ => []) 1 .useCase
          (windowRows requests none start stop none) start stop .day) := by
  constructor
  · refine ((series_addsUp_iff _ _ _ _ _ _ _ _ _ _ _).1 (fun _ => skipsFromMidnight_summerTime)
      _ _ (by decide) (by decide)).mpr ⟨by decide +kernel, by decide +kernel, ?_, ?_⟩
    · have hnone : ∀ figures ∈ keptRows (fun _ _ => 0) 1 .useCase
          (windowRows requests none (466600 * hour) (466640 * hour) none),
            ((droppedRows (fun _ _ => 0) 1 .useCase
              (windowRows requests none (466600 * hour) (466640 * hour) none)).filter
                (·.key = figures.key)).isEmpty = true := by decide +kernel
      intro figures hmem
      rw [List.isEmpty_iff.mp (hnone figures hmem)]
      rfl
    · intro _
      decide +kernel
  · exact (series_addsUp_iff _ _ _ _ _ _ _ _ _ _ _).2 rfl not_skipsFromMidnight_lateMidnight

/-- What a request without a use case and one with an empty one have in common is their label. -/
def unnamed : List RequestLog := [
  { id := "1", createdAt := 0, useCase := none, costNanos := some 7 },
  { id := "2", createdAt := 1, useCase := some [], costNanos := some 5 }]

theorem series_repeats_none :
    ¬AddsUp (fun _ _ => 0) summerTime 0 hour .day .useCase defaultTop
      (windowRows unnamed none 0 hour none)
      (report (fun _ _ => 0) (zoneClock summerTime (fun _ => []) fun _ => []) unnamed none 0 hour
        (some .day) .useCase none none)
      (seriesUpTo (fun _ _ => 0) (zoneClock summerTime (fun _ => []) fun _ => []) defaultTop
        .useCase (windowRows unnamed none 0 hour none) 0 hour .day) := by
  intro h
  exact absurd h.keys (by decide +kernel)

end AddsUp

end AiraGateway.Reporting
