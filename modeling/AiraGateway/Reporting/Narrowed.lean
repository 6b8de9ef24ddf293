import AiraGateway.Reporting.Series
import AiraGateway.Reporting.StrictData

/-!
# A report of one person

A report can be narrowed to a person, which is meant to narrow all of it, and its two splits keyed
on a human can be limited to one, which narrows these alone. One query takes the limit where it
should take the person.

* `report_person_eq`: what a report narrowed to a person says is what the report of that person's
  rows says, the split by member apart, which stays everybody's.
* `sum_grouped`: a breakdown adds up to its rows. The split by person is kept by its labels, so of
  the people who have no name of their own only the cheapest group is left (`sum_personFigures`).
* `report_limited_congr`: under a limit nobody else's name matters.
* **A report narrowed to a person is a report of that person's rows exactly where** other people's
  rows in the window add nothing to the members, and no two groups without a name both add up to
  something (`personReport_iff`).
-/

namespace AiraGateway.Reporting

open Sql

/-! ### The window -/

theorem selects_requestPersonIs_iff {person : CodePoints} (hperson : person ≠ [])
    {row : RequestLog} :
    Selects (requestPersonIs person row) ↔ requestPerson row = some person := by
  rw [selects_requestPersonIs, requestPerson]
  match row.username with
  | none => simp [Access.person]
  | some [] => simp [Access.person, hperson.symm]
  | some (c :: cs) => simp [Access.person]

/-- The rows a person's request is. -/
def rowsOf (person : CodePoints) (rows : List RequestLog) : List RequestLog :=
  rows.filter fun row => requestPerson row = some person

theorem mem_rowsOf {person : CodePoints} {rows : List RequestLog} {row : RequestLog} :
    row ∈ rowsOf person rows ↔ row ∈ rows ∧ requestPerson row = some person := by
  rw [rowsOf, List.mem_filter, decide_eq_true_eq]

/-- **One predicate on the one window**: a person's window is the window of the person's rows. -/
theorem window_person {person : CodePoints} (hperson : person ≠ []) (scope : Scope)
    (start stop : ℤ) (rows : List RequestLog) :
    select (inWindow scope start stop (some person)) rows =
      select (inWindow scope start stop none) (rowsOf person rows) := by
  have hnamed : (some person).filter (· ≠ []) = some person := by
    simp [Option.filter, hperson]
  rw [rowsOf, select, select, List.filter_filter]
  refine List.filter_congr fun row _ => ?_
  rw [Bool.eq_iff_iff]
  simp only [inWindow, hnamed, Option.filter_none, Option.toList_some, Option.toList_none,
    List.map_cons, List.map_nil, List.append_nil, List.all_append, List.all_cons, List.all_nil,
    Bool.and_eq_true, decide_eq_true_eq, selects_requestPersonIs_iff hperson, and_true]
  tauto

/-- The window of a person's rows is what it has of the person. -/
theorem window_rowsOf (person : CodePoints) (scope : Scope) (start stop : ℤ)
    (limited : Option CodePoints) (rows : List RequestLog) :
    select (inWindow scope start stop limited) (rowsOf person rows) =
      rowsOf person (select (inWindow scope start stop limited) rows) := by
  rw [rowsOf, rowsOf, select, select, List.filter_comm]


/-! ### Breakdowns -/

section Breakdowns

variable {κ : Type} [DecidableEq κ]

/-- The rows of a key. -/
def under (rows : List (κ × Measured)) (key : κ) : List Measured :=
  (rows.filter fun row => decide (row.1 = key)).map (·.2)

/-- The rows of one key cost no less than those of another. -/
def noCheaper (rows : List (κ × Measured)) (k k' : κ) : Prop :=
  (sums (under rows k')).costNanos ≤ (sums (under rows k)).costNanos

instance (rows : List (κ × Measured)) : DecidableRel (noCheaper rows) := fun _ _ =>
  inferInstanceAs (Decidable (_ ≤ _))

/-- The keys of rows, in the order they are seen. -/
def keysSeen (rows : List (κ × Measured)) : List κ := (rows.map (·.1)).eraseDups

/-- The keys of rows, the dearest first and of equally dear ones that seen first. -/
def keysByCost (rows : List (κ × Measured)) : List κ :=
  (keysSeen rows).insertionSort (noCheaper rows)

theorem mem_keysSeen {rows : List (κ × Measured)} {key : κ} :
    key ∈ keysSeen rows ↔ key ∈ rows.map (·.1) := List.mem_eraseDups

theorem groups_eq_map (rows : List (κ × Measured)) :
    groups rows = (keysSeen rows).map fun key => (key, under rows key) := rfl

theorem keysByCost_perm (rows : List (κ × Measured)) : (keysByCost rows).Perm (keysSeen rows) :=
  List.perm_insertionSort _ _

theorem nodup_keysByCost (rows : List (κ × Measured)) : (keysByCost rows).Nodup :=
  (keysByCost_perm rows).nodup_iff.mpr (Grouping.nodup_eraseDups _)

theorem mem_keysByCost {rows : List (κ × Measured)} {row : κ × Measured} (hrow : row ∈ rows) :
    row.1 ∈ keysByCost rows := by
  rw [(keysByCost_perm rows).mem_iff, mem_keysSeen]
  exact List.mem_map_of_mem hrow

/-- What the keys of rows add up to is what the rows do. -/
theorem sum_under (rows : List (κ × Measured)) :
    ((keysByCost rows).map fun key => sums (under rows key)).sum = sums (rows.map (·.2)) := by
  have hgroups := Grouping.sum_groups (fun row : κ × Measured => row.1)
    (fun row => sums [row.2]) (nodup_keysByCost rows) (fun _ => mem_keysByCost) fun _ => true
  simp only [List.filter_true] at hgroups
  have hrows : ∀ part : List (κ × Measured),
      sums (part.map (·.2)) = (part.map fun row => sums [row.2]).sum := by
    intro part
    rw [sums_eq_sum, List.map_map]
    rfl
  rw [hrows, ← hgroups]
  exact congrArg List.sum (List.map_congr_left fun key _ => hrows _)

end Breakdowns

section Figures

variable (mean : ℤ → ℕ → ℤ)

/-- A breakdown, key by key. -/
theorem grouped_eq_map (rows : List (Option CodePoints × Measured)) :
    grouped mean rows =
      (keysByCost rows).map fun key => figures mean (groupLabel key) (under rows key) := by
  have hsorted := List.map_insertionSort (noCheaper rows) costsMore
    (fun key => figures mean (groupLabel key) (under rows key)) (keysSeen rows)
    fun _ _ _ _ => Iff.rfl
  rw [keysByCost, hsorted, grouped, groups_eq_map, List.map_map]
  rfl

/-- **A breakdown adds up** to its rows. -/
theorem sum_grouped (rows : List (Option CodePoints × Measured)) :
    ((grouped mean rows).map (·.toSums)).sum = sums (rows.map (·.2)) := by
  rw [grouped_eq_map, List.map_map, ← sum_under]
  rfl

/-! ### People without a name -/

/-- A label beside the one of a group that has none is its key's alone. -/
theorem eq_some_of_groupLabel {key : Option CodePoints} {label : CodePoints}
    (h : groupLabel key = label) (hlabel : label ≠ noneLabel) : key = some label := by
  match key with
  | none => exact absurd h.symm hlabel
  | some [] => exact absurd h.symm hlabel
  | some (c :: cs) => exact congrArg some h

/-- The people a report has no name for, the dearest first. -/
def nobodies (rows : List (Option CodePoints × Measured)) : List (Option CodePoints) :=
  (keysByCost rows).filter fun key => groupLabel key = noneLabel

/-- What the split by person leaves out: all of these groups but the last. -/
def leftOut (rows : List (Option CodePoints × Measured)) : Sums :=
  ((nobodies rows).dropLast.map fun key => sums (under rows key)).sum

private theorem dropLast_of_all_eq {α : Type} {x : α} {list : List α} (hnodup : list.Nodup)
    (hall : ∀ a ∈ list, a = x) : list.dropLast = [] := by
  match list with
  | [] => rfl
  | [_] => rfl
  | a :: b :: rest =>
    have hsame : a = b := (hall a (by simp)).trans (hall b (by simp)).symm
    exact absurd (hsame ▸ List.mem_cons_self) (List.nodup_cons.mp hnodup).1

/-- **The split by person** adds up to its rows without those it leaves out. -/
theorem sum_personFigures (rows : List (Option CodePoints × Measured)) :
    ((personFigures mean rows).map (·.toSums)).sum + leftOut rows = sums (rows.map (·.2)) := by
  have hfigures : (personFigures mean rows).map (·.toSums) =
      (Grouping.lastOf (·.key) (grouped mean rows)).map fun entry => entry.2.toSums := by
    rw [personFigures, List.map_map]
    rfl
  -- what is left out of a label is left out of the groups without one
  have hlost : ∀ label, (((grouped mean rows).filter (·.key = label)).dropLast.map
      (·.toSums)).sum = (((keysByCost rows).filter (groupLabel · = label)).dropLast.map
        fun key => sums (under rows key)).sum := by
    intro label
    rw [grouped_eq_map, List.filter_map, ← List.map_dropLast, List.map_map]
    rfl
  have hnamed : ∀ label ≠ noneLabel,
      (((grouped mean rows).filter (·.key = label)).dropLast.map (·.toSums)).sum = 0 := by
    intro label hlabel
    rw [hlost, dropLast_of_all_eq ((nodup_keysByCost rows).filter _) fun key hkey =>
      eq_some_of_groupLabel (by simpa using (List.mem_filter.mp hkey).2) hlabel]
    rfl
  have hleft : leftOut rows = (((grouped mean rows).filter (·.key = noneLabel)).dropLast.map
      (·.toSums)).sum := (hlost noneLabel).symm
  rw [hfigures, hleft, Grouping.sum_lastOf_of_single _ _ _ _ hnamed, sum_grouped]

/-! ### Members -/

/-- What is said of the keys of some rows is said of those of others, key by key. Keys with one
label may change places. -/
def SameMembers (rows rows' : List (Option CodePoints × Measured)) : Prop :=
  ∃ keys', keys'.Perm (keysSeen rows') ∧
    List.Forall₂ (fun key key' => groupLabel key = groupLabel key' ∧
      sums (under rows key) = sums (under rows' key') ∧
        latency mean (under rows key) = latency mean (under rows' key')) (keysSeen rows) keys'

theorem figures_eq_iff {label label' : CodePoints} {rows rows' : List Measured} :
    figures mean label rows = figures mean label' rows' ↔
      label = label' ∧ sums rows = sums rows' ∧ latency mean rows = latency mean rows' := by
  rw [figures, figures, Figures.mk.injEq, Option.some_inj]
  tauto

/-- The order among groups that cost the same is left open. -/
theorem grouped_perm_iff (rows rows' : List (Option CodePoints × Measured)) :
    (grouped mean rows).Perm (grouped mean rows') ↔ SameMembers mean rows rows' := by
  rw [grouped_eq_map, grouped_eq_map]
  set f := fun key => figures mean (groupLabel key) (under rows key) with hf
  set f' := fun key => figures mean (groupLabel key) (under rows' key) with hf'
  have hperm := (keysByCost_perm rows).map f
  have hperm' := (keysByCost_perm rows').map f'
  constructor
  · intro h
    have hsame : ((keysSeen rows).map f).Perm ((keysSeen rows').map f') :=
      hperm.symm.trans (h.trans hperm')
    have hvalues : List.Forall₂ (fun value key => value = f' key) ((keysSeen rows').map f')
        (keysSeen rows') :=
      List.forall₂_map_left_iff.mpr (List.forall₂_same.mpr fun _ _ => rfl)
    obtain ⟨keys', hkeys, hmoved⟩ := List.perm_comp_forall₂ hsame hvalues
    refine ⟨keys', hmoved, ?_⟩
    exact (List.forall₂_map_left_iff.mp hkeys).imp fun key key' h => (figures_eq_iff mean).mp h
  · rintro ⟨keys', hmoved, hkeys⟩
    have hmaps : (keysSeen rows).map f = keys'.map f' := by
      rw [← List.forall₂_eq_eq_eq]
      exact List.forall₂_map_left_iff.mpr (List.forall₂_map_right_iff.mpr
        (hkeys.imp fun key key' h => (figures_eq_iff mean).mpr h))
    exact hperm.trans (hmaps ▸ (hmoved.map f').trans hperm'.symm)

end Figures

/-! ### The report -/

section Reports

variable (mean : ℤ → ℕ → ℤ) (clock : Clock) (rows : List RequestLog) (scope : Scope)
  (start stop : ℤ) (granularity : Option Granularity) (split : Split)

/-- The rows of a window, whoever sent them. -/
def everybodys : List RequestLog := select (inWindow scope start stop none) rows

def members (rows : List RequestLog) : List (Option CodePoints × Measured) :=
  rows.map fun row => (row.subject, measured row)

def people (rows : List RequestLog) : List (Option CodePoints × Measured) :=
  rows.map fun row => (requestPerson row, measured row)

theorem map_snd_members (rows : List RequestLog) :
    (members rows).map (·.2) = rows.map measured := by
  rw [members, List.map_map]
  rfl

theorem map_snd_people (rows : List RequestLog) : (people rows).map (·.2) = rows.map measured := by
  rw [people, List.map_map]
  rfl

/-- **What a report narrowed to a person says** is what the report of their rows says, the split by
member apart. -/
theorem report_person_eq {person : CodePoints} (hperson : person ≠ []) :
    report mean clock rows scope start stop granularity split (some person) none =
      { report mean clock (rowsOf person rows) scope start stop granularity split none none with
        byMember := (report mean clock rows scope start stop granularity split none none).byMember
      } := by
  unfold report
  simp only [Option.filter_none, Option.or_none, Option.none_or, window_person hperson]

/-- The rows of a breakdown add up to the totals. -/
structure Report.AddsUp (report : Report) : Prop where
  byUseCase : (report.byUseCase.map (·.toSums)).sum = report.totals.toSums
  byModel : (report.byModel.map (·.toSums)).sum = report.totals.toSums
  byMember : (report.byMember.map (·.toSums)).sum = report.totals.toSums
  byOutcome : (report.byOutcome.map (·.toSums)).sum = report.totals.toSums
  byPerson : (report.byPerson.map (·.toSums)).sum = report.totals.toSums

/-- Two reports say the same. In what order members who cost the same are listed is left open. -/
structure Report.Agrees (report report' : Report) : Prop where
  totals : report.totals = report'.totals
  byUseCase : report.byUseCase = report'.byUseCase
  byModel : report.byModel = report'.byModel
  byMember : report.byMember.Perm report'.byMember
  byOutcome : report.byOutcome = report'.byOutcome
  byPerson : report.byPerson = report'.byPerson
  series : report.series = report'.series

/-- A report of everybody adds up where nothing is left out of the split by person. -/
theorem report_addsUp_iff :
    (report mean clock rows scope start stop granularity split none none).AddsUp ↔
      leftOut (people (everybodys rows scope start stop)) = 0 := by
  set window := everybodys rows scope start stop with hwindow
  have hcolumn : ∀ column : Measured → Option CodePoints,
      ((grouped mean ((window.map measured).map fun row => (column row, row))).map
        (·.toSums)).sum = sums (window.map measured) := by
    intro column
    rw [sum_grouped, List.map_map]
    exact congrArg sums (List.map_id _)
  have hmember : ((grouped mean (members window)).map (·.toSums)).sum =
      sums (window.map measured) := by
    rw [sum_grouped, map_snd_members]
  have hperson := sum_personFigures mean (people window)
  rw [map_snd_people] at hperson
  constructor
  · intro h
    have hadds : ((personFigures mean (people window)).map (·.toSums)).sum =
        sums (window.map measured) := h.byPerson
    rw [hadds] at hperson
    exact add_left_cancel (hperson.trans (add_zero _).symm)
  · intro hnothing
    rw [hnothing, add_zero] at hperson
    exact ⟨hcolumn Split.useCase.column, hcolumn Split.model.column, hmember,
      hcolumn Split.outcome.column, hperson⟩

/-! ### Under a limit -/

/-- Rows that differ in who sent them at most, and then somebody other than `name` did. -/
def SameButOthers (name : CodePoints) (row row' : RequestLog) : Prop :=
  row' = row ∨ requestPerson row ≠ some name ∧ requestPerson row' ≠ some name ∧
    ∃ subject username, row' = { row with subject := subject, username := username }

variable {rows} {rows' : List RequestLog} {name : CodePoints}

theorem SameButOthers.measured_eq {row row' : RequestLog} (h : SameButOthers name row row') :
    measured row' = measured row := by
  obtain rfl | ⟨-, -, subject, username, rfl⟩ := h
  · rfl
  · rfl

theorem SameButOthers.selects_iff {row row' : RequestLog} (h : SameButOthers name row row')
    (condition : RequestLog → Truth) (hcondition : condition ∈ inWindow scope start stop none) :
    Selects (condition row') ↔ Selects (condition row) := by
  obtain rfl | ⟨-, -, subject, username, rfl⟩ := h
  · exact Iff.rfl
  · unfold inWindow at hcondition
    simp only [Option.filter_none, Option.toList_none, List.map_nil, List.append_nil,
      List.singleton_append, List.mem_cons] at hcondition
    obtain rfl | hcondition := hcondition
    · exact Iff.rfl
    · split at hcondition
      · exact absurd hcondition List.not_mem_nil
      · rw [List.mem_singleton.mp hcondition]
      · rw [List.mem_singleton.mp hcondition]

/-- Rows that are told apart by nobody's name but others' are measured alike. -/
theorem measured_everybodys (h : List.Forall₂ (SameButOthers name) rows rows') :
    (everybodys rows' scope start stop).map measured =
      (everybodys rows scope start stop).map measured := by
  induction h with
  | nil => rfl
  | @cons row row' rows rows' hrow _ ih =>
    have hselected : ((inWindow scope start stop none).all fun condition =>
        decide (Selects (condition row'))) = (inWindow scope start stop none).all fun condition =>
          decide (Selects (condition row)) := by
      rw [Bool.eq_iff_iff, List.all_eq_true, List.all_eq_true]
      refine forall₂_congr fun condition hcondition => ?_
      rw [decide_eq_true_eq, decide_eq_true_eq,
        hrow.selects_iff scope start stop condition hcondition]
    unfold everybodys select at ih ⊢
    rw [List.filter_cons, List.filter_cons, hselected]
    split_ifs
    · rw [List.map_cons, List.map_cons, ih, hrow.measured_eq]
    · exact ih

theorem rowsOf_congr (h : List.Forall₂ (SameButOthers name) rows rows') :
    rowsOf name rows' = rowsOf name rows := by
  induction h with
  | nil => rfl
  | @cons row row' rows rows' hrow _ ih =>
    unfold rowsOf at ih ⊢
    rw [List.filter_cons, List.filter_cons, ih]
    obtain rfl | ⟨hother, hother', -⟩ := hrow
    · rfl
    · rw [if_neg (by simpa using hother'), if_neg (by simpa using hother)]

/-- **Under a limit nobody else's name matters.** -/
theorem report_limited_congr (hname : name ≠ [])
    (h : List.Forall₂ (SameButOthers name) rows rows') {person : Option CodePoints}
    (hperson : person = none ∨ person = some name) :
    report mean clock rows' scope start stop granularity split person (some name) =
      report mean clock rows scope start stop granularity split person (some name) := by
  have hown : select (inWindow scope start stop (some name)) rows' =
      select (inWindow scope start stop (some name)) rows := by
    rw [window_person hname, window_person hname, rowsOf_congr h]
  have hlimit : ((some name).filter (· ≠ [])).or person = some name := by
    simp [Option.filter, hname]
  refine report_congr mean clock ?_ hown ?_ granularity split
  · obtain rfl | rfl := hperson
    · exact measured_everybodys scope start stop h
    · rw [hown]
  · rw [hlimit]
    exact hown

/-! ### Whose report it is -/

variable (rows)

/-- **A report narrowed to a person is the report of that person's rows**: it says what the report
of their rows says, its breakdowns add up as those of a report of everybody do, and under a limit
to one person nobody else's name matters. -/
structure PersonReport (person : CodePoints) : Prop where
  narrowed : (report mean clock rows scope start stop granularity split (some person) none).Agrees
    (report mean clock (rowsOf person rows) scope start stop granularity split none none)
  everybodysAddsUp : (report mean clock rows scope start stop granularity split none none).AddsUp
  narrowedAddsUp :
    (report mean clock rows scope start stop granularity split (some person) none).AddsUp
  limited : ∀ name ≠ [], ∀ rows', List.Forall₂ (SameButOthers name) rows rows' →
    ∀ asked, asked = none ∨ asked = some name →
      report mean clock rows' scope start stop granularity split asked (some name) =
        report mean clock rows scope start stop granularity split asked (some name)

/-- A single person is not left out. -/
theorem leftOut_rowsOf (person : CodePoints) : leftOut (people (rowsOf person rows)) = 0 := by
  have hnobodies : (nobodies (people (rowsOf person rows))).dropLast = [] := by
    refine dropLast_of_all_eq (x := some person) ((nodup_keysByCost _).filter _) fun key hkey => ?_
    have hseen := (keysByCost_perm _).mem_iff.mp (List.mem_filter.mp hkey).1
    rw [mem_keysSeen, people, List.map_map, List.mem_map] at hseen
    obtain ⟨row, hrow, rfl⟩ := hseen
    exact (mem_rowsOf.mp hrow).2
  rw [leftOut, hnobodies]
  rfl

/-- **A report narrowed to a person is a report of that person's rows exactly where** the members
of the window are the person's own, with what the person's rows add up to, and all but the cheapest
group of those without a name add up to nothing. -/
theorem personReport_iff {person : CodePoints} (hperson : person ≠ []) :
    PersonReport mean clock rows scope start stop granularity split person ↔
      SameMembers mean (members (everybodys rows scope start stop))
          (members (rowsOf person (everybodys rows scope start stop))) ∧
        leftOut (people (everybodys rows scope start stop)) = 0 := by
  have hwindow := window_rowsOf person scope start stop none rows
  have hmembers : (report mean clock rows scope start stop granularity split (some person)
      none).byMember.Perm (report mean clock (rowsOf person rows) scope start stop granularity
        split none none).byMember ↔
      SameMembers mean (members (everybodys rows scope start stop))
        (members (rowsOf person (everybodys rows scope start stop))) := by
    rw [← grouped_perm_iff, everybodys, ← hwindow]
    rfl
  constructor
  · intro h
    exact ⟨hmembers.mp h.narrowed.byMember,
      (report_addsUp_iff mean clock rows scope start stop granularity split).mp
        h.everybodysAddsUp⟩
  · rintro ⟨hsame, hnothing⟩
    have hown : (report mean clock (rowsOf person rows) scope start stop granularity split none
        none).AddsUp := by
      rw [report_addsUp_iff, everybodys, hwindow]
      exact leftOut_rowsOf _ person
    have hagrees : (report mean clock rows scope start stop granularity split (some person)
        none).Agrees (report mean clock (rowsOf person rows) scope start stop granularity split
          none none) := by
      have heq := report_person_eq mean clock rows scope start stop granularity split hperson
      exact ⟨by rw [heq], by rw [heq], by rw [heq], hmembers.mpr hsame, by rw [heq], by rw [heq],
        by rw [heq]⟩
    refine ⟨hagrees, (report_addsUp_iff mean clock rows scope start stop granularity split).mpr
      hnothing, ?_, ?_⟩
    · exact ⟨by rw [hagrees.byUseCase, hagrees.totals, hown.byUseCase],
        by rw [hagrees.byModel, hagrees.totals, hown.byModel],
        by rw [(hagrees.byMember.map _).sum_eq, hagrees.totals, hown.byMember],
        by rw [hagrees.byOutcome, hagrees.totals, hown.byOutcome],
        by rw [hagrees.byPerson, hagrees.totals, hown.byPerson]⟩
    · intro name hname rows' h asked hasked
      exact report_limited_congr mean clock scope start stop granularity split hname h hasked

end Reports

/-! ### Somebody else's request -/

/-- A clock that shows no times. -/
private def blankClock : Clock where
  utc := true
  name := "UTC"
  rendered _ := []
  zonedLabel label _ := label
  axis _ _ _ := []
  shown _ := []

/-- A request of Ann's and one of Bob's. -/
private def annAndBob : List RequestLog :=
  [{ id := "1", createdAt := 1, subject := some (points "ann".toList) },
    { id := "2", createdAt := 2, subject := some (points "bob".toList) }]

/-- Of a log with her requests alone it is hers. -/
theorem split_by_member_of_own_rows :
    PersonReport (fun sum count => sum / count) blankClock (annAndBob.take 1) none 0 10 none .model
      "ann" := by
  refine (personReport_iff _ _ _ _ _ _ _ _ (by decide)).mpr ⟨?_, rfl⟩
  have hown : rowsOf "ann" (everybodys (annAndBob.take 1) none 0 10) =
      everybodys (annAndBob.take 1) none 0 10 := rfl
  rw [hown]
  exact ⟨_, .refl _, List.forall₂_same.mpr fun _ _ => ⟨rfl, rfl, rfl⟩⟩

/-- A report narrowed to Ann has a member too many. -/
theorem split_by_member_is_everybodys :
    ¬PersonReport (fun sum count => sum / count) blankClock annAndBob none 0 10 none .model
      "ann" := by
  intro h
  have hlength := h.narrowed.byMember.length_eq
  revert hlength
  decide +kernel

end AiraGateway.Reporting
