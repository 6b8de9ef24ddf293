import AiraGateway.Reporting.Findings

/-!
# Strict data mode hides who

Two stores that differ in nothing but the names and keys on other people's requests, and in whom
findings and stops about other people name, are one store to a reader who does not see people. A
store is *blinded* for a reader by taking out what they are not to see; every answer reads the
blinded store as it reads the store itself.

* `strict_data_hides_who_iff`: no answer tells two such stores apart, exactly where the reader has a
  name or no use case is shown to them.
* `nameless_reader_sees_who`: a key that names nobody is shown everybody's figures.
-/

namespace AiraGateway.Reporting

open Access Sql

/-! ### Stores a reader is not to tell apart -/

/-- What the reports read. -/
structure Store where
  rows : List RequestLog := []
  events : List StoredEvent := []
  suspensions : List StoredSuspension := []

/-- A request without whose it is. -/
def nobodys (row : RequestLog) : RequestLog :=
  { row with subject := none, username := none, credential := none }

/-- A finding without whom it names. -/
def StoredEvent.unnamed (row : StoredEvent) : StoredEvent := { row with targetValue := [] }

/-- A stop without whom it names. -/
def StoredSuspension.unnamed (row : StoredSuspension) : StoredSuspension :=
  { row with targetValue := [] }

/-- Whether a finding or a stop is about another person, or their key. -/
def namesAnother (principal : Principal) (target targetValue : CodePoints) : Bool :=
  personTargets.contains target && !namesThisCaller principal target targetValue

section Stores

variable (principal : Principal)

/-- One request, or another's in both and the same but for whose it is. -/
def SameRow (row row' : RequestLog) : Prop :=
  row = row' ∨ isOwnRequest principal row.subject row.username = false ∧
    isOwnRequest principal row'.subject row'.username = false ∧ nobodys row = nobodys row'

def SameEvent (row row' : StoredEvent) : Prop :=
  row = row' ∨ namesAnother principal row.target row.targetValue = true ∧
    namesAnother principal row'.target row'.targetValue = true ∧ row.unnamed = row'.unnamed

def SameSuspension (row row' : StoredSuspension) : Prop :=
  row = row' ∨ namesAnother principal row.target row.targetValue = true ∧
    namesAnother principal row'.target row'.targetValue = true ∧ row.unnamed = row'.unnamed

/-- Two stores that agree on everything but who other people are. -/
structure Agree (s t : Store) : Prop where
  rows : List.Forall₂ (SameRow principal) s.rows t.rows
  events : List.Forall₂ (SameEvent principal) s.events t.events
  suspensions : List.Forall₂ (SameSuspension principal) s.suspensions t.suspensions

/-- No other person goes by a name of the reader's. -/
def Unshared (s : Store) : Prop :=
  ∀ row ∈ s.rows, ∀ name ∈ callerNames principal, row.subject = some name ∨
    row.username = some name → isOwnRequest principal row.subject row.username = true

end Stores

section Blinded

variable (principal : Principal)

/-- A request as the reader may know it. -/
def blindRow (row : RequestLog) : RequestLog :=
  if isOwnRequest principal row.subject row.username then row else nobodys row

def blindEvent (row : StoredEvent) : StoredEvent :=
  if namesAnother principal row.target row.targetValue then row.unnamed else row

def blindSuspension (row : StoredSuspension) : StoredSuspension :=
  if namesAnother principal row.target row.targetValue then row.unnamed else row

variable {principal}

theorem blindRow_of_own {row : RequestLog}
    (h : isOwnRequest principal row.subject row.username = true) : blindRow principal row = row :=
  if_pos h

theorem blindRow_of_others {row : RequestLog}
    (h : isOwnRequest principal row.subject row.username = false) :
    blindRow principal row = nobodys row := if_neg (by rw [h]; exact Bool.false_ne_true)

/-- What is blinded is whose a request is, and nothing else. -/
theorem blindRow_eq (principal : Principal) (row : RequestLog) :
    ∃ subject username credential, blindRow principal row =
      { row with subject := subject, username := username, credential := credential } := by
  unfold blindRow
  split_ifs
  · exact ⟨row.subject, row.username, row.credential, rfl⟩
  · exact ⟨none, none, none, rfl⟩

theorem isOwnRequest_nobody : isOwnRequest principal none none = false := by
  simp [isOwnRequest, rowPerson, person]

/-- **A blinded request is as much the reader's as it was.** -/
theorem isOwnRequest_blindRow (row : RequestLog) :
    isOwnRequest principal (blindRow principal row).subject (blindRow principal row).username =
      isOwnRequest principal row.subject row.username := by
  cases h : isOwnRequest principal row.subject row.username with
  | true => rw [blindRow_of_own h, h]
  | false => rw [blindRow_of_others h]; exact isOwnRequest_nobody

theorem SameRow.blindRow_eq {row row' : RequestLog} (h : SameRow principal row row') :
    blindRow principal row = blindRow principal row' := by
  obtain rfl | ⟨hothers, hothers', hsame⟩ := h
  · rfl
  · rw [blindRow_of_others hothers, blindRow_of_others hothers', hsame]

theorem SameEvent.blindEvent_eq {row row' : StoredEvent} (h : SameEvent principal row row') :
    blindEvent principal row = blindEvent principal row' := by
  obtain rfl | ⟨hothers, hothers', hsame⟩ := h
  · rfl
  · rw [blindEvent, if_pos hothers, blindEvent, if_pos hothers', hsame]

theorem SameSuspension.blindSuspension_eq {row row' : StoredSuspension}
    (h : SameSuspension principal row row') :
    blindSuspension principal row = blindSuspension principal row' := by
  obtain rfl | ⟨hothers, hothers', hsame⟩ := h
  · rfl
  · rw [blindSuspension, if_pos hothers, blindSuspension, if_pos hothers', hsame]

theorem map_eq_of_forall₂ {α β : Type} {R : α → α → Prop} {f : α → β}
    (hR : ∀ a b, R a b → f a = f b) {as bs : List α} (h : List.Forall₂ R as bs) :
    as.map f = bs.map f := by
  rw [← List.forall₂_eq_eq_eq, List.forall₂_map_left_iff, List.forall₂_map_right_iff]
  exact h.imp hR

/-- Nobody is no caller: a name that is not there names no caller. -/
theorem nil_notMem_callerNames : [] ∉ callerNames principal := by
  simp [callerNames]

theorem namesThisCaller_nil (target : CodePoints) :
    namesThisCaller principal target [] = false := by
  have hcredential : callerCredential principal ≠ some [] := by
    intro h
    have hne := (Option.filter_eq_some_iff.mp h).2
    simp at hne
  have hnames : (callerNames principal).contains [] = false := by
    simpa using nil_notMem_callerNames
  unfold namesThisCaller
  split_ifs
  · exact hnames
  · exact decide_eq_false hcredential
  · rfl

theorem namesAnother_nil {target : CodePoints} (h : target ∈ personTargets) :
    namesAnother principal target [] = true := by
  have hcontains : personTargets.contains target = true := by simpa using h
  rw [namesAnother, hcontains, namesThisCaller_nil]
  rfl

/-- A target that is somebody's is no use case. -/
theorem ne_useCase_of_mem {target : CodePoints} (h : target ∈ personTargets) :
    target ≠ points RuleTarget.useCase.value := by
  intro hsame
  rw [hsame] at h
  exact absurd h (by decide)

end Blinded

/-! ### The list and the details -/

section Answers

variable {principal : Principal} (hpeople : seesPeople principal = false)

section Requests

variable (parseCursor : CodePoints → Except Refusal (ℤ × CodePoints)) (store : ReadModel)
  (rows : List RequestLog)

include hpeople in
/-- **A blinded row is listed as it was.** -/
theorem listed_blindRow (fields : List TraceField) (row : RequestLog) :
    listed principal fields (blindRow principal row) true = listed principal fields row true := by
  cases h : isOwnRequest principal row.subject row.username with
  | true => rw [blindRow_of_own h]
  | false =>
    have hwithheld : withheldRow principal row.subject row.username = true := by
      rw [withheldRow, hpeople, h]
      rfl
    have hnobody : withheldRow principal none none = true := by
      rw [withheldRow, hpeople, isOwnRequest_nobody]
      rfl
    rw [blindRow_of_others h, listed, listed, hwithheld]
    simp only [nobodys, hnobody, Bool.and_self, Bool.true_and, Listed.mk.injEq, and_true]
    refine List.map_congr_left fun field _ => ?_
    cases field <;> rfl

/-- A condition of a query that is asked of some rows. -/
theorem forall_mem_asked {P : (RequestLog → Truth) → Prop} {present : Bool}
    {condition : RequestLog → Truth} (h : present = true → P condition) :
    ∀ c ∈ asked present condition, P c := by
  intro c hc
  unfold asked at hc
  split_ifs at hc with hpresent
  · rw [List.mem_singleton.mp hc]
    exact h hpresent
  · exact absurd hc List.not_mem_nil

/-- A condition that reads nothing of whose a request is. -/
def Impersonal (principal : Principal) (condition : RequestLog → Truth) : Prop :=
  ∀ row, Selects (condition (blindRow principal row)) ↔ Selects (condition row)

/-- A condition on other columns than those that are blinded. -/
theorem Impersonal.of_rfl {condition : RequestLog → Truth}
    (h : ∀ (row : RequestLog) subject username credential, condition
      { row with subject := subject, username := username, credential := credential } =
        condition row) : Impersonal principal condition := by
  intro row
  obtain ⟨subject, username, credential, hblind⟩ := blindRow_eq principal row
  rw [hblind, h]

theorem impersonal_ownRequests : Impersonal principal (ownRequests principal) := by
  intro row
  rw [selects_ownRequests, selects_ownRequests, isOwnRequest_blindRow]

/-- A query for no person and no key asks nothing of either. -/
theorem impersonal_filters {query : TraceQuery} (hsubject : query.subject = [])
    (hcredential : query.credential = []) :
    ∀ condition ∈ filters principal query, Impersonal principal condition := by
  have hnobody : ∀ condition : RequestLog → Truth,
      ∀ c ∈ asked (decide (([] : CodePoints) ≠ [])) condition, Impersonal principal c :=
    fun condition => forall_mem_asked fun h => absurd h (by decide)
  unfold filters
  rw [hsubject, hcredential]
  simp only [List.forall_mem_append]
  refine ⟨⟨⟨⟨⟨⟨⟨⟨⟨?_, ?_⟩, ?_⟩, hnobody _⟩, hnobody _⟩, ?_⟩, ?_⟩, ?_⟩, ?_⟩, ?_⟩
  · exact forall_mem_asked fun _ => .of_rfl fun _ _ _ _ => rfl
  · exact forall_mem_asked fun _ => .of_rfl fun _ _ _ _ => rfl
  · exact forall_mem_asked fun _ => .of_rfl fun _ _ _ _ => rfl
  · exact forall_mem_asked fun _ => .of_rfl fun _ _ _ _ => rfl
  · exact forall_mem_asked fun _ => impersonal_ownRequests
  · exact forall_mem_asked fun _ => .of_rfl fun _ _ _ _ => rfl
  · exact forall_mem_asked fun _ => .of_rfl fun _ _ _ _ => rfl
  · exact forall_mem_asked fun _ => .of_rfl fun _ _ _ _ => rfl

theorem select_blindRow {conditions : List (RequestLog → Truth)}
    (h : ∀ condition ∈ conditions, Impersonal principal condition) :
    select conditions (rows.map (blindRow principal)) =
      (select conditions rows).map (blindRow principal) :=
  select_map fun condition hcondition row _ => h condition hcondition row

theorem insertionSort_blindRow :
    (rows.map (blindRow principal)).insertionSort newestFirst =
      (rows.insertionSort newestFirst).map (blindRow principal) := by
  refine (List.map_insertionSort newestFirst newestFirst _ _ fun a _ b _ => ?_).symm
  obtain ⟨_, _, _, ha⟩ := blindRow_eq principal a
  obtain ⟨_, _, _, hb⟩ := blindRow_eq principal b
  rw [ha, hb]
  exact Iff.rfl

/-- What a query finds of blinded rows, up to a page. -/
theorem found_blindRow {conditions : List (RequestLog → Truth)}
    (h : ∀ condition ∈ conditions, Impersonal principal condition) (n : ℕ) :
    ((select conditions (rows.map (blindRow principal))).insertionSort newestFirst).take n =
      (((select conditions rows).insertionSort newestFirst).take n).map (blindRow principal) := by
  rw [select_blindRow rows h, insertionSort_blindRow, List.map_take]

/-- The page a query is answered with once its conditions are known. -/
def tracePage (principal : Principal) (scope : Scope) (limit : ℕ)
    (conditions : List (RequestLog → Truth)) : TracePage :=
  let found := ((select conditions rows).insertionSort newestFirst).take (limit + 1)
  let page := found.take limit
  { traces := page.map fun row =>
      listed principal (fields (principal.allows .incidentInvestigate)) row true
    nextCursor :=
      if limit < found.length then page.getLast?.map fun row => (row.createdAt, row.id) else none
    scope := scopeLabel scope
    inScope := true }

include hpeople in
theorem tracePage_blindRow (scope : Scope) (limit : ℕ) {conditions : List (RequestLog → Truth)}
    (h : ∀ condition ∈ conditions, Impersonal principal condition) :
    tracePage (rows.map (blindRow principal)) principal scope limit conditions =
      tracePage rows principal scope limit conditions := by
  have hplace : ∀ row : RequestLog,
      ((blindRow principal row).createdAt, (blindRow principal row).id) =
        (row.createdAt, row.id) := by
    intro row
    obtain ⟨_, _, _, hrow⟩ := blindRow_eq principal row
    rw [hrow]
  unfold tracePage
  simp only [found_blindRow rows h, ← List.map_take, List.map_map, List.length_map,
    List.getLast?_map, Option.map_map, Function.comp_def, listed_blindRow hpeople, hplace]

include hpeople in
/-- **The list reads a blinded store as the store itself.** -/
theorem traces_blindRow (query : TraceQuery) :
    traces parseCursor store true (rows.map (blindRow principal)) principal query =
      traces parseCursor store true rows principal query := by
  have hconditions : ¬(query.subject ≠ [] ∨ query.credential ≠ []) →
      ∀ behind : List (RequestLog → Truth), (∀ c ∈ behind, Impersonal principal c) →
      ∀ c ∈ (visibleScope principal .traceReadAll).toList.map
          (fun allowed (row : RequestLog) => isIn row.useCase allowed) ++ filters principal query ++
        restrictionFilter principal (restrictedUseCases store principal true) ++ behind,
        Impersonal principal c := by
    intro hnobody behind hbehind
    simp only [ne_eq, not_or, not_not] at hnobody
    simp only [List.forall_mem_append]
    refine ⟨⟨⟨?_, impersonal_filters hnobody.1 hnobody.2⟩, ?_⟩, hbehind⟩
    · intro c hc
      obtain ⟨allowed, -, rfl⟩ := List.mem_map.mp hc
      exact .of_rfl fun _ _ _ _ => rfl
    · -- no use case is restricted under the mode
      exact forall_mem_asked fun h => absurd h (by simp [restrictedUseCases])
  unfold traces
  simp only [hpeople, Bool.not_false, Bool.and_self, true_and]
  split_ifs
  all_goals try rfl
  · have hnobody : ¬(query.subject ≠ [] ∨ query.credential ≠ []) := by assumption
    cases parseCursor query.cursor with
    | error refusal => rfl
    | ok cursor =>
      refine congrArg Except.ok (tracePage_blindRow hpeople rows _ _ ?_)
      refine hconditions hnobody [behind cursor] fun c hc => ?_
      rw [List.mem_singleton.mp hc]
      exact .of_rfl fun _ _ _ _ => rfl
  · exact congrArg Except.ok (tracePage_blindRow hpeople rows _ _
      (hconditions (by assumption) [] fun c hc => absurd hc List.not_mem_nil))

theorem hidden_blindRow (row : RequestLog) :
    hidden store true principal (blindRow principal row) = hidden store true principal row := by
  have huse : (blindRow principal row).useCase = row.useCase := by
    obtain ⟨_, _, _, hrow⟩ := blindRow_eq principal row
    rw [hrow]
  rw [hidden, hidden, isOwnRequest_blindRow, huse]

include hpeople in
/-- **The details read a blinded store as the store itself.** -/
theorem traceDetail_blindRow (rowId : CodePoints) :
    traceDetail store true (rows.map (blindRow principal)) principal rowId =
      traceDetail store true rows principal rowId := by
  have hfind : (rows.map (blindRow principal)).find? (·.id = rowId) =
      (rows.find? (·.id = rowId)).map (blindRow principal) := by
    have hid : ((fun row : RequestLog => decide (row.id = rowId)) ∘ blindRow principal) =
        fun row => decide (row.id = rowId) := by
      funext row
      obtain ⟨_, _, _, hrow⟩ := blindRow_eq principal row
      rw [Function.comp_apply, hrow]
    rw [List.find?_map, hid]
  unfold traceDetail
  rw [hfind]
  cases rows.find? (·.id = rowId) with
  | none => rfl
  | some row =>
    have hsame : groundForDetails store principal (blindRow principal row) =
        groundForDetails store principal row := by
      obtain ⟨_, _, _, hrow⟩ := blindRow_eq principal row
      rw [hrow]
      rfl
    simp only [Option.map_some, Option.filter, hidden_blindRow]
    split_ifs
    · simp only [hpeople, Bool.not_false, Bool.and_self, listed_blindRow hpeople, hsame]
      obtain ⟨_, _, _, hrow⟩ := blindRow_eq principal row
      rw [hrow]
    · rfl

end Requests

/-! ### The report -/

section Figures

variable (mean : ℤ → ℕ → ℤ) (clock : Clock) (rows : List RequestLog)

theorem measured_blindRow (row : RequestLog) :
    measured (blindRow principal row) = measured row := by
  obtain ⟨_, _, _, hrow⟩ := blindRow_eq principal row
  rw [hrow]
  rfl

theorem selects_requestPersonIs {name : CodePoints} {row : RequestLog} :
    Selects (requestPersonIs name row) ↔ row.username = some name ∨
      (row.username = none ∨ row.username = some []) ∧ row.subject = some name := by
  simp [requestPersonIs]

/-- No row is in the window of nothing. -/
theorem window_of_nothing (start stop : ℤ) (person : Option CodePoints) :
    select (inWindow (some []) start stop person) rows = [] := by
  refine List.eq_nil_iff_forall_not_mem.mpr fun row hrow => ?_
  have hnothing := (mem_select.mp hrow).2
    (fun row => and (isNull row.useCase) (isNotNull row.useCase)) (by simp [inWindow])
  rw [selects_and, selects_isNull, selects_isNotNull] at hnothing
  exact hnothing.2 hnothing.1

/-- **A window of everybody is measured as it was.** -/
theorem measured_window (scope : Scope) (start stop : ℤ) {person : Option CodePoints}
    (hperson : person.filter (· ≠ []) = none) :
    (select (inWindow scope start stop person) (rows.map (blindRow principal))).map measured =
      (select (inWindow scope start stop person) rows).map measured := by
  have himpersonal : ∀ c ∈ inWindow scope start stop person, Impersonal principal c := by
    unfold inWindow
    rw [hperson]
    intro c hc
    simp only [Option.toList_none, List.map_nil, List.append_nil, List.singleton_append,
      List.mem_cons] at hc
    obtain rfl | hc := hc
    · exact .of_rfl fun _ _ _ _ => rfl
    · split at hc
      · exact absurd hc List.not_mem_nil
      · rw [List.mem_singleton.mp hc]
        exact .of_rfl fun _ _ _ _ => rfl
      · rw [List.mem_singleton.mp hc]
        exact .of_rfl fun _ _ _ _ => rfl
  have hmeasured : measured ∘ blindRow principal = measured := funext measured_blindRow
  rw [select_blindRow rows himpersonal, List.map_map, hmeasured]

/-- **A window of the reader's own is what it was**, where nobody else goes by their names. -/
theorem own_window {name : CodePoints} (hname : name ∈ callerNames principal)
    (hunshared : ∀ row ∈ rows, ∀ name ∈ callerNames principal, row.subject = some name ∨
      row.username = some name → isOwnRequest principal row.subject row.username = true)
    (scope : Scope) (start stop : ℤ) :
    select (inWindow scope start stop (some name)) (rows.map (blindRow principal)) =
      select (inWindow scope start stop (some name)) rows := by
  have hne : name ≠ [] := fun h => nil_notMem_callerNames (h ▸ hname)
  have hnamed : ∀ {row : RequestLog}, Selects (requestPersonIs name row) →
      row.subject = some name ∨ row.username = some name := by
    intro row h
    obtain h | h := selects_requestPersonIs.mp h
    · exact .inr h
    · exact .inl h.2
  have hmem : requestPersonIs name ∈ inWindow scope start stop (some name) := by
    simp [inWindow, Option.filter, hne]
  refine select_map_of_fixed fun row hrow hchanged => ?_
  have hothers : isOwnRequest principal row.subject row.username = false :=
    Bool.eq_false_iff.mpr fun hown => hchanged (blindRow_of_own hown)
  refine ⟨⟨_, hmem, fun h => ?_⟩, _, hmem, fun h => ?_⟩
  · have hown := hunshared row hrow name hname (hnamed h)
    rw [hothers] at hown
    exact Bool.false_ne_true hown
  · have hblind := hnamed h
    rw [blindRow_of_others hothers] at hblind
    simp [nobodys] at hblind

/-- What a report reads is its rows as they are measured, and the rows of the splits by person. -/
theorem report_congr {rows rows' : List RequestLog} {scope : Scope} {start stop : ℤ}
    {person limited : Option CodePoints}
    (hread : (select (inWindow scope start stop person) rows').map measured =
      (select (inWindow scope start stop person) rows).map measured)
    (hmember : select (inWindow scope start stop limited) rows' =
      select (inWindow scope start stop limited) rows)
    (hperson : select (inWindow scope start stop ((limited.filter (· ≠ [])).or person)) rows' =
      select (inWindow scope start stop ((limited.filter (· ≠ [])).or person)) rows)
    (granularity : Option Granularity) (split : Split) :
    report mean clock rows' scope start stop granularity split person limited =
      report mean clock rows scope start stop granularity split person limited := by
  unfold report
  dsimp only
  rw [hread, hmember, hperson]

theorem mem_callerNames {name : CodePoints} :
    name ∈ callerNames principal ↔
      (name = principal.subject ∨ name = principal.person) ∧ name ≠ [] := by
  simp [callerNames]

/-- The figures of a scope, where whoever has no name is shown no use case, narrowed to nobody or
to a name of the reader's. -/
theorem report_blindRow {rows : List RequestLog}
    (hunshared : ∀ row ∈ rows, ∀ name ∈ callerNames principal, row.subject = some name ∨
      row.username = some name → isOwnRequest principal row.subject row.username = true)
    {scope : Scope} (hnamed : principal.person ≠ [] ∨ scope = some []) {person : CodePoints}
    (hperson : person = [] ∨ person = ownName principal ∨ person = principal.subject ∨
      scope = some [])
    (start stop : ℤ) (granularity : Option Granularity) (split : Split) :
    report mean clock (rows.map (blindRow principal)) scope start stop granularity split
        (some person) (some (ownName principal)) =
      report mean clock rows scope start stop granularity split (some person)
        (some (ownName principal)) := by
  by_cases hnothing : scope = some []
  · subst hnothing
    refine report_congr mean clock ?_ ?_ ?_ granularity split <;> simp only [window_of_nothing]
  · have hname : principal.person ≠ [] := hnamed.resolve_right hnothing
    have hown : ownName principal = principal.person := if_pos hname
    have hmem : ownName principal ∈ callerNames principal :=
      mem_callerNames.mpr ⟨.inr hown, by rwa [hown]⟩
    have hlimited : (some (ownName principal)).filter (· ≠ []) = some (ownName principal) := by
      simp [Option.filter, hown, hname]
    have hmember := own_window rows hmem hunshared scope start stop
    refine report_congr mean clock ?_ hmember ?_ granularity split
    · by_cases hempty : person = []
      · exact measured_window rows scope start stop (by simp [hempty, Option.filter])
      · have hcaller : person ∈ callerNames principal := by
          rw [mem_callerNames]
          obtain h | h | h | h := hperson
          · exact absurd h hempty
          · exact ⟨.inr (h.trans hown), hempty⟩
          · exact ⟨.inl h, hempty⟩
          · exact absurd h hnothing
        rw [own_window rows hcaller hunshared scope start stop]
    · rw [hlimited]
      exact hmember

/-- Nothing narrowed is nothing. -/
theorem narrowedScope_nothing (useCase : CodePoints) :
    (narrowedScope (some []) useCase).1 = some [] := by
  unfold narrowedScope
  split_ifs with hempty hthere
  · rfl
  · simp at hthere
  · rfl

include hpeople in
/-- **The report reads a blinded store as the store itself**, for whoever has a name or is shown no
use case. -/
theorem reporting_blindRow {rows : List RequestLog}
    (hunshared : ∀ row ∈ rows, ∀ name ∈ callerNames principal, row.subject = some name ∨
      row.username = some name → isOwnRequest principal row.subject row.username = true)
    (hnamed : principal.person ≠ [] ∨ visibleScope principal .reportReadAll = some [])
    (calendar : Calendar) (enforced : Bool) (store : ReadModel) (query : SpendQuery) :
    reporting calendar mean enforced store true (rows.map (blindRow principal)) principal query =
      reporting calendar mean enforced store true rows principal query := by
  unfold reporting
  cases readQuery calendar query with
  | error refusal => rfl
  | ok asked =>
    have hbind : ∀ answer : Asked → Except Refusal SpendAnswer,
        (Except.ok asked >>= answer) = answer asked := fun _ => rfl
    rw [hbind, hbind]
    have hscope : principal.person ≠ [] ∨
        (narrowedScope (visibleScope principal .reportReadAll) query.useCase).1 = some [] :=
      hnamed.imp id fun h => by rw [h, narrowedScope_nothing]
    generalize narrowedScope (visibleScope principal .reportReadAll) query.useCase = narrowed
      at hscope
    obtain ⟨scope, inScope⟩ := narrowed
    have hlimited : ∀ scope, peopleLimitedTo store true principal scope =
        some (ownName principal) := by
      intro scope
      rw [peopleLimitedTo, if_pos rfl, hpeople]
      rfl
    simp only [hlimited, Option.any_some]
    by_cases hbeyond : (decide (query.person ≠ []) && decide (query.person ≠ ownName principal) &&
        decide (query.person ≠ principal.subject)) = true
    · have hnothing : principal.person ≠ [] ∨ (some [] : Scope) = some [] := .inr rfl
      have hperson : query.person = [] ∨ query.person = ownName principal ∨
          query.person = principal.subject ∨ (some [] : Scope) = some [] := .inr (.inr (.inr rfl))
      have hreport := report_blindRow mean calendar.toClock hunshared hnothing hperson asked.start
        asked.stop asked.granularity asked.split
      rw [if_pos hbeyond, hreport]
    · have hperson : query.person = [] ∨ query.person = ownName principal ∨
          query.person = principal.subject ∨ scope = some [] := by
        simp only [Bool.and_eq_true, decide_eq_true_eq] at hbeyond
        tauto
      have hreport := report_blindRow mean calendar.toClock hunshared hscope hperson asked.start
        asked.stop asked.granularity asked.split
      rw [if_neg hbeyond, hreport]

end Figures

/-! ### Findings and stops -/

section Findings

variable (parseCursor : CodePoints → Except Refusal (ℤ × CodePoints)) (store : ReadModel)
  (events : List StoredEvent) (suspensions : List StoredSuspension)

/-- What is blinded is whom a finding names, and nothing else. -/
theorem blindEvent_eq (principal : Principal) (row : StoredEvent) :
    ∃ targetValue, blindEvent principal row =
      { row with targetValue := targetValue } := by
  unfold blindEvent
  split_ifs
  · exact ⟨[], rfl⟩
  · exact ⟨row.targetValue, rfl⟩

theorem personTargets_of_namesAnother {target targetValue : CodePoints}
    (h : namesAnother principal target targetValue = true) : target ∈ personTargets := by
  simpa using (Bool.and_eq_true_iff.mp h).1

/-- **A blinded finding is sent as it was.** -/
theorem event_blindEvent (row : StoredEvent) (investigating : Bool) :
    event (blindEvent principal row) investigating (!namesThisCaller principal
        (blindEvent principal row).target (blindEvent principal row).targetValue) =
      event row investigating (!namesThisCaller principal row.target row.targetValue) := by
  unfold blindEvent
  split_ifs with hanother
  · have htarget := personTargets_of_namesAnother hanother
    have hnames := (Bool.and_eq_true_iff.mp hanother).2
    have hcontains : personTargets.contains row.target = true := by simpa using htarget
    simp only [StoredEvent.unnamed, namesThisCaller_nil, event, hnames, Bool.not_false,
      Bool.true_and, hcontains, if_true]
  · rfl

theorem eventPlace (row : StoredEvent) :
    ((blindEvent principal row).createdAt, (blindEvent principal row).id) =
      (row.createdAt, row.id) := by
  obtain ⟨_, hrow⟩ := blindEvent_eq principal row
  rw [hrow]

/-- The page a query for findings is answered with once its conditions are known. -/
def findingPage (principal : Principal) (scope : Scope) (limit : ℕ)
    (conditions : List (StoredEvent → Truth)) : FindingPage :=
  let found := ((select conditions events).insertionSort StoredEvent.newestFirst).take (limit + 1)
  let page := found.take limit
  { events := page.map fun row => event row (principal.allows .incidentInvestigate)
      (!namesThisCaller principal row.target row.targetValue)
    nextCursor :=
      if limit < found.length then page.getLast?.map fun row => (row.createdAt, row.id) else none
    scope := scopeLabel scope
    inScope := true }

theorem findingPage_blindEvent (scope : Scope) (limit : ℕ)
    {conditions : List (StoredEvent → Truth)}
    (h : ∀ condition ∈ conditions, ∀ row,
      Selects (condition (blindEvent principal row)) ↔ Selects (condition row)) :
    findingPage (events.map (blindEvent principal)) principal scope limit conditions =
      findingPage events principal scope limit conditions := by
  have hselect : select conditions (events.map (blindEvent principal)) =
      (select conditions events).map (blindEvent principal) :=
    select_map fun condition hcondition row _ => h condition hcondition row
  have hsort : ∀ rows : List StoredEvent,
      (rows.map (blindEvent principal)).insertionSort StoredEvent.newestFirst =
        (rows.insertionSort StoredEvent.newestFirst).map (blindEvent principal) := by
    intro rows
    refine (List.map_insertionSort StoredEvent.newestFirst _ _ _ fun a _ b _ => ?_).symm
    obtain ⟨_, ha⟩ := blindEvent_eq principal a
    obtain ⟨_, hb⟩ := blindEvent_eq principal b
    rw [ha, hb]
    exact Iff.rfl
  unfold findingPage
  simp only [hselect, hsort, ← List.map_take, List.map_map, List.length_map, List.getLast?_map,
    Option.map_map, Function.comp_def, event_blindEvent, eventPlace]

include hpeople in
/-- **The findings are read from a blinded store as from the store itself.** -/
theorem anomalies_blindEvent (query : FindingQuery) :
    anomalies parseCursor store true (events.map (blindEvent principal)) principal query =
      anomalies parseCursor store true events principal query := by
  have himpersonal : ∀ condition : StoredEvent → Truth,
      (∀ (row : StoredEvent) targetValue,
        condition { row with targetValue := targetValue } = condition row) → ∀ row,
      Selects (condition (blindEvent principal row)) ↔ Selects (condition row) := by
    intro condition h row
    obtain ⟨_, hrow⟩ := blindEvent_eq principal row
    rw [hrow, h]
  have hconditions : ∀ behind : List (StoredEvent → Truth),
      (∀ c ∈ behind, ∀ row, Selects (c (blindEvent principal row)) ↔ Selects (c row)) →
      ∀ c ∈ (visibleScope principal .anomalyReadAll).toList.map
          (fun allowed (row : StoredEvent) => isIn row.useCase allowed) ++
        (if query.useCase ≠ [] then [fun row : StoredEvent => eq row.useCase query.useCase]
          else []) ++
        (if restrictedUseCases store principal true ≠ [] then
          [aboutThisCaller (restrictedUseCases store principal true) principal] else []) ++ behind,
        ∀ row, Selects (c (blindEvent principal row)) ↔ Selects (c row) := by
    intro behind hbehind
    simp only [List.forall_mem_append]
    refine ⟨⟨⟨?_, ?_⟩, ?_⟩, hbehind⟩
    · intro c hc
      obtain ⟨allowed, -, rfl⟩ := List.mem_map.mp hc
      exact himpersonal (fun row => isIn row.useCase allowed) fun _ _ => rfl
    · intro c hc
      split_ifs at hc
      · rw [List.mem_singleton.mp hc]
        exact himpersonal (fun row => eq row.useCase query.useCase) fun _ _ => rfl
      · exact absurd hc List.not_mem_nil
    · -- no use case is restricted under the mode
      intro c hc
      simp [restrictedUseCases] at hc
  unfold anomalies
  simp only [hpeople, Bool.not_false, Bool.and_self, Bool.true_and]
  by_cases hvalid : query.useCase ≠ [] ∧ (!isValidUseCase query.useCase) = true
  · simp only [if_pos hvalid]
    rfl
  · by_cases hscope : query.useCase ≠ [] ∧
        (visibleScope principal .anomalyReadAll).any (!·.contains query.useCase) = true
    · simp only [if_neg hvalid, if_pos hscope]
    · simp only [if_neg hvalid, if_neg hscope]
      by_cases hcursor : query.cursor ≠ []
      · simp only [if_pos hcursor]
        cases parseCursor query.cursor with
        | error refusal => rfl
        | ok cursor =>
          refine congrArg Except.ok (findingPage_blindEvent events _ _
            (hconditions [StoredEvent.behind cursor] fun c hc => ?_))
          rw [List.mem_singleton.mp hc]
          exact himpersonal (StoredEvent.behind cursor) fun _ _ => rfl
      · simp only [if_neg hcursor]
        exact congrArg Except.ok (findingPage_blindEvent events _ _
          (hconditions [] fun c hc => absurd hc List.not_mem_nil))

/-! ### Stops -/

/-- What is blinded is whom a stop names, and nothing else. -/
theorem blindSuspension_eq (principal : Principal) (row : StoredSuspension) : ∃ targetValue,
    blindSuspension principal row = { row with targetValue := targetValue } := by
  unfold blindSuspension
  split_ifs
  · exact ⟨[], rfl⟩
  · exact ⟨row.targetValue, rfl⟩

/-- **A blinded stop is sent as it was.** -/
theorem asDict_blindSuspension (row : StoredSuspension) (addresses : Bool) :
    (blindSuspension principal row).asDict addresses
        (personTargets.contains (blindSuspension principal row).target &&
          !namesThisCaller principal (blindSuspension principal row).target
            (blindSuspension principal row).targetValue) =
      row.asDict addresses (personTargets.contains row.target &&
        !namesThisCaller principal row.target row.targetValue) := by
  unfold blindSuspension
  split_ifs with hanother
  · have htarget : namesAnother principal row.target [] = true :=
      namesAnother_nil (personTargets_of_namesAnother hanother)
    have hsame : ∀ target targetValue, (personTargets.contains target &&
        !namesThisCaller principal target targetValue) =
          namesAnother principal target targetValue :=
      fun _ _ => rfl
    simp only [hsame, StoredSuspension.unnamed, htarget, hanother]
    rfl
  · rfl

/-- Whom a stop concerns: everybody in the use case it is on, and whom it names there. -/
theorem selects_concerning {row : StoredSuspension} {useCase : CodePoints} :
    Selects (concerning useCase principal row) ↔
      (row.target = points RuleTarget.useCase.value ∧ row.targetValue = useCase) ∨
      (row.useCase = none ∨ row.useCase = some useCase) ∧
        namesThisCaller principal row.target row.targetValue = true := by
  have hkinds : points RuleTarget.subject.value ≠ points RuleTarget.credential.value := by decide
  unfold concerning namesThisCaller
  generalize points RuleTarget.subject.value = subject at hkinds ⊢
  generalize points RuleTarget.credential.value = credential at hkinds ⊢
  generalize points RuleTarget.useCase.value = whole
  generalize callerNames principal = names
  dsimp only
  rw [selects_anyOf]
  simp only [List.mem_append, List.mem_singleton, or_and_right, exists_or, exists_eq_left,
    List.mem_map, Option.mem_toList]
  have hnames : (∃ c, (c ∈ if names ≠ [] then
      [and (or (isNull row.useCase) (eq row.useCase useCase))
        (and (eq (some row.target) subject) (isIn (some row.targetValue) names))] else []) ∧
        Selects c) ↔
      (row.useCase = none ∨ row.useCase = some useCase) ∧ row.target = subject ∧
        row.targetValue ∈ names := by
    by_cases hnone : names = []
    · simp [hnone]
    · simp [hnone]
  have hcredential : (∃ c, (∃ key, callerCredential principal = some key ∧
      and (or (isNull row.useCase) (eq row.useCase useCase))
        (and (eq (some row.target) credential) (eq (some row.targetValue) key)) = c) ∧
        Selects c) ↔
      (row.useCase = none ∨ row.useCase = some useCase) ∧ row.target = credential ∧
        callerCredential principal = some row.targetValue := by
    constructor
    · rintro ⟨_, ⟨key, hkey, rfl⟩, hselects⟩
      simp only [selects_and, selects_or, selects_isNull, selects_eq, Option.some.injEq] at hselects
      exact ⟨hselects.1, hselects.2.1, hselects.2.2 ▸ hkey⟩
    · rintro ⟨hhere, htarget, hkey⟩
      exact ⟨_, ⟨_, hkey, rfl⟩, by simp [hhere, htarget]⟩
  rw [hnames, hcredential, selects_and, selects_eq, selects_eq, Option.some.injEq,
    Option.some.injEq, or_assoc, ← and_or_left, ← or_and_right]
  refine or_congr_right (and_congr_right fun _ => ?_)
  split_ifs with hsubject hown
  · simp [hsubject, hkinds]
  · simp [hown, hkinds.symm]
  · simp [hsubject, hown]

/-- A blinded stop concerns whom it concerned: nobody but whom it named before. -/
theorem selects_concerning_blindSuspension (useCase : CodePoints) (row : StoredSuspension) :
    Selects (concerning useCase principal (blindSuspension principal row)) ↔
      Selects (concerning useCase principal row) := by
  unfold blindSuspension
  split_ifs with hanother
  · have htarget := ne_useCase_of_mem (personTargets_of_namesAnother hanother)
    have hnames : namesThisCaller principal row.target row.targetValue = false := by
      simpa using (Bool.and_eq_true_iff.mp hanother).2
    rw [selects_concerning, selects_concerning, hnames]
    simp [StoredSuspension.unnamed, htarget, namesThisCaller_nil]
  · exact Iff.rfl

/-- A blinded stop is a stop of the use case it was one of. -/
theorem selects_inUseCase_blindSuspension (useCase : CodePoints) (row : StoredSuspension) :
    Selects (inUseCase useCase (blindSuspension principal row)) ↔
      Selects (inUseCase useCase row) := by
  unfold blindSuspension
  split_ifs with hanother
  · have htarget := ne_useCase_of_mem (personTargets_of_namesAnother hanother)
    simp [inUseCase, StoredSuspension.unnamed, htarget]
  · exact Iff.rfl

/-- Which stops a caller may be answered with. -/
theorem audience_conditions {useCase : CodePoints} {conditions : List (StoredSuspension → Truth)}
    {scope : CodePoints} (h : audience principal useCase = .ok (some (conditions, scope))) :
    (∀ c ∈ conditions, c = inUseCase useCase) ∨
      ∀ c ∈ conditions, c = concerning useCase principal := by
  unfold audience at h
  by_cases hall : ((principal.allows .incidentSuspend || principal.allows .anomalyReadAll) ||
      decide (principal.method = .demo)) = true
  · simp only [if_pos hall] at h
    have hsame : (if useCase ≠ [] then [inUseCase useCase] else []) = conditions :=
      (Prod.mk.inj (Option.some.inj (Except.ok.inj h))).1
    refine .inl fun c hc => ?_
    rw [← hsame] at hc
    split_ifs at hc
    · exact List.mem_singleton.mp hc
    · exact absurd hc List.not_mem_nil
  · simp only [if_neg hall] at h
    by_cases hasked : useCase = []
    · simp only [if_pos hasked] at h
      have herror : (Except.error incidentRoleRefusal :
          Except Refusal (Option (List (StoredSuspension → Truth) × CodePoints))) =
        .ok (some (conditions, scope)) := h
      exact absurd herror (by simp)
    · simp only [if_neg hasked] at h
      by_cases hbeyond : (visibleScope principal .anomalyReadAll).any (!·.contains useCase) = true
      · simp only [if_pos hbeyond] at h
        exact absurd (Except.ok.inj h) (by simp)
      · simp only [if_neg hbeyond] at h
        have hsame : [concerning useCase principal] = conditions :=
          (Prod.mk.inj (Option.some.inj (Except.ok.inj h))).1
        refine .inr fun c hc => ?_
        rw [← hsame] at hc
        exact List.mem_singleton.mp hc

include hpeople in
/-- **The stops are read from a blinded store as from the store itself.** -/
theorem listSuspensions_blindSuspension (now : ℤ) (useCase : CodePoints) :
    listSuspensions now true (suspensions.map (blindSuspension principal)) principal useCase =
      listSuspensions now true suspensions principal useCase := by
  have hsort : ∀ rows : List StoredSuspension,
      (rows.map (blindSuspension principal)).insertionSort StoredSuspension.newestFirst =
        (rows.insertionSort StoredSuspension.newestFirst).map (blindSuspension principal) := by
    intro rows
    refine (List.map_insertionSort StoredSuspension.newestFirst _ _ _ fun a _ b _ => ?_).symm
    obtain ⟨_, ha⟩ := blindSuspension_eq principal a
    obtain ⟨_, hb⟩ := blindSuspension_eq principal b
    rw [ha, hb]
    exact Iff.rfl
  have hforce : ∀ row, (blindSuspension principal row).inForce now = row.inForce now := by
    intro row
    obtain ⟨_, hrow⟩ := blindSuspension_eq principal row
    rw [hrow]
    rfl
  have hselect : ∀ conditions : List (StoredSuspension → Truth),
      (∀ c ∈ conditions, ∀ row, Selects (c (blindSuspension principal row)) ↔ Selects (c row)) →
      select conditions (suspensions.map (blindSuspension principal)) =
        (select conditions suspensions).map (blindSuspension principal) :=
    fun conditions h => select_map fun c hc row _ => h c hc row
  have haudience : ∀ conditions audience_, audience principal useCase =
      .ok (some (conditions, audience_)) →
      ∀ c ∈ conditions, ∀ row, Selects (c (blindSuspension principal row)) ↔ Selects (c row) := by
    intro conditions scope h c hc row
    obtain hconditions | hconditions := audience_conditions h
    · rw [hconditions c hc]
      exact selects_inUseCase_blindSuspension useCase row
    · rw [hconditions c hc]
      exact selects_concerning_blindSuspension useCase row
  unfold listSuspensions
  by_cases hvalid : useCase ≠ [] ∧ (!isValidUseCase useCase) = true
  · simp only [if_pos hvalid]
    rfl
  · simp only [if_neg hvalid]
    cases hplan : audience principal useCase with
    | error refusal => rfl
    | ok plan =>
      cases plan with
      | none => rfl
      | some plan =>
        obtain ⟨conditions, scope⟩ := plan
        have hstanding : ∀ c ∈ conditions ++ [fun row => row.inForce now], ∀ row,
            Selects (c (blindSuspension principal row)) ↔ Selects (c row) := by
          intro c hc row
          obtain hc | hc := List.mem_append.mp hc
          · exact haudience conditions scope hplan c hc row
          · rw [List.mem_singleton.mp hc]
            dsimp only
            rw [hforce]
        have hpast : ∀ c ∈ conditions ++ [fun row => Sql.not (row.inForce now)], ∀ row,
            Selects (c (blindSuspension principal row)) ↔ Selects (c row) := by
          intro c hc row
          obtain hc | hc := List.mem_append.mp hc
          · exact haudience conditions scope hplan c hc row
          · rw [List.mem_singleton.mp hc]
            dsimp only
            rw [hforce]
        refine congrArg Except.ok ?_
        simp only [hselect _ hstanding, hselect _ hpast, hsort, ← List.map_take, ← List.map_append,
          List.map_map, Function.comp_def, hpeople, Bool.not_false, Bool.and_self, Bool.true_and,
          asDict_blindSuspension]

end Findings

end Answers

/-! ### Nobody's reader -/

section Nameless

variable {principal : Principal} (mean : ℤ → ℕ → ℤ) (enforced : Bool) (store : ReadModel)
  (calendar : Calendar)

theorem subject_eq_nil (h : principal.person = []) : principal.subject = [] := by
  unfold Principal.person at h
  split at h
  · exact h
  · exact h
  · next name hne _ => exact absurd h hne

/-- A report about everything of the current month, as it is asked for by default. -/
theorem readQuery_default : readQuery calendar {} = .ok
    { start := calendar.monthStarts, stop := calendar.monthEnds, spreadsheet := none,
      granularity := none, split := .model } := by
  have hwindow : window calendar [] [] = .ok (calendar.monthStarts, calendar.monthEnds) := by
    have hbehind : ¬calendar.monthEnds ≤ calendar.monthStarts :=
      not_le.mpr calendar.monthStarts_lt
    have hwide : ¬maxWindow < calendar.monthEnds - calendar.monthStarts :=
      not_lt.mpr calendar.month_le
    have hbind : ∀ (moment : ℤ) (next : ℤ → Except Refusal (ℤ × ℤ)),
        (Except.ok moment >>= next) = next moment := fun _ _ => rfl
    unfold window
    simp only [ne_eq, not_true_eq_false, if_false, hbind, if_neg hbehind, if_neg hwide]
    rfl
  unfold readQuery
  rw [hwindow]
  rfl

/-- Whose figures an answer carries. -/
def namesShown : Except Refusal SpendAnswer → List CodePoints
  | .ok (.json report) => report.byPerson.map (·.key)
  | _ => []

/-- Somebody's request, in a use case that is shown. -/
def somebodys (principal : Principal) (name : CodePoints) : RequestLog where
  id := "1"
  createdAt := calendar.monthStarts
  subject := some name
  useCase := (visibleScope principal .reportReadAll).bind (·.head?)

/-- **A reader without a name is shown everybody's**: an empty name limits nothing. -/
theorem namesShown_of_nameless (hpeople : seesPeople principal = false)
    (hperson : principal.person = [])
    (hscope : visibleScope principal .reportReadAll ≠ some []) {name : CodePoints}
    (hname : name ≠ []) :
    namesShown (reporting calendar mean enforced store true
      [somebodys calendar principal name] principal {}) = [name] := by
  have hown : ownName principal = [] := by
    rw [ownName, hperson, if_neg (by simp), subject_eq_nil hperson]
  have hlimited : ∀ scope, peopleLimitedTo store true principal scope = some [] := by
    intro scope
    rw [peopleLimitedTo, if_pos rfl, hpeople, hown]
    rfl
  have hwindow : select (inWindow (visibleScope principal .reportReadAll) calendar.monthStarts
      calendar.monthEnds (some [])) [somebodys calendar principal name] =
        [somebodys calendar principal name] := by
    have hmonth := calendar.monthStarts_lt
    have hconditions : ∀ c ∈ inWindow (visibleScope principal .reportReadAll)
        calendar.monthStarts calendar.monthEnds (some []),
        Selects (c (somebodys calendar principal name)) := by
      unfold inWindow
      simp only [List.forall_mem_append, List.forall_mem_singleton]
      refine ⟨⟨by simp [Selects, somebodys, hmonth], by simp [Option.filter]⟩, ?_⟩
      intro c hc
      split at hc
      · exact absurd hc List.not_mem_nil
      · next h => exact absurd h hscope
      · next slugs hne h =>
        rw [List.mem_singleton.mp hc]
        cases slugs with
        | nil => exact absurd rfl hne
        | cons slug slugs => simp [somebodys, h]
    exact List.filter_eq_self.mpr fun row hrow => by
      rw [List.mem_singleton.mp hrow, List.all_eq_true]
      exact fun c hc => decide_eq_true (hconditions c hc)
  have hkeys : ∀ row : Measured,
      (personFigures mean [(some name, row)]).map (·.key) = [name] := by
    intro row
    have hgroups : groups [(some name, row)] = [(some name, [row])] := by
      simp [groups, List.eraseDups_cons]
    have hlabel : groupLabel (some name) = name := by simp [groupLabel, Option.filter, hname]
    simp [personFigures, grouped, hgroups, hlabel, figures, dictSet]
  have hbind : ∀ (asked : Asked) (answer : Asked → Except Refusal SpendAnswer),
      (Except.ok asked >>= answer) = answer asked := fun _ _ => rfl
  have hnarrowed : narrowedScope (visibleScope principal .reportReadAll) [] =
      (visibleScope principal .reportReadAll, true) := if_pos rfl
  unfold reporting
  rw [readQuery_default, hbind, hnarrowed]
  simp only [hlimited, Option.any_some, ne_eq, not_true_eq_false, decide_false, Bool.false_and,
    Bool.false_eq_true, if_false, if_true]
  have hpeopleShown : ∀ report : Report, (withoutLatencyPerPerson report).byPerson.map (·.key) =
      report.byPerson.map (·.key) := by
    intro report
    rw [withoutLatencyPerPerson, List.map_map]
    rfl
  refine (hpeopleShown _).trans ?_
  have hread : (report mean calendar.toClock [somebodys calendar principal name]
      (visibleScope principal .reportReadAll) calendar.monthStarts calendar.monthEnds none .model
      (some []) (some [])).byPerson = personFigures mean
        [(some name, measured (somebodys calendar principal name))] := by
    have hnobody : ((some ([] : CodePoints)).filter (· ≠ [])).or (some []) = some [] := rfl
    unfold report
    dsimp only
    rw [hnobody, hwindow]
    rfl
  rw [hread]
  exact hkeys _

end Nameless

/-! ### Two stores, one answer -/

section Noninterference

variable (parseCursor : CodePoints → Except Refusal (ℤ × CodePoints)) (calendar : Calendar)
  (mean : ℤ → ℕ → ℤ) (enforced : Bool) (store : ReadModel) (principal : Principal)

/-- No query of the reader's tells two stores apart under strict data mode. -/
structure SameAnswers (s t : Store) : Prop where
  traces : ∀ query, traces parseCursor store true s.rows principal query =
    traces parseCursor store true t.rows principal query
  details : ∀ rowId, traceDetail store true s.rows principal rowId =
    traceDetail store true t.rows principal rowId
  reporting : ∀ query, reporting calendar mean enforced store true s.rows principal query =
    reporting calendar mean enforced store true t.rows principal query
  findings : ∀ query, anomalies parseCursor store true s.events principal query =
    anomalies parseCursor store true t.events principal query
  suspensions : ∀ now useCase, listSuspensions now true s.suspensions principal useCase =
    listSuspensions now true t.suspensions principal useCase

/-- A reader without a name tells apart two stores that differ in who somebody else is. -/
theorem told_apart_of_nameless (hpeople : seesPeople principal = false)
    (hperson : principal.person = [])
    (hscope : visibleScope principal .reportReadAll ≠ some []) :
    ¬∀ s t, Agree principal s t → Unshared principal s → Unshared principal t →
      SameAnswers parseCursor calendar mean enforced store principal s t := by
  intro hsame
  have hothers : ∀ name : CodePoints, name ≠ [] → isOwnRequest principal
      (somebodys calendar principal name).subject
        (somebodys calendar principal name).username = false := by
    intro name hname
    simp [isOwnRequest, somebodys, subject_eq_nil hperson, hperson, hname]
  have hunshared : ∀ name, Unshared principal { rows := [somebodys calendar principal name] } := by
    intro name row _ caller hcaller _
    obtain ⟨hcaller, hne⟩ := mem_callerNames.mp hcaller
    rw [hperson, subject_eq_nil hperson, or_self] at hcaller
    exact absurd hcaller hne
  have hnames : ("alice" : CodePoints) ≠ [] ∧ ("bob" : CodePoints) ≠ [] := by decide
  have hagree : Agree principal { rows := [somebodys calendar principal "alice"] }
      { rows := [somebodys calendar principal "bob"] } :=
    { rows := .cons (.inr ⟨hothers _ hnames.1, hothers _ hnames.2, rfl⟩) .nil
      events := .nil
      suspensions := .nil }
  have hanswers := (hsame _ _ hagree (hunshared _) (hunshared _)).reporting {}
  have halice := namesShown_of_nameless mean enforced store calendar hpeople hperson hscope
    hnames.1
  have hbob := namesShown_of_nameless mean enforced store calendar hpeople hperson hscope
    hnames.2
  rw [hanswers, hbob] at halice
  exact absurd halice (by decide)

/-- **Strict data mode hides who**, exactly from a reader who has a name or is shown no use case. -/
theorem strict_data_hides_who_iff (hincident : principal.allows .incidentInvestigate = false) :
    (∀ s t, Agree principal s t → Unshared principal s → Unshared principal t →
      SameAnswers parseCursor calendar mean enforced store principal s t) ↔
    principal.person ≠ [] ∨ visibleScope principal .reportReadAll = some [] := by
  have hpeople : seesPeople principal = false := hincident
  constructor
  · intro hsame
    by_contra hneither
    obtain ⟨hperson, hscope⟩ := not_or.mp hneither
    exact told_apart_of_nameless parseCursor calendar mean enforced store principal hpeople
      (not_not.mp hperson) hscope hsame
  · intro hnamed s t hagree hs ht
    have hrows : s.rows.map (blindRow principal) = t.rows.map (blindRow principal) :=
      map_eq_of_forall₂ (fun _ _ h => h.blindRow_eq) hagree.rows
    have hevents : s.events.map (blindEvent principal) = t.events.map (blindEvent principal) :=
      map_eq_of_forall₂ (fun _ _ h => h.blindEvent_eq) hagree.events
    have hsuspensions : s.suspensions.map (blindSuspension principal) =
        t.suspensions.map (blindSuspension principal) :=
      map_eq_of_forall₂ (fun _ _ h => h.blindSuspension_eq) hagree.suspensions
    constructor
    · intro query
      rw [← traces_blindRow hpeople parseCursor store s.rows, hrows,
        traces_blindRow hpeople parseCursor store t.rows]
    · intro rowId
      rw [← traceDetail_blindRow hpeople store s.rows, hrows,
        traceDetail_blindRow hpeople store t.rows]
    · intro query
      rw [← reporting_blindRow hpeople mean hs hnamed, hrows,
        reporting_blindRow hpeople mean ht hnamed]
    · intro query
      rw [← anomalies_blindEvent hpeople parseCursor store s.events, hevents,
        anomalies_blindEvent hpeople parseCursor store t.events]
    · intro now useCase
      rw [← listSuspensions_blindSuspension hpeople s.suspensions, hsuspensions,
        listSuspensions_blindSuspension hpeople t.suspensions]

/-- A month of 31 days, on a clock nobody reads. -/
private def january : Calendar where
  utc := true
  name := "UTC"
  rendered := fun _ => "2026-01-01 00:00:00"
  zonedLabel := fun hour _ => hour
  axis := fun _ _ _ => []
  shown := fun _ => "2026-01-01T00:00:00+00:00"
  parse := fun _ _ => .error (invalidArgument "'from' is not an ISO-8601 timestamp.")
  monthStarts := 0
  monthEnds := 2678400000000
  hoursShown := fun _ => "744"
  monthStarts_lt := by decide
  month_le := by decide

/-- No cursor was handed out yet. -/
private def noCursor : CodePoints → Except Refusal (ℤ × CodePoints) :=
  fun _ => .error (invalidArgument "'cursor' is not a cursor from this endpoint.")

private def memberAnna : Principal :=
  { subject := "9f1c", method := .oidc, username := some "anna", useCases := ["assist"]
    grants := []
    grants_nodup := List.nodup_nil }

private def requestOf (name : CodePoints) : RequestLog :=
  { id := "1", createdAt := 0, subject := some name, useCase := some "assist" }

/-- A colleague's request could be anybody's. -/
theorem colleague_is_hidden : SameAnswers noCursor january (fun sum count => sum / count) true {}
    memberAnna { rows := [requestOf "bob"] } { rows := [requestOf "carol"] } := by
  have hunshared : ∀ name : CodePoints, name ∉ callerNames memberAnna →
      Unshared memberAnna { rows := [requestOf name] } := by
    intro name hname row hrow caller hcaller hnamed
    rw [List.mem_singleton.mp hrow] at hnamed
    have hsame : name = caller := by simpa [requestOf] using hnamed
    exact absurd (hsame ▸ hcaller) hname
  refine (strict_data_hides_who_iff noCursor january (fun sum count => sum / count) true {}
    memberAnna (by decide)).mpr (.inl (by decide)) _ _ ?_ (hunshared _ (by decide))
      (hunshared _ (by decide))
  exact
    { rows := .cons (.inr ⟨by decide, by decide, rfl⟩) .nil
      events := .nil
      suspensions := .nil }

/-- A key whose owner has no name, bound to a use case. -/
private def namelessKey : Principal :=
  { subject := [], method := .apiKey, username := some [], credential := some "aira_0123456789ab"
    useCases := ["assist"]
    grants := []
    grants_nodup := List.nodup_nil }

/-- **A key that names nobody is shown who called**: its own name, which is empty, limits no split
to anybody. -/
theorem nameless_reader_sees_who : ¬∀ s t, Agree namelessKey s t → Unshared namelessKey s →
    Unshared namelessKey t →
      SameAnswers noCursor january (fun sum count => sum / count) true {} namelessKey s t :=
  told_apart_of_nameless noCursor january _ true {} namelessKey (by decide) (by decide) (by decide)

end Noninterference

end AiraGateway.Reporting
