import AiraGateway.Consumer.Apply
import AiraGateway.Library.Table
import AiraGateway.Persistence.RequestLog

/-!
# What is kept of a request, and for how long

A row is written with its prompt and answer where storing is on (`mayStorePayloads`), and a pass of
the retention clears them: of each use case those older than its period, a period of zero where
storing is off, and of everything else those older than the installation's default (`prune`). A
second clock, off by default, removes whole rows.

* `prune_rows`: what a pass leaves of the rows, whatever order it reads the use cases in.
* `prune_again`: a second pass at the same time clears nothing.
-/

namespace AiraGateway.Reporting

/-- A day, in microseconds. -/
def dayLength : ℤ := 86400000000

/-- A stored request with what was said. `number` is how many rows were written before it. -/
structure StoredRequest extends RequestLog where
  number : ℕ := 0
  requestPayload : Option Json := none
  responsePayload : Option Json := none

def StoredRequest.hasPayload (row : StoredRequest) : Bool :=
  row.requestPayload.isSome || row.responsePayload.isSome

/-- A use case, as far as its content is stored. -/
structure UseCaseStorage where
  storePayloads : Bool := true
  retentionDays : ℤ := defaultRetentionDays
  deriving DecidableEq

abbrev StorageTable := Table CodePoints UseCaseStorage

/-- The use case of a row, where the read-model names it. -/
def StorageTable.recordOf (useCases : StorageTable) : Option CodePoints → Option UseCaseStorage
  | none => none
  | some slug => useCases slug

/-- A use case's period in days; none where storing is off. -/
def UseCaseStorage.period (record : UseCaseStorage) (default : ℤ) : Option ℤ :=
  if record.storePayloads then some (max 1 (orInt (some record.retentionDays) default)) else none

/-- The installation's two clocks, in days. -/
structure RetentionService where
  defaultRetentionDays : ℤ := 7
  logRetentionDays : ℤ := 0

/-! ### Writing -/

/-- Whether a request's content may be written at all. The installation wins, and a use case not
heard of has said nothing. -/
def mayStorePayloads (installation : Bool) (useCases : StorageTable) (useCase : Option CodePoints) :
    Bool :=
  if !installation then false
  else match useCase with
    | none => true
    | some slug => match useCases slug with
      | none => false
      | some record => record.storePayloads

/-- The row an entry is written as, `keep` being what is kept of a body. -/
def writtenRow (keep : Json → Json) (installation : Bool) (useCases : StorageTable)
    (entry : StoredRequest) : StoredRequest :=
  let store := mayStorePayloads installation useCases entry.useCase
  { entry with
    requestPayload := if store then entry.requestPayload.map keep else none
    responsePayload := if store then entry.responsePayload.map keep else none }

/-! ### A pass -/

/-- Strip the content of the rows an update names that are older than the cutoff, and count
them. -/
def clearPayloads (criterion : Option CodePoints → Bool) (cutoff : ℤ) (rows : List StoredRequest) :
    List StoredRequest × ℕ :=
  let named (row : StoredRequest) :=
    criterion row.useCase && row.createdAt < cutoff && row.hasPayload
  (rows.map fun row =>
    if named row then { row with requestPayload := none, responsePayload := none } else row,
    (rows.filter named).length)

/-- The rows of one use case. -/
def ofUseCase (slug : CodePoints) (useCase : Option CodePoints) : Bool := useCase = some slug

/-- The rows of no use case, or of one the read-model does not name. -/
def ofUnknown (known : List CodePoints) (useCase : Option CodePoints) : Bool :=
  match useCase with
  | none => true
  | some slug => slug ∉ known

structure PruneResult where
  payloadsCleared : ℕ
  rowsDeleted : ℕ
  deriving DecidableEq

namespace RetentionService

variable (service : RetentionService)

/-- The default the service works with: a day at least. -/
def default : ℤ := max 1 service.defaultRetentionDays

/-- Retention period per use case, in the order they are read; none where storing is off. -/
def periods (useCases : StorageTable) (listed : List CodePoints) :
    List (CodePoints × Option ℤ) :=
  listed.filterMap fun slug => (useCases slug).map fun record =>
    (slug, record.period service.default)

/-- What is older than a period at a time. -/
def cutoff (now : ℤ) : Option ℤ → ℤ
  | none => now
  | some days => now - days * dayLength

/-- The use cases one after the other. -/
def pruneEach (now : ℤ) : List (CodePoints × Option ℤ) → List StoredRequest →
    List StoredRequest × ℕ
  | [], rows => (rows, 0)
  | (slug, days) :: rest, rows =>
    let (rows, cleared) := clearPayloads (ofUseCase slug) (cutoff now days) rows
    let (rows, more) := pruneEach now rest rows
    (rows, cleared + more)

/-- Remove the content past its retention, and the rows past the record retention. -/
def prune (useCases : StorageTable) (listed : List CodePoints) (now : ℤ)
    (rows : List StoredRequest) : List StoredRequest × PruneResult :=
  let periods := service.periods useCases listed
  let (rows, cleared) := pruneEach now periods rows
  let (rows, unknown) :=
    clearPayloads (ofUnknown (periods.map (·.1))) (cutoff now (some service.default)) rows
  -- off unless it is set
  let expired (row : StoredRequest) : Bool :=
    0 < service.logRetentionDays && row.createdAt < cutoff now (some service.logRetentionDays)
  (rows.filter fun row => !expired row, ⟨cleared + unknown, (rows.filter expired).length⟩)

end RetentionService

/-! ### What a pass leaves -/

/-- A list a query may read the use cases in: each known one once. -/
structure Lists (listed : List CodePoints) (useCases : StorageTable) : Prop where
  nodup : listed.Nodup
  mem_iff : ∀ slug, slug ∈ listed ↔ (useCases slug).isSome

namespace RetentionService

variable (service : RetentionService)

/-- The period a row is kept for; none where storing is off. -/
def periodOf (useCases : StorageTable) (useCase : Option CodePoints) : Option ℤ :=
  match useCases.recordOf useCase with
  | none => some service.default
  | some record => record.period service.default

/-- A row older than its period at a time. -/
def IsPast (useCases : StorageTable) (now : ℤ) (row : StoredRequest) : Prop :=
  row.createdAt < cutoff now (service.periodOf useCases row.useCase)

instance (useCases : StorageTable) (now : ℤ) (row : StoredRequest) :
    Decidable (service.IsPast useCases now row) :=
  inferInstanceAs (Decidable (_ < _))

/-- A row past the record retention, where that is set. -/
def IsExpired (now : ℤ) (row : StoredRequest) : Prop :=
  0 < service.logRetentionDays ∧ row.createdAt < cutoff now (some service.logRetentionDays)

instance (now : ℤ) (row : StoredRequest) : Decidable (service.IsExpired now row) :=
  inferInstanceAs (Decidable (_ ∧ _))

end RetentionService

/-- A row without what was said. -/
def StoredRequest.cleared (row : StoredRequest) : StoredRequest :=
  { row with requestPayload := none, responsePayload := none }

@[simp] theorem StoredRequest.cleared_hasPayload (row : StoredRequest) :
    row.cleared.hasPayload = false := rfl

@[simp] theorem StoredRequest.cleared_useCase (row : StoredRequest) :
    row.cleared.useCase = row.useCase := rfl

@[simp] theorem StoredRequest.cleared_createdAt (row : StoredRequest) :
    row.cleared.createdAt = row.createdAt := rfl

@[simp] theorem StoredRequest.cleared_number (row : StoredRequest) :
    row.cleared.number = row.number := rfl

@[simp] theorem StoredRequest.cleared_cleared (row : StoredRequest) :
    row.cleared.cleared = row.cleared := rfl

/-- Clearing a row that has nothing leaves it. -/
theorem StoredRequest.cleared_of_no_payload {row : StoredRequest} (h : row.hasPayload = false) :
    row.cleared = row := by
  obtain ⟨log, number, request, response⟩ := row
  cases request with
  | some body => simp [StoredRequest.hasPayload] at h
  | none => cases response with
    | some body => simp [StoredRequest.hasPayload] at h
    | none => rfl

/-- A condition clears a row it names and no other. -/
def clearedIf (named : Prop) [Decidable named] (row : StoredRequest) : StoredRequest :=
  if named then row.cleared else row

theorem clearPayloads_rows (criterion : Option CodePoints → Bool) (cutoff : ℤ)
    (rows : List StoredRequest) :
    (clearPayloads criterion cutoff rows).1 = rows.map fun row =>
      clearedIf (criterion row.useCase = true ∧ row.createdAt < cutoff) row := by
  refine List.map_congr_left fun row _ => ?_
  by_cases hpayload : row.hasPayload = true
  · simp [clearedIf, hpayload, StoredRequest.cleared]
  · have hnone := StoredRequest.cleared_of_no_payload (Bool.eq_false_iff.mpr hpayload)
    simp [clearedIf, hpayload, hnone]

@[simp] theorem clearedIf_useCase (named : Prop) [Decidable named] (row : StoredRequest) :
    (clearedIf named row).useCase = row.useCase := by
  rw [clearedIf]
  split <;> rfl

@[simp] theorem clearedIf_createdAt (named : Prop) [Decidable named] (row : StoredRequest) :
    (clearedIf named row).createdAt = row.createdAt := by
  rw [clearedIf]
  split <;> rfl

@[simp] theorem clearedIf_number (named : Prop) [Decidable named] (row : StoredRequest) :
    (clearedIf named row).number = row.number := by
  rw [clearedIf]
  split <;> rfl

theorem clearedIf_congr {named other : Prop} [Decidable named] [Decidable other]
    (h : named ↔ other) (row : StoredRequest) : clearedIf named row = clearedIf other row := by
  simp only [clearedIf, h]

theorem clearedIf_or (named other : Prop) [Decidable named] [Decidable other]
    (row : StoredRequest) :
    clearedIf other (clearedIf named row) = clearedIf (named ∨ other) row := by
  by_cases hnamed : named
  · by_cases hother : other <;> simp [clearedIf, hnamed, hother]
  · simp [clearedIf, hnamed]

/-- Clearing again what is cleared changes nothing. -/
theorem clearPayloads_of_none {criterion : Option CodePoints → Bool} {cutoff : ℤ}
    {rows : List StoredRequest}
    (h : ∀ row ∈ rows, criterion row.useCase = true → row.createdAt < cutoff →
      row.hasPayload = false) :
    clearPayloads criterion cutoff rows = (rows, 0) := by
  have hunnamed : ∀ row ∈ rows,
      (criterion row.useCase && row.createdAt < cutoff && row.hasPayload) = false := by
    intro row hrow
    by_cases hnamed : criterion row.useCase = true ∧ row.createdAt < cutoff
    · simp [h row hrow hnamed.1 hnamed.2]
    · simp only [Bool.and_eq_false_iff]
      by_cases hcriterion : criterion row.useCase = true
      · exact .inl (.inr (by simpa [hcriterion] using hnamed))
      · exact .inl (.inl (by simpa using hcriterion))
  rw [clearPayloads]
  refine Prod.ext ?_ ?_
  · refine (List.map_congr_left fun row hrow => ?_).trans (List.map_id _)
    simp [hunnamed row hrow]
  · rw [List.length_eq_zero_iff, List.filter_eq_nil_iff]
    intro row hrow
    simp [hunnamed row hrow]

namespace RetentionService

variable (service : RetentionService)

/-- Whether a period of a list is a row's, and over. -/
def PastOneOf (now : ℤ) (periods : List (CodePoints × Option ℤ)) (row : StoredRequest) : Prop :=
  ∃ period ∈ periods, row.useCase = some period.1 ∧ row.createdAt < cutoff now period.2

instance (now : ℤ) (periods : List (CodePoints × Option ℤ)) (row : StoredRequest) :
    Decidable (PastOneOf now periods row) :=
  inferInstanceAs (Decidable (∃ period ∈ periods, _))

theorem pruneEach_rows (now : ℤ) (periods : List (CodePoints × Option ℤ))
    (rows : List StoredRequest) :
    (pruneEach now periods rows).1 = rows.map fun row =>
      clearedIf (PastOneOf now periods row) row := by
  induction periods generalizing rows with
  | nil => simp [pruneEach, PastOneOf, clearedIf]
  | cons period rest ih =>
    obtain ⟨slug, days⟩ := period
    have hstep : (pruneEach now ((slug, days) :: rest) rows).1
        = (pruneEach now rest (clearPayloads (ofUseCase slug) (cutoff now days) rows).1).1 := rfl
    rw [hstep, ih, clearPayloads_rows, List.map_map]
    refine List.map_congr_left fun row _ => ?_
    have hcases : PastOneOf now ((slug, days) :: rest) row
        ↔ (ofUseCase slug row.useCase = true ∧ row.createdAt < cutoff now days)
          ∨ PastOneOf now rest row := by
      simp [PastOneOf, ofUseCase]
    have hsame : PastOneOf now rest (clearedIf (ofUseCase slug row.useCase = true
        ∧ row.createdAt < cutoff now days) row) ↔ PastOneOf now rest row := by
      simp [PastOneOf]
    rw [Function.comp_apply, clearedIf_congr hsame, clearedIf_or]
    exact clearedIf_congr hcases.symm _

/-- What is read of the use cases is what their periods are. -/
theorem mem_periods_iff {useCases : StorageTable} {listed : List CodePoints}
    (hlisted : Lists listed useCases) {slug : CodePoints} {days : Option ℤ} :
    (slug, days) ∈ service.periods useCases listed
      ↔ (useCases slug).isSome ∧ service.periodOf useCases (some slug) = days := by
  have hmem := hlisted.mem_iff slug
  simp only [periods, List.mem_filterMap, Option.map_eq_some_iff, Prod.mk.injEq, periodOf,
    StorageTable.recordOf]
  constructor
  · rintro ⟨other, hother, record, hrecord, rfl, hdays⟩
    refine ⟨hmem.mp hother, ?_⟩
    rw [hrecord]
    exact hdays
  · rintro ⟨hsome, hdays⟩
    obtain ⟨record, hrecord⟩ := Option.isSome_iff_exists.mp hsome
    rw [hrecord] at hdays
    exact ⟨slug, hmem.mpr hsome, record, hrecord, rfl, hdays⟩

theorem mem_known_iff {useCases : StorageTable} {listed : List CodePoints}
    (hlisted : Lists listed useCases) {slug : CodePoints} :
    slug ∈ (service.periods useCases listed).map (·.1) ↔ (useCases slug).isSome := by
  rw [List.mem_map]
  constructor
  · rintro ⟨⟨other, days⟩, hperiod, rfl⟩
    exact ((service.mem_periods_iff hlisted).mp hperiod).1
  · intro hsome
    exact ⟨(slug, _), (service.mem_periods_iff hlisted).mpr ⟨hsome, rfl⟩, rfl⟩

/-- Clearing moves a row on no clock. -/
@[simp] theorem isPast_clearedIf (useCases : StorageTable) (now : ℤ) (named : Prop)
    [Decidable named] (row : StoredRequest) :
    service.IsPast useCases now (clearedIf named row) ↔ service.IsPast useCases now row := by
  rw [IsPast, clearedIf_createdAt, clearedIf_useCase, ← IsPast]

@[simp] theorem isExpired_clearedIf (now : ℤ) (named : Prop) [Decidable named]
    (row : StoredRequest) :
    service.IsExpired now (clearedIf named row) ↔ service.IsExpired now row := by
  rw [IsExpired, clearedIf_createdAt, ← IsExpired]

/-- The rows of a known use case are cleared with it, and the others at the end. -/
theorem past_iff {useCases : StorageTable} {listed : List CodePoints}
    (hlisted : Lists listed useCases) (now : ℤ) (row : StoredRequest) :
    (PastOneOf now (service.periods useCases listed) row
        ∨ ofUnknown ((service.periods useCases listed).map (·.1)) row.useCase = true
          ∧ row.createdAt < cutoff now (some service.default))
      ↔ service.IsPast useCases now row := by
  rw [PastOneOf, IsPast]
  cases hcase : row.useCase with
  | none => simp [ofUnknown, periodOf, StorageTable.recordOf]
  | some slug =>
    simp only [ofUnknown, Option.some.injEq, decide_eq_true_eq, service.mem_known_iff hlisted]
    by_cases hknown : (useCases slug).isSome
    · have hone : (∃ period ∈ service.periods useCases listed,
            slug = period.1 ∧ row.createdAt < cutoff now period.2)
          ↔ row.createdAt < cutoff now (service.periodOf useCases (some slug)) := by
        constructor
        · rintro ⟨⟨other, days⟩, hperiod, rfl, hpast⟩
          rw [((service.mem_periods_iff hlisted).mp hperiod).2]
          exact hpast
        · intro hpast
          exact ⟨(slug, _), (service.mem_periods_iff hlisted).mpr ⟨hknown, rfl⟩, rfl, hpast⟩
      simp [hone, hknown]
    · have hnone : useCases slug = none := by simpa using hknown
      have hunread : ¬ ∃ period ∈ service.periods useCases listed,
          slug = period.1 ∧ row.createdAt < cutoff now period.2 := by
        rintro ⟨⟨other, days⟩, hperiod, rfl, -⟩
        exact hknown ((service.mem_periods_iff hlisted).mp hperiod).1
      simp [hunread, periodOf, StorageTable.recordOf, hnone]

/-- **What a pass leaves**: the rows within the record retention, without content where they are
past their period, and as they are where they are not. -/
theorem prune_rows {useCases : StorageTable} {listed : List CodePoints}
    (hlisted : Lists listed useCases) (now : ℤ) (rows : List StoredRequest) :
    (service.prune useCases listed now rows).1
      = (rows.filter fun row => ¬ service.IsExpired now row).map fun row =>
          clearedIf (service.IsPast useCases now row) row := by
  have hcleared : (clearPayloads
        (ofUnknown ((service.periods useCases listed).map (·.1)))
        (cutoff now (some service.default))
        (pruneEach now (service.periods useCases listed) rows).1).1
      = rows.map fun row => clearedIf (service.IsPast useCases now row) row := by
    rw [pruneEach_rows, clearPayloads_rows, List.map_map]
    refine List.map_congr_left fun row _ => ?_
    have hsame : (ofUnknown ((service.periods useCases listed).map (·.1))
            (clearedIf (PastOneOf now (service.periods useCases listed) row) row).useCase = true
          ∧ (clearedIf (PastOneOf now (service.periods useCases listed) row) row).createdAt
            < cutoff now (some service.default))
        ↔ (ofUnknown ((service.periods useCases listed).map (·.1)) row.useCase = true
          ∧ row.createdAt < cutoff now (some service.default)) := by
      simp
    rw [Function.comp_apply, clearedIf_congr hsame, clearedIf_or]
    exact clearedIf_congr (service.past_iff hlisted now row) _
  have hprune : (service.prune useCases listed now rows).1
      = (clearPayloads (ofUnknown ((service.periods useCases listed).map (·.1)))
          (cutoff now (some service.default))
          (pruneEach now (service.periods useCases listed) rows).1).1.filter
        fun row => ¬ service.IsExpired now row := by
    refine List.filter_congr fun row _ => ?_
    rw [Bool.eq_iff_iff]
    simp [IsExpired]
  rw [hprune, hcleared, List.filter_map]
  refine congrArg _ (List.filter_congr fun row _ => ?_)
  simp

theorem pruneEach_of_none {now : ℤ} {periods : List (CodePoints × Option ℤ)}
    {rows : List StoredRequest}
    (h : ∀ row ∈ rows, PastOneOf now periods row → row.hasPayload = false) :
    pruneEach now periods rows = (rows, 0) := by
  induction periods with
  | nil => rfl
  | cons period rest ih =>
    have hfirst : clearPayloads (ofUseCase period.1) (cutoff now period.2) rows = (rows, 0) := by
      refine clearPayloads_of_none fun row hrow hcase hpast => ?_
      exact h row hrow ⟨period, List.mem_cons_self, by simpa [ofUseCase] using hcase, hpast⟩
    have hrest := ih fun row hrow ⟨other, hother, hpast⟩ =>
      h row hrow ⟨other, List.mem_cons_of_mem _ hother, hpast⟩
    obtain ⟨slug, days⟩ := period
    simp only [pruneEach, hfirst, hrest]

/-- Where no row past its period has content, and none is past the record retention, a pass
changes nothing. -/
theorem prune_of_none {useCases : StorageTable} {listed : List CodePoints}
    (hlisted : Lists listed useCases) {now : ℤ} {rows : List StoredRequest}
    (hpast : ∀ row ∈ rows, service.IsPast useCases now row → row.hasPayload = false)
    (hexpired : ∀ row ∈ rows, ¬ service.IsExpired now row) :
    service.prune useCases listed now rows = (rows, ⟨0, 0⟩) := by
  have heach : pruneEach now (service.periods useCases listed) rows = (rows, 0) :=
    pruneEach_of_none fun row hrow hone =>
      hpast row hrow ((service.past_iff hlisted now row).mp (.inl hone))
  have hunknown : clearPayloads (ofUnknown ((service.periods useCases listed).map (·.1)))
      (cutoff now (some service.default)) rows = (rows, 0) :=
    clearPayloads_of_none fun row hrow hcase hold =>
      hpast row hrow ((service.past_iff hlisted now row).mp (.inr ⟨hcase, hold⟩))
  have hkept : ∀ row ∈ rows, (0 < service.logRetentionDays
      && row.createdAt < cutoff now (some service.logRetentionDays) : Bool) = false := by
    intro row hrow
    have hstays := hexpired row hrow
    rw [Bool.eq_false_iff]
    intro hgoes
    exact hstays (by simpa [IsExpired] using hgoes)
  rw [prune, heach]
  simp only [hunknown]
  refine Prod.ext ?_ ?_
  · rw [List.filter_eq_self]
    intro row hrow
    simp [hkept row hrow]
  · have hnone : (rows.filter fun row => (0 < service.logRetentionDays
        && row.createdAt < cutoff now (some service.logRetentionDays) : Bool)) = [] := by
      rw [List.filter_eq_nil_iff]
      intro row hrow
      simp [hkept row hrow]
    simp [hnone]

/-- **A second pass at the same time clears nothing**, whatever order it reads in. -/
theorem prune_again {useCases : StorageTable} {listed again : List CodePoints}
    (hlisted : Lists listed useCases) (hagain : Lists again useCases) (now : ℤ)
    (rows : List StoredRequest) :
    service.prune useCases again now (service.prune useCases listed now rows).1
      = ((service.prune useCases listed now rows).1, ⟨0, 0⟩) := by
  have hleft : ∀ row ∈ (service.prune useCases listed now rows).1,
      ∃ before, ¬ service.IsExpired now before
        ∧ clearedIf (service.IsPast useCases now before) before = row := by
    intro row hrow
    rw [service.prune_rows hlisted, List.mem_map] at hrow
    obtain ⟨before, hbefore, rfl⟩ := hrow
    exact ⟨before, by simpa using (List.mem_filter.mp hbefore).2, rfl⟩
  refine service.prune_of_none hagain (fun row hrow hpast => ?_) fun row hrow => ?_
  · obtain ⟨before, -, rfl⟩ := hleft row hrow
    have hbefore : service.IsPast useCases now before := by simpa using hpast
    simp [clearedIf, hbefore]
  · obtain ⟨before, hstays, rfl⟩ := hleft row hrow
    simpa using hstays

end RetentionService

end AiraGateway.Reporting
