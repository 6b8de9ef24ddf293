import AiraGateway.Library.Dict
import AiraGateway.Reporting.Traces

/-!
# Spend and usage over the request log

A report adds up the rows of one window: in total, by use case, model, member, outcome and person,
and bucket by bucket. Every query reads of a row the columns its figures are computed from
(`Measured`) and the column it groups by, and nothing else.
-/

namespace AiraGateway.Reporting

open Sql

/-! ### Figures -/

/-- The columns the figures are computed from, and those a breakdown of them groups by. -/
structure Measured where
  createdAt : ℤ
  useCase : Option CodePoints
  model : CodePoints
  outcome : Option CodePoints
  authMethod : CodePoints
  usageBasis : Option CodePoints
  promptTokens : Option ℤ
  completionTokens : Option ℤ
  cachedInputTokens : Option ℤ
  totalTokens : Option ℤ
  costNanos : Option ℤ
  latencyMs : Option ℤ

def measured (row : RequestLog) : Measured where
  createdAt := row.createdAt
  useCase := row.useCase
  model := row.model
  outcome := row.outcome
  authMethod := row.authMethod
  usageBasis := row.usageBasis
  promptTokens := row.promptTokens
  completionTokens := row.completionTokens
  cachedInputTokens := row.cachedInputTokens
  totalTokens := row.totalTokens
  costNanos := row.costNanos
  latencyMs := row.latencyMs

/-- The figures that add up. -/
structure Sums where
  requests : ℕ := 0
  promptTokens : ℤ := 0
  completionTokens : ℤ := 0
  cachedInputTokens : ℤ := 0
  totalTokens : ℤ := 0
  costNanos : ℤ := 0
  unpricedRequests : ℕ := 0
  unmeteredRequests : ℕ := 0
  partialUsageRequests : ℕ := 0
  failedRequests : ℕ := 0

def Sums.add (a b : Sums) : Sums where
  requests := a.requests + b.requests
  promptTokens := a.promptTokens + b.promptTokens
  completionTokens := a.completionTokens + b.completionTokens
  cachedInputTokens := a.cachedInputTokens + b.cachedInputTokens
  totalTokens := a.totalTokens + b.totalTokens
  costNanos := a.costNanos + b.costNanos
  unpricedRequests := a.unpricedRequests + b.unpricedRequests
  unmeteredRequests := a.unmeteredRequests + b.unmeteredRequests
  partialUsageRequests := a.partialUsageRequests + b.partialUsageRequests
  failedRequests := a.failedRequests + b.failedRequests

/-- How long requests took. -/
structure Latency where
  average : Option ℤ
  longest : Option ℤ

/-- One row of the report: a group, and what happened in it. A row may be sent without how long it
took. -/
structure Figures extends Sums where
  key : CodePoints
  latency : Option Latency

def diagnosticOutcome : CodePoints := "diagnostic"

/-- The outcomes that are a failure to serve. -/
def failures : List CodePoints := ["internal_error", "upstream_error"]

/-- Whether a row describes a request that ran; an old row says nothing and did. -/
def wasServed (row : Measured) : Bool := row.outcome = some servedOutcome || row.outcome.isNone

/-- What is there of a column, added up. -/
def summed (column : Measured → Option ℤ) (rows : List Measured) : ℤ :=
  (rows.filterMap column).foldl (· + ·) 0

def sums (rows : List Measured) : Sums where
  requests := rows.countP fun row => row.outcome ≠ some diagnosticOutcome
  promptTokens := summed (·.promptTokens) rows
  completionTokens := summed (·.completionTokens) rows
  cachedInputTokens := summed (·.cachedInputTokens) rows
  totalTokens := summed (·.totalTokens) rows
  costNanos := summed (·.costNanos) rows
  unpricedRequests := rows.countP fun row => row.costNanos.isNone && wasServed row
  unmeteredRequests := rows.countP fun row =>
    row.costNanos.isNone && row.totalTokens.isNone && wasServed row
  partialUsageRequests := rows.countP (·.usageBasis.isSome)
  failedRequests := rows.countP fun row => row.outcome.any fun outcome => failures.contains outcome

/-! ### Groups -/

/-- The label of a group that has none. -/
def noneLabel : CodePoints := "(none)"

def groupLabel (key : Option CodePoints) : CodePoints := (key.filter (· ≠ [])).getD noneLabel

/-- The groups of a query, in the order of their first rows. -/
def groups {κ : Type} [DecidableEq κ] (rows : List (κ × Measured)) : List (κ × List Measured) :=
  (rows.map (·.1)).eraseDups.map fun key =>
    (key, (rows.filter fun row => decide (row.1 = key)).map (·.2))

/-- Biggest first. -/
def costsMore (a b : Figures) : Prop := b.costNanos ≤ a.costNanos

instance : DecidableRel costsMore := fun _ _ => inferInstanceAs (Decidable (_ ≤ _))

/-- The order the bands of a chart are given their places in. -/
def busier (a b : Figures) : Prop :=
  b.costNanos < a.costNanos ∨ b.costNanos = a.costNanos ∧
    (b.requests < a.requests ∨ b.requests = a.requests ∧
      (b.totalTokens < a.totalTokens ∨ b.totalTokens = a.totalTokens ∧ a.key ≤ b.key))

instance : DecidableRel busier := fun _ _ =>
  inferInstanceAs (Decidable (_ ∨ _ ∧ (_ ∨ _ ∧ (_ ∨ _ ∧ _))))

/-! ### The window -/

/-- `requestPerson` as a condition of a query. -/
def requestPersonIs (person : CodePoints) (row : RequestLog) : Truth :=
  or (eq row.username person)
    (and (or (isNull row.username) (eq row.username [])) (eq row.subject person))

/-- Which rows a report is about: those of a time, of one person where one is named, and of the use
cases that are shown. -/
def inWindow (scope : Scope) (start stop : ℤ) (person : Option CodePoints) :
    List (RequestLog → Truth) :=
  [fun row => some (decide (start ≤ row.createdAt) && decide (row.createdAt < stop))] ++
    (person.filter (· ≠ [])).toList.map requestPersonIs ++
    match scope with
    | none => []
    -- none at all: a condition no row meets, so that the report keeps its shape
    | some [] => [fun row => and (isNull row.useCase) (isNotNull row.useCase)]
    | some slugs => [fun row => isIn row.useCase slugs]

/-! ### Buckets -/

inductive Granularity
  | day
  | hour
  deriving DecidableEq, Repr

/-- How much of a rendered moment names its bucket. -/
def Granularity.width : Granularity → ℕ
  | day => 10
  | hour => 13

/-- What a series is split into bands by. -/
inductive Split
  | model
  | useCase
  | outcome
  deriving DecidableEq, Repr

namespace Split

def value : Split → CodePoints
  | model => "model"
  | useCase => "use_case"
  | outcome => "outcome"

def column : Split → Measured → Option CodePoints
  | model, row => some row.model
  | useCase, row => row.useCase
  | outcome, row => row.outcome

end Split

/-- Where the tail of the bands goes. -/
def otherLabel : CodePoints := "(other)"

def defaultTop : ℕ := 7

/-- A row's band, with everything that is not kept folded. -/
def band (split : Split) (kept : List CodePoints) (row : Measured) : CodePoints :=
  let named := groupLabel (split.column row)
  if kept = [] then named else if kept.contains named then named else otherLabel

/-- The installation's clock. -/
structure Clock where
  utc : Bool
  name : CodePoints
  /-- A moment as the database renders it, in UTC. -/
  rendered : ℤ → CodePoints
  /-- The label on this clock of an hour the database rendered. -/
  zonedLabel : CodePoints → Granularity → CodePoints
  /-- Every bucket of a window, the empty ones too. -/
  axis : ℤ → ℤ → Granularity → List CodePoints
  /-- A moment as a report states it. -/
  shown : ℤ → CodePoints

/-- A label as the database rendered it, as the axis writes it. -/
def normalise (rendered : CodePoints) (granularity : Granularity) : CodePoints :=
  (rendered.take granularity.width).map fun c => if c = 0x20 then 0x54 else c

/-- One bucket's share of one band. -/
structure Point extends Figures where
  bucket : CodePoints

/-- What is added up over the hours of one of the installation's buckets. -/
structure Folded extends Sums where
  latencySum : ℤ := 0
  latencyCount : ℕ := 0
  longest : Option ℤ := none

/-- The period bucket by bucket, each split into bands. -/
structure Series where
  granularity : Granularity
  split : Split
  timeZone : CodePoints
  buckets : List CodePoints
  keys : List CodePoints
  folded : Bool
  points : List Point

/-- One person's figures, and the shares of their credentials. -/
structure PersonFigures extends Figures where
  byMethod : List (CodePoints × Figures)

/-- Totals and breakdowns over a window. -/
structure Report where
  start : CodePoints
  stop : CodePoints
  timeZone : CodePoints
  totals : Figures
  byUseCase : List Figures
  byModel : List Figures
  byMember : List Figures
  byOutcome : List Figures
  byPerson : List PersonFigures
  series : Option Series

section Queries

-- a sum divided by a count, rounded
variable (mean : ℤ → ℕ → ℤ)

def latency (rows : List Measured) : Latency :=
  let known := rows.filterMap (·.latencyMs)
  { average := if known.isEmpty then none else some (mean (known.foldl (· + ·) 0) known.length)
    longest := known.max? }

def figures (key : CodePoints) (rows : List Measured) : Figures :=
  { sums rows with key := key, latency := some (latency mean rows) }

def grouped (rows : List (Option CodePoints × Measured)) : List Figures :=
  ((groups rows).map fun (key, rows) => figures mean (groupLabel key) rows).insertionSort costsMore

/-- Each person's figures, with their credentials' shares apart and together. -/
def personFigures (rows : List (Option CodePoints × Measured)) : List PersonFigures :=
  let totals := (grouped mean rows).foldl
    (fun totals figures => dictSet totals figures.key figures) []
  let split := (groups (rows.map fun (key, row) => ((key, row.authMethod), row))).foldl
    (fun split ((key, method), rows) =>
      let label := groupLabel key
      let methods := (dictGet split label).getD []
      dictSet split label
        (dictSet methods (groupLabel (some method)) (figures mean label rows)))
    ([] : List (CodePoints × List (CodePoints × Figures)))
  totals.map fun (key, figures) =>
    { figures with byMethod := (dictGet split key).getD [] }

variable (clock : Clock)

/-- The database's buckets of a series, each with its band and its rows, in order. -/
def bucketed (granularity : Granularity) (split : Split) (kept : List CodePoints)
    (rows : List Measured) : List ((CodePoints × CodePoints) × List Measured) :=
  (groups (rows.map fun row =>
    (((clock.rendered row.createdAt).take granularity.width, band split kept row), row))
  ).insertionSort fun a b => a.1.1 ≤ b.1.1

/-- An hour added to what was folded before it. -/
def Folded.add (folded : Folded) (rows : List Measured) : Folded :=
  let known := rows.filterMap (·.latencyMs)
  { folded.toSums.add (sums rows) with
    latencySum := folded.latencySum + known.foldl (· + ·) 0
    latencyCount := folded.latencyCount + known.length
    longest := match known.max? with
      | none => folded.longest
      | some longest => some (max (folded.longest.getD 0) longest) }

/-- The points on a clock other than UTC: counted by the hour, folded into its days or hours. -/
def zonedPoints (granularity : Granularity) (split : Split) (kept : List CodePoints)
    (rows : List Measured) : List Point :=
  let folded := (bucketed clock .hour split kept rows).foldl
    (fun (dict : List ((CodePoints × CodePoints) × Folded)) ((bucket, key), rows) =>
      let place := (clock.zonedLabel bucket granularity, key)
      dictSet dict place (((dictGet dict place).getD {}).add rows)) []
  folded.map fun ((bucket, key), point) =>
    { point.toSums with
      bucket := bucket
      key := key
      latency := some
        { average :=
            if point.latencyCount = 0 then none
            else some (mean point.latencySum point.latencyCount)
          longest := point.longest } }

def seriesPoints (granularity : Granularity) (split : Split) (kept : List CodePoints)
    (rows : List Measured) : List Point :=
  if clock.utc then
    (bucketed clock granularity split kept rows).map fun ((bucket, key), rows) =>
      { figures mean key rows with bucket := normalise bucket granularity }
  else zonedPoints mean clock granularity split kept rows

/-- The series of a window; which bands keep their place is decided by the breakdown of the same
rows. -/
def series (start stop : ℤ) (granularity : Granularity) (split : Split)
    (rows : List Measured) : Series :=
  let ranked := grouped mean (rows.map fun row => (split.column row, row))
  let order := ranked.insertionSort busier
  let kept := (order.take defaultTop).map (·.key)
  let folded := decide (defaultTop < order.length)
  let points := seriesPoints mean clock granularity split kept rows
  let axis := clock.axis start stop granularity
  -- nothing is dropped for being off the axis
  let beside := ((points.map (·.bucket)).eraseDups.filter (!axis.contains ·)).insertionSort (· ≤ ·)
  { granularity := granularity
    split := split
    timeZone := clock.name
    buckets := axis ++ beside
    keys := if folded then kept ++ [otherLabel] else kept
    folded := folded
    points := points }

/-- Totals and breakdowns for a scope. A person narrows the whole report; a limit narrows the two
splits keyed on a human, and nothing else. -/
def report (rows : List RequestLog) (scope : Scope) (start stop : ℤ)
    (granularity : Option Granularity) (split : Split) (person limited : Option CodePoints) :
    Report :=
  let window := fun person => select (inWindow scope start stop person) rows
  let read := (window person).map measured
  let byColumn := fun column : Measured → Option CodePoints =>
    grouped mean (read.map fun row => (column row, row))
  { start := clock.shown start
    stop := clock.shown stop
    timeZone := clock.name
    totals := figures mean "total" read
    byUseCase := byColumn Split.useCase.column
    byModel := byColumn Split.model.column
    byMember := grouped mean ((window limited).map fun row => (row.subject, measured row))
    byOutcome := byColumn Split.outcome.column
    byPerson := personFigures mean
      ((window ((limited.filter (· ≠ [])).or person)).map fun row =>
        (requestPerson row, measured row))
    series := granularity.map fun granularity =>
      series mean clock start stop granularity split read }

end Queries

end AiraGateway.Reporting
