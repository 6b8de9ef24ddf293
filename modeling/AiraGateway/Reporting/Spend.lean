import AiraGateway.Reporting.Service

/-!
# The spend report

Spend and usage over a window, for the use cases in a caller's scope. Where other people's figures
are withheld, the two splits keyed on a human carry the caller's own, and a report narrowed to
somebody else is empty.
-/

namespace AiraGateway.Reporting

open Access

/-! ### What is asked -/

/-- What is asked of the report. An empty text asks nothing. -/
structure SpendQuery where
  start : CodePoints := []
  stop : CodePoints := []
  accept : CodePoints := []
  breakdown : CodePoints := "use_case"
  useCase : CodePoints := []
  series : CodePoints := []
  split : CodePoints := "model"
  person : CodePoints := []

def invalidArgument (message : CodePoints) : Refusal :=
  { status := 400, message := message, code := "INVALID_ARGUMENT" }

/-- The breakdowns a spreadsheet may be of. -/
inductive Breakdown
  | useCase
  | model
  | member
  deriving DecidableEq, Repr

def Breakdown.value : Breakdown → CodePoints
  | useCase => "use_case"
  | model => "model"
  | member => "member"

def breakdowns : List Breakdown := [.useCase, .model, .member]

def granularities : List CodePoints := ["auto", "day", "hour"]

def splits : List Split := [.model, .useCase, .outcome]

/-- Names as a message lists them. -/
def spoken (names : List CodePoints) : CodePoints := List.intercalate (points ", ".toList) names

def notAvailable (name kind : CodePoints) (available : List CodePoints) : Refusal :=
  invalidArgument (points "'".toList ++ name ++ points "' is not a ".toList ++ kind ++
    points ". Available: ".toList ++ spoken available ++ points ".".toList)

/-- A slug: lower-case letters, digits and hyphens, at most 64. -/
def isValidUseCase (slug : CodePoints) : Bool :=
  !slug.isEmpty && decide (slug.length ≤ 64) && slug.all fun c =>
    (97 ≤ c && c ≤ 122) || (48 ≤ c && c ≤ 57) || c == 45

def invalidUseCase : Refusal := invalidArgument "Invalid use case identifier."

/-! ### The window -/

/-- An hour, in microseconds. -/
def anHour : ℤ := 3600000000

def maxWindow : ℤ := 366 * 24 * anHour

def maxBuckets : ℤ := 192

def autoHours : ℤ := 48

/-- How a caller states a time, and what a document covers by itself: the current month, which has
an end behind its start and is no longer than a window may be. -/
structure Calendar extends Clock where
  /-- A moment as a caller wrote it, for a parameter of a name. -/
  parse : CodePoints → CodePoints → Except Refusal ℤ
  monthStarts : ℤ
  monthEnds : ℤ
  /-- How many hours a window is, as a refusal states them. -/
  hoursShown : ℤ → CodePoints
  monthStarts_lt : monthStarts < monthEnds
  month_le : monthEnds - monthStarts ≤ maxWindow

variable (calendar : Calendar)

def window (start stop : CodePoints) : Except Refusal (ℤ × ℤ) := do
  let from_ ← if start ≠ [] then calendar.parse start "from" else .ok calendar.monthStarts
  let to_ ← if stop ≠ [] then calendar.parse stop "to" else .ok calendar.monthEnds
  if to_ ≤ from_ then throw (invalidArgument "'to' must be after 'from'.")
  if maxWindow < to_ - from_ then
    throw (invalidArgument "A reporting window may span at most 366 days.")
  return (from_, to_)

/-- The granularity of a series. -/
def resolveGranularity (start stop : ℤ) (asked : CodePoints) : Except Refusal Granularity :=
  if asked = points "hour".toList then
    if maxBuckets * anHour < stop - start then
      .error (invalidArgument (points
        "An hourly series may span at most 192 hours (8 days); this window is ".toList ++
          calendar.hoursShown (stop - start) ++ points " hours. Ask for 'day'.".toList))
    else .ok .hour
  else if asked = points "day".toList then .ok .day
  else .ok (if stop - start ≤ autoHours * anHour then .hour else .day)

inductive Format
  | json
  | csv
  deriving DecidableEq, Repr

/-- A header's text in lower case; a header holds no letter beyond these. -/
def lower (text : CodePoints) : CodePoints :=
  text.map fun c =>
    if (65 ≤ c && c ≤ 90) || (192 ≤ c && c ≤ 222 && c ≠ 215) then c + 32 else c

/-- Whether there is nothing but blanks in a header's text. -/
def blank (text : CodePoints) : Bool :=
  text.all fun c => (9 ≤ c && c ≤ 13) || (28 ≤ c && c ≤ 32) || c == 0x85 || c == 0xA0

/-- JSON or CSV, and nothing else. -/
def negotiate (accept : CodePoints) : Except Refusal Format :=
  let wanted := lower accept
  let names := fun kind : CodePoints => wanted.tails.any kind.isPrefixOf
  if names "text/csv" then .ok .csv
  else if blank wanted || names "application/json" || names "*/*" then .ok .json
  else .error
    { status := 406
      message := points
        "This endpoint serves application/json or text/csv, not '".toList ++ accept ++
          points "'.".toList
      code := "INVALID_ARGUMENT" }

/-! ### Whose figures -/

/-- The name the figures are keyed on, with the subject behind it. -/
def ownName (principal : Principal) : CodePoints :=
  if principal.person ≠ [] then principal.person else principal.subject

/-- The caller's own name, where the use cases in view withhold other people's figures. -/
def peopleLimitedTo (store : ReadModel) (strictData : Bool) (principal : Principal)
    (scope : Scope) : Option CodePoints :=
  -- reading every figure is no exemption from the mode
  if strictData then if seesPeople principal then none else some (ownName principal)
  else if principal.allows .reportReadAll then none
  else
    let narrowed := peopleRestrictedUseCases store principal false
    if narrowed = [] then none
    else if scope.any fun scope => !narrowed.any (scope.contains ·) then none
    else some (ownName principal)

/-- The figures without how long they took. -/
def Figures.withoutLatency (figures : Figures) : Figures := { figures with latency := none }

/-- A person's figures without how long they took; the shares of their credentials keep it. -/
def PersonFigures.withoutLatency (figures : PersonFigures) : PersonFigures :=
  { figures with latency := none }

def withoutLatencyPerPerson (report : Report) : Report :=
  { report with
    byMember := report.byMember.map Figures.withoutLatency
    byPerson := report.byPerson.map PersonFigures.withoutLatency }

/-- A report on the wire, with what was asked and what was withheld. -/
structure SpendReport extends Report where
  person : Option CodePoints
  scope : CodePoints
  useCase : Option CodePoints
  inScope : Bool
  peopleLimited : Bool
  enforced : Bool
  strictData : Bool

/-- A breakdown as a spreadsheet: its rows, and whether the columns of latencies are there. -/
structure Spreadsheet where
  breakdown : Breakdown
  start : CodePoints
  stop : CodePoints
  rows : List Figures
  latency : Bool

inductive SpendAnswer
  | json (report : SpendReport)
  | csv (spreadsheet : Spreadsheet)

def Report.breakdown (report : Report) : Breakdown → List Figures
  | .useCase => report.byUseCase
  | .model => report.byModel
  | .member => report.byMember

/-! ### The report -/

section Route

variable (mean : ℤ → ℕ → ℤ) (enforced : Bool) (store : ReadModel) (strictData : Bool)
  (rows : List RequestLog) (principal : Principal)

/-- What a query asks for, once it has been found in order. -/
structure Asked where
  start : ℤ
  stop : ℤ
  /-- The breakdown, where a spreadsheet is asked for. -/
  spreadsheet : Option Breakdown
  granularity : Option Granularity
  split : Split

/-- What a query asks for, or why it is refused. -/
def readQuery (query : SpendQuery) : Except Refusal Asked := do
  let (start, stop) ← window calendar query.start query.stop
  let format ← negotiate query.accept
  let breakdown := breakdowns.find? (·.value = query.breakdown)
  if format = .csv ∧ breakdown = none then
    throw (notAvailable query.breakdown "breakdown" (breakdowns.map (·.value)))
  if query.series ≠ [] ∧ !granularities.contains query.series then
    throw (notAvailable query.series "granularity" granularities)
  let split ← match splits.find? (·.value = query.split) with
    | none => throw (notAvailable query.split "split" (splits.map (·.value)))
    | some split => .ok split
  let granularity ←
    if query.series ≠ [] then (resolveGranularity calendar start stop query.series).map some
    else .ok none
  if query.useCase ≠ [] ∧ !isValidUseCase query.useCase then throw invalidUseCase
  return {
    start := start
    stop := stop
    spreadsheet := if format = .csv then breakdown else none
    granularity := granularity
    split := split }

/-- The scope of a report narrowed to a use case, and whether it is in the caller's. -/
def narrowedScope (scope : Scope) (useCase : CodePoints) : Scope × Bool :=
  if useCase = [] then (scope, true)
  else if scope.all (·.contains useCase) then (some [useCase], true)
  else (some [], false)

/-- Spend and usage over a window. -/
def reporting (query : SpendQuery) : Except Refusal SpendAnswer := do
  let asked ← readQuery calendar query
  let (scope, inScope) := narrowedScope (visibleScope principal .reportReadAll) query.useCase
  let limited := peopleLimitedTo store strictData principal scope
  -- a report narrowed to somebody whose split is withheld would be that split by another route
  let beyond := limited.any fun own =>
    query.person ≠ [] && query.person ≠ own && query.person ≠ principal.subject
  let (scope, inScope) := if beyond then (some [], false) else (scope, inScope)
  let whole := report mean calendar.toClock rows scope asked.start asked.stop asked.granularity
    asked.split (some query.person) limited
  let report := if strictData then withoutLatencyPerPerson whole else whole
  return match asked.spreadsheet with
    | none => .json
      { report with
        person := some query.person |>.filter (· ≠ [])
        scope := scopeLabel scope
        useCase := some query.useCase |>.filter (· ≠ [])
        inScope := inScope
        peopleLimited := limited.isSome
        enforced := enforced
        strictData := strictData }
    | some breakdown => .csv
      { breakdown := breakdown
        start := report.start
        stop := report.stop
        rows := report.breakdown breakdown
        latency := !(strictData && breakdown = .member) }

end Route

end AiraGateway.Reporting
