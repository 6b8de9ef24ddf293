import AiraGateway.Anomalies.Service
import AiraGateway.Reporting.Spend

/-!
# What was found, and what was stopped

The findings of the detector and the stops in force, each scoped like every other figure. A finding
or a stop about a person or a key names nobody to a reader who does not see people, unless it is
about them.
-/

namespace AiraGateway.Reporting

open Access Sql Anomalies

/-! ### Whom a finding or a stop is about -/

/-- The targets that name somebody: a person, or the key a person holds. -/
def personTargets : List CodePoints :=
  [points RuleTarget.subject.value, points RuleTarget.credential.value]

/-- The names a caller goes by. -/
def callerNames (principal : Principal) : List CodePoints :=
  [principal.subject, principal.person].eraseDups.filter (· ≠ [])

/-- The credential of a caller, where they hold one. -/
def callerCredential (principal : Principal) : Option CodePoints :=
  principal.credential.filter (· ≠ [])

/-- Whether a finding or a stop is about this caller themselves. -/
def namesThisCaller (principal : Principal) (target targetValue : CodePoints) : Bool :=
  if target = points RuleTarget.subject.value then (callerNames principal).contains targetValue
  else if target = points RuleTarget.credential.value then
    callerCredential principal = some targetValue
  else false

/-! ### Findings -/

/-- A stored finding. -/
structure StoredEvent extends AnomalyEvent where
  id : CodePoints

/-- Findings a caller may see in a use case that shows members their own traffic only. -/
def aboutThisCaller (restricted : List CodePoints) (principal : Principal) (row : StoredEvent) :
    Truth :=
  let own := [isNull row.useCase, eq (some row.target) (points RuleTarget.useCase.value)] ++
    (if callerNames principal ≠ [] then
      [and (eq (some row.target) (points RuleTarget.subject.value))
        (isIn (some row.targetValue) (callerNames principal))] else []) ++
    (callerCredential principal).toList.map fun credential =>
      and (eq (some row.target) (points RuleTarget.credential.value))
        (eq (some row.targetValue) credential)
  or (notIn row.useCase restricted) (anyOf own)

/-- One finding on the wire. -/
structure FindingEvent where
  id : CodePoints
  createdAt : ℤ
  ruleId : ℤ
  rule : CodePoints
  kind : CodePoints
  useCase : Option CodePoints
  target : CodePoints
  targetValue : Option CodePoints
  targetWithheld : Bool
  observed : ℤ
  threshold : ℤ
  sample : ℤ
  windowMinutes : ℤ
  actionTaken : CodePoints
  detail : CodePoints

/-- One finding on the wire: its addresses to who may investigate, whom it names to who sees
people. -/
def event (row : StoredEvent) (investigating withheld : Bool) : FindingEvent :=
  let withheld := withheld && personTargets.contains row.target
  { id := row.id
    createdAt := row.createdAt
    ruleId := row.ruleId
    rule := row.ruleName
    kind := row.kind
    useCase := row.useCase
    target := row.target
    targetValue := if withheld then none else some row.targetValue
    targetWithheld := withheld
    observed := row.observed
    threshold := row.threshold
    sample := row.sample
    windowMinutes := row.windowMinutes
    actionTaken := row.actionTaken
    detail := if investigating then row.detail else withoutAddresses row.detail }

/-- What is asked of the findings. -/
structure FindingQuery where
  limit : ℕ := 50
  cursor : CodePoints := []
  useCase : CodePoints := []

/-- A page of findings. -/
structure FindingPage where
  events : List FindingEvent
  nextCursor : Option (ℤ × CodePoints)
  scope : CodePoints
  inScope : Bool

namespace StoredEvent

/-- Newest first; the id makes the order total. -/
def newestFirst (a b : StoredEvent) : Prop :=
  b.createdAt < a.createdAt ∨ a.createdAt = b.createdAt ∧ b.id ≤ a.id

instance : DecidableRel newestFirst := fun _ _ => inferInstanceAs (Decidable (_ ∨ _))

/-- Behind a cursor. -/
def behind (cursor : ℤ × CodePoints) (row : StoredEvent) : Truth :=
  some (decide (row.createdAt < cursor.1) ||
    (decide (row.createdAt = cursor.1) && decide (row.id < cursor.2)))

end StoredEvent

section Findings

variable (parseCursor : CodePoints → Except Refusal (ℤ × CodePoints)) (store : ReadModel)
  (strictData : Bool) (events : List StoredEvent) (principal : Principal)

/-- What the detector has found, newest first. -/
def anomalies (query : FindingQuery) : Except Refusal FindingPage := do
  if query.useCase ≠ [] ∧ !isValidUseCase query.useCase then throw invalidUseCase
  let scope := visibleScope principal .anomalyReadAll
  if query.useCase ≠ [] ∧ scope.any (!·.contains query.useCase) then
    return { events := [], nextCursor := none, scope := "use_cases", inScope := false }
  let restricted := restrictedUseCases store principal strictData
  let behind ←
    if query.cursor ≠ [] then (parseCursor query.cursor).map fun cursor =>
      [StoredEvent.behind cursor]
    else .ok []
  let conditions := scope.toList.map (fun allowed row => isIn row.useCase allowed) ++
    (if query.useCase ≠ [] then [fun row : StoredEvent => eq row.useCase query.useCase] else []) ++
    (if restricted ≠ [] then [aboutThisCaller restricted principal] else []) ++ behind
  let found := ((select conditions events).insertionSort StoredEvent.newestFirst).take
    (query.limit + 1)
  let page := found.take query.limit
  let withholding := strictData && !seesPeople principal
  return {
    events := page.map fun row => event row (principal.allows .incidentInvestigate)
      (withholding && !namesThisCaller principal row.target row.targetValue)
    nextCursor :=
      if query.limit < found.length then page.getLast?.map fun row => (row.createdAt, row.id)
      else none
    scope := scopeLabel scope
    inScope := true }

end Findings

/-! ### Suspensions -/

/-- A stored suspension, as the list reads it. -/
structure StoredSuspension where
  id : CodePoints
  createdAt : ℤ
  useCase : Option CodePoints
  target : CodePoints
  targetValue : CodePoints
  action : CodePoints
  throttleRpm : Option ℤ
  expiresAt : Option ℤ
  author : CodePoints
  reason : CodePoints
  liftedAt : Option ℤ := none
  liftedBy : Option CodePoints := none

namespace StoredSuspension

/-- The suspensions that still apply at a moment. -/
def inForce (row : StoredSuspension) (moment : ℤ) : Truth :=
  and (isNull row.liftedAt)
    (or (isNull row.expiresAt) (row.expiresAt.map fun expires => decide (moment < expires)))

/-- Newest first; the id makes the order total. -/
def newestFirst (a b : StoredSuspension) : Prop :=
  b.createdAt < a.createdAt ∨ a.createdAt = b.createdAt ∧ b.id ≤ a.id

instance : DecidableRel newestFirst := fun _ _ => inferInstanceAs (Decidable (_ ∨ _))

/-- One suspension on the wire. -/
structure Shown where
  id : CodePoints
  createdAt : ℤ
  useCase : Option CodePoints
  target : CodePoints
  targetValue : Option CodePoints
  targetWithheld : Bool
  action : CodePoints
  throttleRpm : Option ℤ
  expiresAt : Option ℤ
  author : CodePoints
  reason : CodePoints
  liftedAt : Option ℤ
  liftedBy : Option CodePoints

/-- The wire shape; a rule's reason is its finding's description, and is cut as the finding is. -/
def asDict (row : StoredSuspension) (addresses withheld : Bool) : Shown where
  id := row.id
  createdAt := row.createdAt
  useCase := row.useCase
  target := row.target
  targetValue := if withheld then none else some row.targetValue
  targetWithheld := withheld
  action := row.action
  throttleRpm := row.throttleRpm
  expiresAt := row.expiresAt
  author := row.author
  reason := if !addresses && ruleAuthor.isPrefixOf row.author then withoutAddresses row.reason
    else row.reason
  liftedAt := row.liftedAt
  liftedBy := row.liftedBy

end StoredSuspension

/-- The stops that apply to a caller inside a use case, and nobody else's. -/
def concerning (useCase : CodePoints) (principal : Principal) (row : StoredSuspension) : Truth :=
  let inHere := or (isNull row.useCase) (eq row.useCase useCase)
  anyOf <|
    [and (eq (some row.target) (points RuleTarget.useCase.value))
      (eq (some row.targetValue) useCase)] ++
    (if callerNames principal ≠ [] then
      [and inHere (and (eq (some row.target) (points RuleTarget.subject.value))
        (isIn (some row.targetValue) (callerNames principal)))] else []) ++
    (callerCredential principal).toList.map fun credential =>
      and inHere (and (eq (some row.target) (points RuleTarget.credential.value))
        (eq (some row.targetValue) credential))

/-- The stops of a use case: those scoped to it, and those on the whole of it. -/
def inUseCase (useCase : CodePoints) (row : StoredSuspension) : Truth :=
  or (eq row.useCase useCase)
    (and (eq (some row.target) (points RuleTarget.useCase.value))
      (eq (some row.targetValue) useCase))

/-- How many suspensions no longer in force are listed. -/
def listedSuspensions : ℕ := 200

def incidentRoleRefusal : Refusal :=
  { status := 403
    message := points (("Suspending or restoring access needs the permission to stop " : Text) ++
      ("traffic (incident.suspend)." : Text))
    code := "PERMISSION_DENIED" }

/-- What was stopped, and for whom it is listed. -/
structure SuspensionList where
  suspensions : List StoredSuspension.Shown
  scope : CodePoints
  inScope : Bool

section Suspensions

variable (now : ℤ) (strictData : Bool) (suspensions : List StoredSuspension)
  (principal : Principal)

/-- Which stops a caller is answered with, and as what audience; nothing where the use case asked
for is not theirs. -/
def audience (useCase : CodePoints) :
    Except Refusal (Option (List (StoredSuspension → Truth) × CodePoints)) := do
  let oversight := principal.allows .incidentSuspend || principal.allows .anomalyReadAll
  if oversight || principal.method = .demo then
    return some (if useCase ≠ [] then [inUseCase useCase] else [], "all")
  if useCase = [] then throw incidentRoleRefusal
  let scope := visibleScope principal .anomalyReadAll
  if scope.any (!·.contains useCase) then return none
  return some ([concerning useCase principal], "own")

/-- What was stopped: what is in force first, then the newest of what is not. -/
def listSuspensions (useCase : CodePoints) : Except Refusal SuspensionList := do
  if useCase ≠ [] ∧ !isValidUseCase useCase then throw invalidUseCase
  match ← audience principal useCase with
  | none => return { suspensions := [], scope := "own", inScope := false }
  | some (conditions, audience) =>
    let standing : StoredSuspension → Truth := fun row => row.inForce now
    let past : StoredSuspension → Truth := fun row => Sql.not (row.inForce now)
    let found := fun condition =>
      (select (conditions ++ [condition]) suspensions).insertionSort StoredSuspension.newestFirst
    let withholding := strictData && !seesPeople principal
    return {
      suspensions := (found standing ++ (found past).take listedSuspensions).map fun row =>
        row.asDict (principal.allows .incidentInvestigate)
          (withholding && personTargets.contains row.target &&
            !namesThisCaller principal row.target row.targetValue)
      scope := audience
      inScope := true }

end Suspensions

end AiraGateway.Reporting
