import AiraGateway.Anomalies.Suspensions
import AiraGateway.Library.JsonText
import AiraGateway.Library.Sql
import AiraGateway.Persistence.RequestLog
import Mathlib.Algebra.Order.Ring.Int
import Mathlib.Data.List.Sort

/-!
# Measuring a rule

A rule watches the stored requests of its reach, by person, by credential or by use case, and finds
every target whose figures cross its threshold within its window: a share of requests, a multiple
of the window before, or addresses that window had not seen.
-/

namespace AiraGateway.Anomalies

open Sql

/-- A minute, in the ticks all moments are counted in. -/
def minute : ℤ := 60 * second

/-- A rule as the read-model has it. Its kind, its action and its target are the words Management
sent, which this build may not know. -/
structure AnomalyRuleRead where
  id : ℤ
  useCase : Option CodePoints := none
  name : CodePoints
  kind : CodePoints
  windowMinutes : ℤ
  threshold : ℤ
  parameter : Option ℤ := none
  minSample : ℤ := 0
  action : CodePoints := "alert"
  target : CodePoints := "subject"
  actionMinutes : Option ℤ := none
  throttleRpm : Option ℤ := none
  enabled : Bool := true
  deriving DecidableEq

/-- What a rule watches. -/
inductive RuleKind
  | refusalRate
  | errorRate
  | spendSpike
  | requestSpike
  | newSourceIp
  | payloadSize
  | blockedPromptRate
  deriving DecidableEq, Repr

namespace RuleKind

def value : RuleKind → Text
  | refusalRate => "refusal_rate"
  | errorRate => "error_rate"
  | spendSpike => "spend_spike"
  | requestSpike => "request_spike"
  | newSourceIp => "new_source_ip"
  | payloadSize => "payload_size"
  | blockedPromptRate => "blocked_prompt_rate"

def all : List RuleKind :=
  [refusalRate, errorRate, spendSpike, requestSpike, newSourceIp, payloadSize, blockedPromptRate]

/-- The kind as a description names it. -/
def spoken (kind : RuleKind) : Text := kind.value.map fun c => if c = '_' then ' ' else c

end RuleKind

/-- The kind a word names, if this build has it. -/
def ruleKind? (word : CodePoints) : Option RuleKind :=
  RuleKind.all.find? fun kind => points kind.value = word

/-- The target a word names, if this build has it. -/
def ruleTarget? (word : CodePoints) : Option RuleTarget :=
  [RuleTarget.subject, .credential, .useCase].find? fun target => points target.value = word

/-- The action a word names, if this build has it. -/
def ruleAction? (word : CodePoints) : Option RuleAction :=
  [(RuleAction.alert, ("alert" : CodePoints)), (.throttle, "throttle"), (.block, "block")].findSome?
    fun entry => if entry.2 = word then some entry.1 else none

/-- One target that crossed a rule's threshold. -/
structure Finding where
  targetValue : CodePoints
  observed : ℤ
  sample : ℤ
  detail : CodePoints
  deriving DecidableEq

/-- Where a description starts naming the addresses it found. -/
def newAddressesFrom : Text := "not seen before: "

/-- The column a target groups by. -/
def groupBy (target : RuleTarget) (row : RequestLog) : Option CodePoints :=
  match target with
  | .subject => requestPerson row
  | .credential => row.credential
  | .useCase => row.useCase

def servedOutcome : CodePoints := "served"

/-- Outcomes of what nobody sent. -/
def notTraffic : List CodePoints := ["diagnostic"]

def pipelineOperationPrefix : CodePoints := "pipeline:"

/-- A rule's reach: its use case, rows that have a target, and traffic. A pipeline step's own call
is no request, and only what was spent counts it. -/
def inReach (rule : AnomalyRuleRead) (group : RequestLog → Option CodePoints) (spend : Bool) :
    List (RequestLog → Truth) :=
  (rule.useCase.toList.map fun slug row => eq row.useCase slug) ++
    [fun row => isNotNull (group row), fun row => not (eq (group row) []),
      fun row => or (isNull row.outcome) (notIn row.outcome notTraffic)] ++
    if spend then [] else [fun row => some (!pipelineOperationPrefix.isPrefixOf row.operation)]

/-- Where a rule's window begins, and the one before it. -/
def window (rule : AnomalyRuleRead) (now : ℤ) : ℤ × ℤ :=
  let span := rule.windowMinutes * minute
  (now - span, now - 2 * span)

/-- The rows of each target. -/
def grouped (group : RequestLog → Option CodePoints) (rows : List RequestLog) :
    List (CodePoints × List RequestLog) :=
  (rows.filterMap group).eraseDups.map fun value =>
    (value, rows.filter fun row => group row = some value)

def number (n : ℤ) : Text := intText n

section Measures

-- `rounded` is a quotient as the nearest whole number, through a float
variable (rounded : ℤ → ℤ → ℤ) (rows : List RequestLog) (rule : AnomalyRuleRead)
  (group : RequestLog → Option CodePoints) (now : ℤ)

/-- The percentage of the rows in the window that match, per target. -/
def share (matching : RequestLog → Truth) (noun described : Text)
    (knownOnly : List (RequestLog → Truth)) : List Finding :=
  let since := (window rule now).1
  let measured := select
    ((fun row : RequestLog => some (decide (since ≤ row.createdAt))) :: knownOnly ++ inReach rule group false) rows
  (grouped group measured).filterMap fun (value, rows) =>
    let total : ℤ := rows.length
    let matched : ℤ := (select [matching] rows).length
    -- a rate over too few rows says nothing
    if total < max rule.minSample 1 then none
    -- compared exactly, and rounded for display only
    else if matched * 100 < rule.threshold * total then none
    else
      let share := rounded (matched * 100) total
      some
        { targetValue := value
          observed := share
          sample := total
          detail := points (number share ++ ("% " : Text) ++ described ++ (" over " : Text) ++
            number total ++ (" " : Text) ++ noun ++ (" in " : Text) ++ number rule.windowMinutes ++
            (" min" : Text)) }

/-- Which outcomes a rate counts: anything that was not served, or one outcome. -/
def countedOutcomes (kind : RuleKind) : Option (RequestLog → Truth) :=
  match kind with
  | .refusalRate => some fun row => not (eq row.outcome servedOutcome)
  | .errorRate => some fun row => isIn row.outcome ["upstream_error"]
  | .blockedPromptRate => some fun row => isIn row.outcome ["blocked_by_pipeline"]
  | _ => none

def evaluatePayloadSize : List Finding :=
  match rule.parameter.filter (· ≠ 0) with
  | none => []
  | some parameter =>
    share rounded rows rule group now
      (fun row => row.requestBytes.map fun bytes => decide (parameter ≤ bytes)) "requests"
      (("requests of at least " : Text) ++ number parameter ++ (" bytes" : Text))
      [fun row => isNotNull row.requestBytes]

/-- What each target spent or sent between two moments, and in how many rows. -/
def totals (spend : Bool) (start stop : ℤ) : List (CodePoints × ℤ × ℤ) :=
  let measured := select
    ((fun row : RequestLog => some (decide (start ≤ row.createdAt ∧ row.createdAt < stop))) ::
      inReach rule group spend) rows
  (grouped group measured).map fun (value, rows) =>
    (value, if spend then (rows.map fun row => row.costNanos.getD 0).sum else rows.length,
      rows.length)

/-- This window as a percentage of the one before it. -/
def evaluateRatio (kind : RuleKind) : List Finding :=
  let spend := kind = .spendSpike
  let (since, before) := window rule now
  let current := totals rows rule group spend since (now + second)
  let previous := totals rows rule group spend before since
  current.filterMap fun (value, amount, sample) =>
    let was := ((dictGet previous value).map (·.1)).getD 0
    if sample < max rule.minSample 1 then none
    -- growth from nothing is a multiple of nothing
    else if was ≤ 0 then none
    else if amount * 100 < rule.threshold * was then none
    else
      let share := rounded (amount * 100) was
      some
        { targetValue := value
          observed := share
          sample := sample
          detail := points ((if spend then ("spend" : Text) else ("requests" : Text)) ++
            (" at " : Text) ++ number share ++ ("% of the previous " : Text) ++
            number rule.windowMinutes ++ (" min (" : Text) ++ number amount ++
            (" against " : Text) ++ number was ++ (")" : Text)) }

/-- The addresses each target used between two moments. -/
def seen (start stop : ℤ) : List (CodePoints × List CodePoints) :=
  let measured := select
    ([fun row : RequestLog => some (decide (start ≤ row.createdAt ∧ row.createdAt < stop)),
      fun row => isNotNull row.sourceIp] ++ inReach rule group false) rows
  (grouped group measured).map fun (value, rows) => (value, (rows.filterMap (·.sourceIp)).eraseDups)

/-- Addresses seen in the window that were not seen in the one before it. -/
def evaluateNewSource : List Finding :=
  let (since, before) := window rule now
  let current := seen rows rule group since (now + second)
  let known := seen rows rule group before since
  current.filterMap fun (value, addresses) =>
    -- no reference yet: right after deployment every address is new
    (dictGet known value).bind fun knownAddresses =>
      let fresh := (addresses.filter (· ∉ knownAddresses)).insertionSort (· ≤ ·)
      if (fresh.length : ℤ) < rule.threshold then none
      else
        some
          { targetValue := value
            observed := fresh.length
            sample := addresses.length
            detail := points (("used from " : Text) ++ number fresh.length ++
              (" address(es) " : Text) ++ newAddressesFrom) ++
              List.intercalate (points (", " : Text)) fresh }

/-- Every target of a rule that crosses its threshold. A kind or a target this build does not have
measures nothing. -/
def evaluateRule : List Finding :=
  match ruleKind? rule.kind, ruleTarget? rule.target with
  | some kind, some target =>
    let group := groupBy target
    match countedOutcomes kind, kind with
    | some counted, _ => share rounded rows rule group now counted "requests" kind.spoken []
    | none, .payloadSize => evaluatePayloadSize rounded rows rule group now
    | none, .newSourceIp => evaluateNewSource rows rule group now
    | none, _ => evaluateRatio rounded rows rule group now kind
  | _, _ => []

end Measures

/-- A description as a reader who may not see addresses reads it. -/
def withoutAddresses (detail : CodePoints) : CodePoints :=
  let from_ := points newAddressesFrom
  match (List.range (detail.length + 1)).find? fun i => from_.isPrefixOf (detail.drop i) with
  -- the mark without the colon and the blank at its end
  | some i => detail.take i ++ points ("not seen before" : Text)
  | none => detail

end AiraGateway.Anomalies
