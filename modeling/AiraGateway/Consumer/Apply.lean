import AiraGateway.Library.Json
import AiraGateway.Library.Table
import Mathlib.Data.List.Dedup
import Mathlib.Data.List.Sort

/-!
# Applying configuration events to the read-model

The gateway's read-model is a handful of tables, filled from configuration events. Every handler
is an upsert or a delete by natural key, so an event delivered twice leaves what it left once.
A retired use case keeps its row as a **tombstone** (`UseCaseRead.deletedAt`), and every handler
that writes something a use case grants asks `isRetired` first.

A payload's optional fields are `Option`s: what an absent one means is stated where a handler
reads it. A handler that stamps a row reads the clock, which is an argument here.
-/

namespace AiraGateway

/-- An instant, in microseconds. -/
abbrev Moment := ℤ

/-! ### The rows -/

/-- A use case's configuration, as an event states it. -/
structure UseCaseFields where
  name : Text
  description : Text
  processingNotes : Text
  storePayloads : Bool
  toolsEnabled : Bool
  includeReasoning : Bool
  promptCachingEnabled : Bool
  promptCacheTtl : Text
  payloadVisibility : Text
  retentionDays : ℤ
  allowedModels : Option (List Text)
  budgetMailThresholds : Option (List ℤ)
  mailAdminsOnAnomalies : Bool
  deriving DecidableEq

structure UseCaseRead where
  fields : UseCaseFields
  deletedAt : Option Moment := none
  deriving DecidableEq

structure ApiKey where
  keyHash : Text
  subject : Text
  issuedBy : Option Text
  useCase : Option Text
  label : Option Text
  isActive : Bool
  expiresAt : Option Moment
  revokedAt : Option Moment := none
  deriving DecidableEq

structure PipelineConfigRead where
  steps : List Json
  fallbackModels : List Text
  embeddingFallbackModels : List Text
  rankingFallbackModels : List Text
  fallbackMode : Option Text
  deriving DecidableEq

structure BudgetRead where
  useCase : Text
  scope : Text
  subject : Text
  period : Text
  limitCostNanos : Option ℤ
  limitTokens : Option ℤ
  limitRequests : Option ℤ
  enabled : Bool
  deriving DecidableEq

structure RateLimitRead where
  useCase : Text
  scope : Text
  subject : Text
  limitRpm : ℤ
  burst : ℤ
  enabled : Bool
  deriving DecidableEq

/-- A rule of no use case applies everywhere. -/
structure AnomalyRuleRead where
  useCase : Option Text
  name : Text
  kind : Text
  windowMinutes : ℤ
  threshold : ℤ
  parameter : Option ℤ
  minSample : ℤ
  action : Text
  target : Text
  actionMinutes : Option ℤ
  throttleRpm : Option ℤ
  enabled : Bool
  deriving DecidableEq

/-- What one scope used in one period. -/
structure UsageRead where
  tokens : ℤ
  requests : ℤ
  costNanos : ℤ
  unpricedRequests : ℤ
  deriving DecidableEq

/-- The tables the configuration events write, each by the key its handlers use. -/
structure ReadModel where
  useCases : Table Text UseCaseRead := .empty
  members : Table (Text × Text) Text := .empty
  groups : Table (Text × Text) Text := .empty
  apiKeys : Table Text ApiKey := .empty
  pipelines : Table Text PipelineConfigRead := .empty
  budgets : Table ℤ BudgetRead := .empty
  rateLimits : Table ℤ RateLimitRead := .empty
  anomalyRules : Table ℤ AnomalyRuleRead := .empty
  budgetUsage : Table (Text × Text) UsageRead := .empty

/-! ### The payloads -/

structure UseCasePayload where
  slug : Text
  name : Option Text := none
  description : Option Text := none
  processingNotes : Option Text := none
  storePayloads : Option Bool := none
  toolsEnabled : Option Bool := none
  includeReasoning : Option Bool := none
  promptCachingEnabled : Option Bool := none
  promptCacheTtl : Option Text := none
  payloadVisibility : Option Text := none
  restrictMembersToOwnRequests : Option Bool := none
  retentionDays : Option ℤ := none
  allowedModels : Option (List Text) := none
  budgetMailThresholds : Option Json := none
  mailAdminsOnAnomalies : Option Bool := none

structure MembershipPayload where
  slug : Text
  username : Text
  role : Option Text := none

structure GroupGrantPayload where
  slug : Text
  group : Text
  role : Option Text := none

structure ApiKeyPayload where
  pfx : Text
  keyHash : Text
  subject : Option Text := none
  issuedBy : Option Text := none
  useCase : Option Text := none
  label : Option Text := none
  expiresAt : Option Moment := none

structure PipelinePayload where
  useCase : Text
  steps : Option (List Json) := none
  fallbackModels : Option (List Text) := none
  embeddingFallbackModels : Option (List Text) := none
  rankingFallbackModels : Option (List Text) := none

structure BudgetPayload where
  id : ℤ
  useCase : Text
  scope : Text
  subject : Option Text := none
  period : Text
  limitCostNanos : Option ℤ := none
  limitTokens : Option ℤ := none
  limitRequests : Option ℤ := none
  enabled : Option Bool := none

structure RateLimitPayload where
  id : ℤ
  useCase : Text
  scope : Text
  subject : Option Text := none
  limitRpm : Option ℤ := none
  burst : Option ℤ := none
  enabled : Option Bool := none

/-- The use case of a rule is absent, null (a global rule) or a slug. -/
structure AnomalyRulePayload where
  id : ℤ
  useCase : Option (Option Text)
  name : Option Text := none
  kind : Text
  windowMinutes : Option ℤ := none
  threshold : ℤ
  parameter : Option ℤ := none
  minSample : Option ℤ := none
  action : Option Text := none
  target : Option Text := none
  actionMinutes : Option ℤ := none
  throttleRpm : Option ℤ := none
  enabled : Option Bool := none

/-- The events about use cases and what they grant, under their types. -/
inductive Event
  | usecaseUpserted (payload : UseCasePayload)
  | usecaseDeleted (payload : UseCasePayload)
  | usecasePurged (slug : Text)
  | membershipUpserted (payload : MembershipPayload)
  | membershipRemoved (slug username : Text)
  | useCaseGroupGranted (payload : GroupGrantPayload)
  | useCaseGroupRevoked (slug group : Text)
  | apiKeyCreated (payload : ApiKeyPayload)
  | apiKeyRevoked (pfx : Text)
  | pipelineUpserted (payload : PipelinePayload)
  | pipelineDeleted (useCase : Text)
  | budgetUpserted (payload : BudgetPayload)
  | budgetDeleted (id : ℤ)
  | ratelimitUpserted (payload : RateLimitPayload)
  | ratelimitDeleted (id : ℤ)
  | anomalyRuleUpserted (payload : AnomalyRulePayload)
  | anomalyRuleDeleted (id : ℤ)

/-! ### Use cases -/

/-- A number or a default for it: zero is absent. -/
def orInt (value : Option ℤ) (default : ℤ) : ℤ :=
  match value with
  | none => default
  | some n => if n = 0 then default else n

def everyMember : Text := "members"
def ownRequestsOnly : Text := "own"
def oversightOnly : Text := "oversight"

def visibilities : List Text := [everyMember, ownRequestsOnly, oversightOnly]

/-- Who may read stored content: the named visibility, the narrowest one for a name that is not
understood, and the retired boolean's meaning where nothing is named. -/
def payloadVisibility (payload : UseCasePayload) : Text :=
  let named := strip (orText payload.payloadVisibility [])
  if named ∈ visibilities then named
  else if named ≠ [] then oversightOnly
  else if payload.restrictMembersToOwnRequests.getD false then ownRequestsOnly
  else everyMember

/-- The models the use case may call, sorted and once each; `none` if the event did not say. -/
def releasedModels (payload : UseCasePayload) : Option (List Text) :=
  payload.allowedModels.map fun names =>
    ((names.filter (· ≠ [])).dedup).insertionSort (· ≤ ·)

/-- A whole percentage from 1 to 100. -/
def percentage : Json → Option ℤ
  | .int n => if 1 ≤ n ∧ n ≤ 100 then some n else none
  | _ => none

def maxBudgetMailThresholds : ℕ := 5

/-- Whole percentages, distinct, ascending and not too many; `none` where they are not that. -/
def budgetMailThresholds : Json → Option (List ℤ)
  | .arr items => do
    if maxBudgetMailThresholds < items.length then none
    let percentages ← items.mapM percentage
    if percentages.Nodup then some (percentages.insertionSort (· ≤ ·)) else none
  | _ => none

/-- The use case's mail thresholds: `none`, the shared default, where the event says nothing or
nothing readable. -/
def mailThresholds (payload : UseCasePayload) : Option (List ℤ) :=
  payload.budgetMailThresholds.bind budgetMailThresholds

def defaultRetentionDays : ℤ := 7

/-- A use case's configuration with each absent field read. -/
def usecaseFields (payload : UseCasePayload) : UseCaseFields where
  name := payload.name.getD []
  description := payload.description.getD []
  processingNotes := payload.processingNotes.getD []
  storePayloads := payload.storePayloads.getD true
  toolsEnabled := payload.toolsEnabled.getD false
  includeReasoning := payload.includeReasoning.getD true
  promptCachingEnabled := payload.promptCachingEnabled.getD false
  promptCacheTtl := orText payload.promptCacheTtl "5m"
  payloadVisibility := payloadVisibility payload
  retentionDays := orInt payload.retentionDays defaultRetentionDays
  allowedModels := releasedModels payload
  budgetMailThresholds := mailThresholds payload
  mailAdminsOnAnomalies := payload.mailAdminsOnAnomalies.getD true

/-- A new use case, or the configuration of a known one replaced. A tombstone stays one: the
configuration does not say whether a use case is retired. -/
def upsertUsecase (s : ReadModel) (payload : UseCasePayload) : ReadModel :=
  { s with
    useCases := s.useCases.upsert payload.slug { fields := usecaseFields payload }
      fun row => { row with fields := usecaseFields payload } }

/-- Whether a slug names a tombstone. The empty slug and no slug name no use case. -/
def isRetired (s : ReadModel) (slug : Option Text) : Bool :=
  match slug with
  | none | some [] => false
  | some slug => (s.useCases slug).any fun row => row.deletedAt.isSome

/-- Whether a usage counter is the use case's or one of its members'. -/
def isUsageScopeOf (slug : Text) (scopeKey : Text) : Bool :=
  scopeKey = ("uc:" : Text) ++ slug ||
    (("member:" : Text) ++ slug ++ (":" : Text)).isPrefixOf scopeKey

/-- End every kind of access and keep the row as a tombstone, written from the event where there
is no row to stamp. -/
def retireUsecase (now : Moment) (s : ReadModel) (payload : UseCasePayload) : ReadModel :=
  let slug := payload.slug
  { useCases := s.useCases.upsert slug { fields := usecaseFields payload, deletedAt := some now }
      fun row => { row with deletedAt := some now }
    members := s.members.deleteWhere fun key _ => key.1 = slug
    groups := s.groups.deleteWhere fun key _ => key.1 = slug
    -- deactivated, not deleted: a creation delivered again finds the row
    apiKeys := s.apiKeys.updateWhere (fun _ row => row.useCase = some slug)
      fun row => { row with isActive := false }
    pipelines := s.pipelines.deleteWhere fun useCase _ => useCase = slug
    budgets := s.budgets.deleteWhere fun _ row => row.useCase = slug
    rateLimits := s.rateLimits.deleteWhere fun _ row => row.useCase = slug
    -- a rule of no use case stays: it guards every other one
    anomalyRules := s.anomalyRules.deleteWhere fun _ row => row.useCase = some slug
    budgetUsage := s.budgetUsage.deleteWhere fun key _ => isUsageScopeOf slug key.1 }

/-- Drop the tombstone. -/
def purgeUsecase (s : ReadModel) (slug : Text) : ReadModel :=
  { s with useCases := s.useCases.deleteWhere fun key _ => key = slug }

/-! ### Access: members, group grants, API keys -/

def upsertMember (s : ReadModel) (payload : MembershipPayload) : ReadModel :=
  if isRetired s (some payload.slug) then s
  else
    let role := payload.role.getD "user"
    { s with
      members := s.members.upsert (payload.slug, payload.username) role fun _ => role }

def removeMember (s : ReadModel) (slug username : Text) : ReadModel :=
  { s with members := s.members.deleteWhere fun key _ => key = (slug, username) }

def upsertGroupGrant (s : ReadModel) (payload : GroupGrantPayload) : ReadModel :=
  if isRetired s (some payload.slug) then s
  else
    let role := payload.role.getD "user"
    { s with groups := s.groups.upsert (payload.slug, payload.group) role fun _ => role }

def removeGroupGrant (s : ReadModel) (slug group : Text) : ReadModel :=
  { s with groups := s.groups.deleteWhere fun key _ => key = (slug, group) }

/-- A key's metadata is refreshed, but whether it is active is decided when it is first written:
revocation is terminal, and a key of a retired use case is written deactivated. -/
def upsertApiKey (s : ReadModel) (payload : ApiKeyPayload) : ReadModel :=
  let issuedBy := payload.issuedBy.filter (· ≠ [])
  { s with
    apiKeys := s.apiKeys.upsert payload.pfx
      { keyHash := payload.keyHash
        subject := payload.subject.getD []
        issuedBy
        useCase := payload.useCase
        label := payload.label
        isActive := !isRetired s payload.useCase
        expiresAt := payload.expiresAt }
      -- whether the key is active, and when it was revoked, stay as they are
      fun row =>
        { row with
          keyHash := payload.keyHash
          subject := payload.subject.getD []
          issuedBy
          useCase := payload.useCase
          label := payload.label
          expiresAt := payload.expiresAt } }

/-- Deactivate a key and write down when, once. -/
def revokeApiKey (now : Moment) (s : ReadModel) (pfx : Text) : ReadModel :=
  { s with
    apiKeys := s.apiKeys.updateWhere (fun key _ => key = pfx) fun row =>
      { row with isActive := false, revokedAt := some (row.revokedAt.getD now) } }

/-! ### Pipeline, budgets, rate limits, anomaly rules -/

def upsertPipeline (s : ReadModel) (payload : PipelinePayload) : ReadModel :=
  if isRetired s (some payload.useCase) then s
  else
    let row : PipelineConfigRead :=
      { steps := payload.steps.getD []
        fallbackModels := payload.fallbackModels.getD []
        embeddingFallbackModels := payload.embeddingFallbackModels.getD []
        rankingFallbackModels := payload.rankingFallbackModels.getD []
        fallbackMode := none }
    { s with pipelines := s.pipelines.upsert payload.useCase row fun _ => row }

def deletePipeline (s : ReadModel) (useCase : Text) : ReadModel :=
  { s with pipelines := s.pipelines.deleteWhere fun key _ => key = useCase }

def upsertBudget (s : ReadModel) (payload : BudgetPayload) : ReadModel :=
  if isRetired s (some payload.useCase) then s
  else
    let row : BudgetRead :=
      { useCase := payload.useCase
        scope := payload.scope
        subject := payload.subject.getD []
        period := payload.period
        limitCostNanos := payload.limitCostNanos
        limitTokens := payload.limitTokens
        limitRequests := payload.limitRequests
        enabled := payload.enabled.getD true }
    { s with budgets := s.budgets.upsert payload.id row fun _ => row }

def deleteBudget (s : ReadModel) (id : ℤ) : ReadModel :=
  { s with budgets := s.budgets.deleteWhere fun key _ => key = id }

def upsertRateLimit (s : ReadModel) (payload : RateLimitPayload) : ReadModel :=
  if isRetired s (some payload.useCase) then s
  else
    let row : RateLimitRead :=
      { useCase := payload.useCase
        scope := payload.scope
        subject := payload.subject.getD []
        limitRpm := orInt payload.limitRpm 0
        burst := orInt payload.burst 0
        enabled := payload.enabled.getD true }
    { s with rateLimits := s.rateLimits.upsert payload.id row fun _ => row }

def deleteRateLimit (s : ReadModel) (id : ℤ) : ReadModel :=
  { s with rateLimits := s.rateLimits.deleteWhere fun key _ => key = id }

/-- An event that names no use case, not even none, is skipped: reading it as global would widen
a rule that can block traffic. -/
def upsertAnomalyRule (s : ReadModel) (payload : AnomalyRulePayload) : ReadModel :=
  match payload.useCase with
  | none => s
  | some useCase =>
    -- a global rule names no use case that could be retired
    if isRetired s useCase then s
    else
      let row : AnomalyRuleRead :=
        { useCase
          name := payload.name.getD []
          kind := payload.kind
          windowMinutes := payload.windowMinutes.getD 15
          threshold := payload.threshold
          parameter := payload.parameter
          minSample := orInt payload.minSample 0
          action := payload.action.getD "alert"
          target := payload.target.getD "subject"
          actionMinutes := payload.actionMinutes
          throttleRpm := payload.throttleRpm
          enabled := payload.enabled.getD true }
      { s with anomalyRules := s.anomalyRules.upsert payload.id row fun _ => row }

def deleteAnomalyRule (s : ReadModel) (id : ℤ) : ReadModel :=
  { s with anomalyRules := s.anomalyRules.deleteWhere fun key _ => key = id }

/-! ### The event vocabulary -/

/-- Apply one event: its handler. -/
def applyEvent (now : Moment) (s : ReadModel) : Event → ReadModel
  | .usecaseUpserted payload => upsertUsecase s payload
  | .usecaseDeleted payload => retireUsecase now s payload
  | .usecasePurged slug => purgeUsecase s slug
  | .membershipUpserted payload => upsertMember s payload
  | .membershipRemoved slug username => removeMember s slug username
  | .useCaseGroupGranted payload => upsertGroupGrant s payload
  | .useCaseGroupRevoked slug group => removeGroupGrant s slug group
  | .apiKeyCreated payload => upsertApiKey s payload
  | .apiKeyRevoked pfx => revokeApiKey now s pfx
  | .pipelineUpserted payload => upsertPipeline s payload
  | .pipelineDeleted useCase => deletePipeline s useCase
  | .budgetUpserted payload => upsertBudget s payload
  | .budgetDeleted id => deleteBudget s id
  | .ratelimitUpserted payload => upsertRateLimit s payload
  | .ratelimitDeleted id => deleteRateLimit s id
  | .anomalyRuleUpserted payload => upsertAnomalyRule s payload
  | .anomalyRuleDeleted id => deleteAnomalyRule s id

end AiraGateway
