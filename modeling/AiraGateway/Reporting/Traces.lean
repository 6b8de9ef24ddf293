import AiraGateway.Reporting.Payloads

/-!
# What happened, request by request

The list of requests and one request's details. Both show a caller the requests of the use cases in
their scope; a use case that shows members their own requests only is one the list filters and the
details hide.

* `list_details_and_content_agree`: outside strict data mode the list, the details and the content
  agree on whose requests a caller sees.
-/

namespace AiraGateway.Reporting

open Access Sql

/-! ### Shared by every report -/

/-- Which use cases are shown: every one, or exactly some. -/
abbrev Scope := Option (List CodePoints)

/-- A refusal: its status, what it says, and its code. -/
structure Refusal where
  status : ℕ
  message : CodePoints
  code : CodePoints
  deriving DecidableEq

/-- Which use cases a caller is shown on a surface that a permission opens. -/
def visibleScope (principal : Principal) (permission : Permission) : Scope :=
  if principal.allows permission then none
  -- authentication is switched off: there is no identity to scope by
  else if principal.method = .demo then none
  else some principal.useCases

def scopeLabel (scope : Scope) : CodePoints := if scope.isNone then "all" else "use_cases"

/-! ### A row on the wire -/

/-- The columns a row may show. -/
inductive TraceField
  | id
  | createdAt
  | operation
  | api
  | model
  | requestedModel
  | modelSelection
  | status
  | outcome
  | promptTokens
  | completionTokens
  | reasoningTokens
  | totalTokens
  | latencyMs
  | costNanos
  | provider
  | region
  | traceId
  | subject
  | credential
  | useCase
  | toolCalls
  | flagged
  | sourceIp
  deriving DecidableEq, Repr

/-- What a column holds. -/
inductive Column
  | null
  | instant (moment : ℤ)
  | text (text : CodePoints)
  | number (n : ℤ)
  | flag (b : Bool)
  | json (value : Json)

def Column.ofText (text : Option CodePoints) : Column := text.elim .null .text

def Column.ofNumber (n : Option ℤ) : Column := n.elim .null .number

def Column.ofJson (value : Option Json) : Column := value.elim .null .json

def TraceField.get (row : RequestLog) : TraceField → Column
  | id => .text row.id
  | createdAt => .instant row.createdAt
  | operation => .text row.operation
  | api => .text row.api
  | model => .text row.model
  | requestedModel => .ofText row.requestedModel
  | modelSelection => .ofText row.modelSelection
  | status => .number row.status
  | outcome => .ofText row.outcome
  | promptTokens => .ofNumber row.promptTokens
  | completionTokens => .ofNumber row.completionTokens
  | reasoningTokens => .ofNumber row.reasoningTokens
  | totalTokens => .ofNumber row.totalTokens
  | latencyMs => .ofNumber row.latencyMs
  | costNanos => .ofNumber row.costNanos
  | provider => .ofText row.provider
  | region => .ofText row.region
  | traceId => .ofText row.traceId
  | subject => .ofText row.subject
  | credential => .ofText row.credential
  | useCase => .ofText row.useCase
  | toolCalls => .ofJson row.toolCalls
  | flagged => .flag row.flagged
  | sourceIp => .ofText row.sourceIp

/-- What a row of the list exposes. -/
def traceFields : List TraceField :=
  [.id, .createdAt, .operation, .api, .model, .requestedModel, .modelSelection, .status, .outcome,
    .promptTokens, .completionTokens, .reasoningTokens, .totalTokens, .latencyMs, .costNanos,
    .provider, .region, .traceId, .subject, .credential, .useCase, .toolCalls, .flagged]

/-- What only an incident role sees. -/
def incidentFields : List TraceField := [.sourceIp]

def fields (investigating : Bool) : List TraceField :=
  traceFields ++ if investigating then incidentFields else []

/-- One row on the wire. -/
structure Listed where
  columns : List (TraceField × Column)
  personWithheld : Bool

/-- One row on the wire: another person's without name and key for who does not see people. -/
def listed (principal : Principal) (fields : List TraceField) (row : RequestLog)
    (withholding : Bool) : Listed :=
  let withheld := withholding && withheldRow principal row.subject row.username
  { columns := fields.map fun field =>
      (field, if withheld && (field = .subject || field = .credential) then .null
        else field.get row)
    personWithheld := withheld }

/-! ### The list -/

/-- What is asked of the list. An empty text asks nothing. -/
structure TraceQuery where
  useCase : CodePoints := []
  outcome : CodePoints := []
  refusalsOnly : Bool := false
  credential : CodePoints := []
  sourceIp : CodePoints := []
  subject : CodePoints := []
  mine : Bool := false
  toolsOnly : Bool := false
  flaggedOnly : Bool := false
  requestId : CodePoints := []
  limit : ℕ := 50
  cursor : CodePoints := []

/-- A page of the list. -/
structure TracePage where
  traces : List Listed
  nextCursor : Option (ℤ × CodePoints)
  scope : CodePoints
  inScope : Bool

/-- The answer where a caller's scope does not cover what was asked for. -/
def outOfScope : TracePage :=
  { traces := [], nextCursor := none, scope := "use_cases", inScope := false }

def sourceAddressRefusal : Refusal :=
  { status := 403
    message :=
      "Filtering by source address needs the permission to investigate (incident.investigate)."
    code := "PERMISSION_DENIED" }

def personFilterRefusal : Refusal :=
  { status := 403
    message := points
      (("This installation runs strict data mode: requests by person or by API key are " : Text) ++
        ("visible to Global Administrators and IT Security only. 'Only my requests' shows your " :
          Text) ++ ("own." : Text))
    code := "PERMISSION_DENIED" }

def servedOutcome : CodePoints := "served"

/-- A condition that is asked only where there is something to ask for. -/
def asked (present : Bool) (condition : RequestLog → Truth) : List (RequestLog → Truth) :=
  if present then [condition] else []

/-- What the query asks of a row. -/
def filters (principal : Principal) (query : TraceQuery) : List (RequestLog → Truth) :=
  asked (query.useCase ≠ []) (fun row => eq row.useCase query.useCase) ++
  asked (query.outcome ≠ []) (fun row => eq row.outcome query.outcome) ++
  asked query.refusalsOnly (fun row => not (eq row.outcome servedOutcome)) ++
  asked (query.credential ≠ []) (fun row => eq row.credential query.credential) ++
  asked (query.subject ≠ []) (fun row => eq row.subject query.subject) ++
  asked (query.sourceIp ≠ []) (fun row => eq row.sourceIp query.sourceIp) ++
  asked query.mine (ownRequests principal) ++
  asked query.toolsOnly (fun row => isNotNull row.toolCalls) ++
  asked query.flaggedOnly (fun row => some row.flagged) ++
  asked (query.requestId ≠ []) (fun row => some (row.id = query.requestId))

/-- Whether a row is the caller's to see where some use cases show them their own requests only. -/
def restriction (principal : Principal) (restricted : List CodePoints) (row : RequestLog) : Truth :=
  -- no use case is none of the restricted ones, though comparing nothing says neither
  or (or (isNull row.useCase) (notIn row.useCase restricted)) (ownRequests principal row)

/-- The list's restriction filter. -/
def restrictionFilter (principal : Principal) (restricted : List CodePoints) :
    List (RequestLog → Truth) :=
  asked (restricted ≠ []) (restriction principal restricted)

/-- Newest first; the id makes the order total. -/
def newestFirst (a b : RequestLog) : Prop :=
  b.createdAt < a.createdAt ∨ a.createdAt = b.createdAt ∧ b.id ≤ a.id

instance : DecidableRel newestFirst := fun _ _ => inferInstanceAs (Decidable (_ ∨ _))

/-- Behind a cursor. -/
def behind (cursor : ℤ × CodePoints) (row : RequestLog) : Truth :=
  some (row.createdAt < cursor.1 || (row.createdAt = cursor.1 && decide (row.id < cursor.2)))

section Routes

variable (parseCursor : CodePoints → Except Refusal (ℤ × CodePoints)) (store : ReadModel)
  (strictData : Bool) (rows : List RequestLog) (principal : Principal)

/-- Request metadata, newest first. -/
def traces (query : TraceQuery) : Except Refusal TracePage := do
  let scope := visibleScope principal .traceReadAll
  let investigating := principal.allows .incidentInvestigate
  let withholding := strictData && !seesPeople principal
  if query.sourceIp ≠ [] ∧ !investigating then throw sourceAddressRefusal
  if withholding ∧ (query.subject ≠ [] ∨ query.credential ≠ []) then throw personFilterRefusal
  if scope = some [] then return outOfScope
  if query.useCase ≠ [] ∧ scope.any (query.useCase ∉ ·) then return outOfScope
  let restricted := restrictedUseCases store principal strictData
  let behind ← if query.cursor ≠ [] then (parseCursor query.cursor).map ([behind ·]) else .ok []
  let conditions := scope.toList.map (fun allowed row => isIn row.useCase allowed) ++
    filters principal query ++ restrictionFilter principal restricted ++ behind
  let found := ((select conditions rows).insertionSort newestFirst).take (query.limit + 1)
  let page := found.take query.limit
  return {
    traces := page.map fun row => listed principal (fields investigating) row withholding
    nextCursor :=
      if query.limit < found.length then page.getLast?.map fun row => (row.createdAt, row.id)
      else none
    scope := scopeLabel scope
    inScope := true }

/-! ### One request's details -/

/-- What a request's details add to its row. -/
structure Explained where
  pipelineDecisions : Option Json
  degraded : Option Json
  error : Option CodePoints
  technical : Option Json

/-- The record of one look at one request. -/
structure PayloadAccess where
  requestLogId : CodePoints
  useCase : CodePoints
  subject : CodePoints
  username : Option CodePoints
  ground : Ground
  roles : List CodePoints
  authMethod : CredentialMethod
  credential : Option CodePoints

/-- One request's details, and the record that a reader opened them. -/
structure Details where
  trace : Listed
  explained : Explained
  recorded : PayloadAccess

def noSuchRequest : Refusal :=
  { status := 404, message := "No such request.", code := "NOT_FOUND" }

/-- On what authority a reader opens a request's details. -/
def groundForDetails (row : RequestLog) : Ground :=
  if principal.allows .incidentInvestigate then .incident
  else
    let role := (row.useCase.filter (· ≠ [])).bind (grantRoleIn store principal)
    if role = some GrantRole.admin.value then .useCaseAdmin
    else if role.isSome then .useCaseMember else .oversight

/-- Whether a row that is there is not the caller's to open. -/
def hidden (row : RequestLog) : Bool :=
  let scope := visibleScope principal .traceReadAll
  let restricted := restrictedUseCases store principal strictData
  scope.any (fun scope => !row.useCase.any (· ∈ scope)) ||
    (row.useCase.any (· ∈ restricted) && !isOwnRequest principal row.subject row.username)

/-- One request's details. -/
def traceDetail (rowId : CodePoints) : Except Refusal Details := do
  let withholding := strictData && !seesPeople principal
  let fields := fields (principal.allows .incidentInvestigate)
  match (rows.find? (·.id = rowId)).filter (!hidden store strictData principal ·) with
  -- one answer for what is not there and what is not the caller's
  | none => throw noSuchRequest
  | some row =>
    return {
      trace := listed principal fields row withholding
      explained :=
        { pipelineDecisions := row.pipelineDecisions, degraded := row.degraded
          error := row.error, technical := row.technical }
      recorded :=
        { requestLogId := row.id, useCase := row.useCase.getD [], subject := principal.subject
          username := principal.username, ground := groundForDetails store principal row
          roles := sorted principal.roles, authMethod := principal.method
          credential := principal.credential } }

end Routes

/-! ### One rule, asked three ways -/

variable {store : ReadModel} {principal : Principal} {row : RequestLog} {slug : CodePoints}

/-- What the list's restriction keeps: every row but another's in a restricted use case. -/
theorem passes_restrictionFilter {restricted : List CodePoints} (hrow : row.useCase = some slug) :
    (∀ condition ∈ restrictionFilter principal restricted, Selects (condition row)) ↔
      (slug ∈ restricted → isOwnRequest principal row.subject row.username = true) := by
  by_cases hnone : restricted = []
  · simp [restrictionFilter, asked, hnone]
  · simp only [restrictionFilter, asked, hnone, ne_eq, not_false_eq_true, decide_true, if_true,
      List.forall_mem_singleton, restriction, selects_or, selects_isNull, selects_notIn,
      selects_ownRequests, hrow]
    by_cases hslug : slug ∈ restricted <;> simp [hslug]

/-- What the details hide in a use case of the caller's: another's row in a restricted one. -/
theorem hidden_eq_false_iff (hslug : slug ∈ principal.useCases) (hrow : row.useCase = some slug) :
    hidden store false principal row = false ↔
      (slug ∈ restrictedUseCases store principal false →
        isOwnRequest principal row.subject row.username = true) := by
  have hscope : (visibleScope principal .traceReadAll).any
      (fun scope => !row.useCase.any (· ∈ scope)) = false := by
    rw [visibleScope, hrow]
    split_ifs <;> simp [hslug]
  rw [hidden, hscope, hrow]
  cases hmine : isOwnRequest principal row.subject row.username <;> simp

/-- **List, details and content agree** on whose requests a caller sees in a use case of theirs,
where who may investigate is who may read any content. -/
theorem list_details_and_content_agree (store : ReadModel) (principal : Principal)
    (hexempt : principal.allows .incidentInvestigate = principal.allows .payloadReadAny)
    (row : RequestLog) (hrow : ∃ slug ∈ principal.useCases, row.useCase = some slug) :
    let restricted := restrictedUseCases store principal false
    ((∀ condition ∈ restrictionFilter principal restricted, Selects (condition row)) ↔
        hidden store false principal row = false) ∧
      ((∀ condition ∈ restrictionFilter principal restricted, Selects (condition row)) ↔
        authority store principal row false ≠ .error .othersRequest) ∧
      ∀ row, Selects (ownRequests principal row) ↔
        isOwnRequest principal row.subject row.username = true := by
  intro restricted
  obtain ⟨slug, hslug, hrow⟩ := hrow
  refine ⟨?_, ?_, selects_ownRequests principal⟩
  · rw [passes_restrictionFilter hrow, hidden_eq_false_iff hslug hrow]
  · rw [passes_restrictionFilter hrow, ne_eq, authority_eq_othersRequest_iff, hrow, ← hexempt]
    have hthere : ∀ P : CodePoints → Prop,
        (∃ other ∈ principal.useCases, some slug = some other ∧ P other) ↔ P slug := by
      intro P
      simp [hslug]
    rw [hthere, mem_restrictedUseCases_iff]
    cases hmine : isOwnRequest principal row.subject row.username
    · simp only [hslug, true_and, Bool.false_eq_true, imp_false, and_true]
    · simp

/-- A use case that shows members their own requests only. -/
private def ownOnly : ReadModel :=
  { useCases := [{ slug := "assist", payloadVisibility := "own" }] }

private def anna : Principal :=
  { subject := "9f1c", method := .oidc, username := some "anna", useCases := ["assist"] }

private def bobsRequest : RequestLog :=
  { id := "1", createdAt := 0, subject := some "bob", useCase := some "assist" }

/-- A colleague's request is on no screen. -/
theorem colleagues_request_agrees : hidden ownOnly false anna bobsRequest = true ∧
    authority ownOnly anna bobsRequest false = .error .othersRequest ∧
    ((∀ condition ∈ restrictionFilter anna (restrictedUseCases ownOnly anna false),
        Selects (condition bobsRequest)) ↔ hidden ownOnly false anna bobsRequest = false) :=
  ⟨by decide, by decide, (list_details_and_content_agree ownOnly anna (by decide) bobsRequest
    ⟨"assist", by decide, rfl⟩).1⟩

end AiraGateway.Reporting
