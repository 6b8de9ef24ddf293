import AiraGateway.Access.Principal
import AiraGateway.Library.Json

/-!
# A stored request

The row a request leaves, with who sent it, what became of it and what it used. Whose request it is
is asked of its two names (`requestPerson`): the name where one was recorded, the subject otherwise.
-/

namespace AiraGateway

/-- A stored request, as far as a report or a rule reads it. -/
structure RequestLog where
  id : CodePoints
  createdAt : ℤ
  subject : Option CodePoints := none
  username : Option CodePoints := none
  authMethod : CodePoints := "oidc"
  useCase : Option CodePoints := none
  sourceIp : Option CodePoints := none
  credential : Option CodePoints := none
  api : CodePoints := "gemini"
  operation : CodePoints := "generateContent"
  model : CodePoints := []
  requestedModel : Option CodePoints := none
  modelSelection : Option CodePoints := none
  provider : Option CodePoints := none
  region : Option CodePoints := none
  status : ℤ := 200
  outcome : Option CodePoints := none
  usageBasis : Option CodePoints := none
  pipelineDecisions : Option Json := none
  flagged : Bool := false
  toolCalls : Option Json := none
  degraded : Option Json := none
  technical : Option Json := none
  error : Option CodePoints := none
  promptTokens : Option ℤ := none
  cachedInputTokens : Option ℤ := none
  completionTokens : Option ℤ := none
  reasoningTokens : Option ℤ := none
  totalTokens : Option ℤ := none
  latencyMs : Option ℤ := none
  requestBytes : Option ℤ := none
  traceId : Option CodePoints := none
  costNanos : Option ℤ := none

/-- Whose request a row is. -/
def requestPerson (row : RequestLog) : Option CodePoints := Access.person row.subject row.username

end AiraGateway
