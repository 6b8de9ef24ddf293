import AiraGateway.Library.Json

/-!
# The canonical request and response

Every API surface maps to and from these types and every upstream speaks only these. A message is
an ordered list of parts — text, inline data, tool calls and tool results — and what it *says* is
the concatenation of its text parts alone.
-/

namespace AiraGateway

inductive Role
  | system
  | user
  | model
  deriving DecidableEq, Repr

/-- Why an answer ended: one word per event, whatever each vendor calls it. -/
inductive FinishReason
  | stop
  | maxTokens
  | toolUse
  | refusal
  | schemaUnsatisfied
  | other
  deriving DecidableEq, Repr

/-- The word an ending is recorded under. -/
def FinishReason.value : FinishReason → Text
  | stop => "stop"
  | maxTokens => "max_tokens"
  | toolUse => "tool_use"
  | refusal => "refusal"
  | schemaUnsatisfied => "schema_unsatisfied"
  | other => "other"

/-! ### Parts and messages -/

/-- Inline binary content, decoded. -/
structure DataPart where
  mediaType : Text
  data : List UInt8
  deriving DecidableEq

/-- The model asking for a function to be run. -/
structure ToolCallPart where
  id : Text
  name : Text
  arguments : List (Text × Json) := []
  signature : Option Text := none
  deriving DecidableEq

/-- What running a tool produced, on its way back to the model. -/
structure ToolResultPart where
  callId : Text
  name : Text
  content : Text
  attachments : List DataPart := []
  deriving DecidableEq

inductive CanonicalPart
  | text (text : Text)
  | data (part : DataPart)
  | toolCall (part : ToolCallPart)
  | toolResult (part : ToolResultPart)
  deriving DecidableEq

namespace CanonicalPart

def text? : CanonicalPart → Option Text
  | text t => some t
  | _ => none

def data? : CanonicalPart → Option DataPart
  | data part => some part
  | _ => none

def toolCall? : CanonicalPart → Option ToolCallPart
  | toolCall part => some part
  | _ => none

def toolResult? : CanonicalPart → Option ToolResultPart
  | toolResult part => some part
  | _ => none

end CanonicalPart

structure CanonicalMessage where
  role : Role
  parts : List CanonicalPart := []
  deriving DecidableEq

namespace CanonicalMessage

/-- What the message says: its text parts, concatenated. -/
def text (m : CanonicalMessage) : Text := (m.parts.filterMap CanonicalPart.text?).flatten

def attachments (m : CanonicalMessage) : List DataPart := m.parts.filterMap CanonicalPart.data?

def toolCalls (m : CanonicalMessage) : List ToolCallPart :=
  m.parts.filterMap CanonicalPart.toolCall?

def toolResults (m : CanonicalMessage) : List ToolResultPart :=
  m.parts.filterMap CanonicalPart.toolResult?

end CanonicalMessage

/-! ### Requests -/

/-- A function the caller offers. Its parameters are a schema in one of two vocabularies, carried
as a document. -/
structure ToolDeclaration where
  name : Text
  description : Text := []
  parameters : Option Json := none
  parametersJsonSchema : Option Json := none
  deriving DecidableEq

/-- Whether the model must, may or must not call a function. -/
inductive ToolMode
  | auto
  | any
  | none
  | validated
  deriving DecidableEq, Repr

structure ToolChoice where
  mode : ToolMode := .auto
  allowed : List Text := []
  deriving DecidableEq

/-- How much reasoning a request asks for: one of the gateway's control words or a vendor's level
word, and a number of tokens with one of them. -/
structure Thinking where
  mode : Text
  tokens : Option ℤ := none
  deriving DecidableEq

structure SpeakerVoice where
  speaker : Text
  voice : Text
  deriving DecidableEq

structure Speech where
  voice : Option Text := none
  speakers : List SpeakerVoice := []
  language : Option Text := none
  deriving DecidableEq

/-- A request. A control that is a number with a fraction is carried as its JSON number. -/
structure CanonicalRequest where
  model : Text
  addressing : Json := .obj []
  messages : List CanonicalMessage
  temperature : Option Json := none
  maxOutputTokens : Option ℤ := none
  thinking : Option Thinking := none
  thinkingFromDefault : Bool := false
  topP : Option Json := none
  topK : Option ℤ := none
  seed : Option ℤ := none
  presencePenalty : Option Json := none
  frequencyPenalty : Option Json := none
  stopSequences : List Text := []
  responseSchema : Option Json := none
  responseJsonSchema : Option Json := none
  tools : List ToolDeclaration := []
  toolChoice : Option ToolChoice := none
  cachePrefix : Bool := false
  includeReasoning : Bool := false
  cacheTtl : Text := "5m"
  speech : Option Speech := none
  deriving DecidableEq

namespace CanonicalRequest

/-- What the last user message says; the last message, where no user speaks. -/
def lastUserText (r : CanonicalRequest) : Text :=
  match r.messages.reverse.find? (·.role = .user) with
  | some m => m.text
  -- read where `withUserText` writes nothing
  | none => (r.messages.getLast?.map (·.text)).getD []

/-- Whether the answer must be a document matching a schema, in either vocabulary. -/
def structured (r : CanonicalRequest) : Bool :=
  r.responseSchema.isSome || r.responseJsonSchema.isSome

end CanonicalRequest

/-! ### What a request used -/

/-- The counts an upstream reported. The cached and the written tokens are counted within the
prompt, the hour's writes within the writes, and the reasoning within the completion. -/
structure CanonicalUsage where
  promptTokens : ℤ
  completionTokens : ℤ
  cachedInputTokens : ℤ := 0
  cacheWriteTokens : ℤ := 0
  longCacheWriteTokens : ℤ := 0
  reasoningTokens : ℤ := 0
  deriving DecidableEq, Repr

/-- Input billed at the ordinary rate, clamped at zero. -/
def CanonicalUsage.uncachedInputTokens (u : CanonicalUsage) : ℤ :=
  max 0 (u.promptTokens - u.cachedInputTokens - u.cacheWriteTokens)

def CanonicalUsage.totalTokens (u : CanonicalUsage) : ℤ := u.promptTokens + u.completionTokens

/-! ### Answers -/

/-- A finished answer. -/
structure CanonicalResponse where
  model : Text
  text : Text
  reasoning : Text := []
  finishReason : FinishReason := .stop
  usage : CanonicalUsage
  toolCalls : List ToolCallPart := []
  servedRegion : Text := []
  audio : Option DataPart := none
  deriving DecidableEq

/-- A streaming delta. Tool calls appear on the chunk that completes them. -/
structure CanonicalChunk where
  textDelta : Text
  reasoningDelta : Text := []
  finishReason : Option FinishReason := none
  usage : Option CanonicalUsage := none
  toolCalls : List ToolCallPart := []
  audioDelta : Option DataPart := none
  servedRegion : Option Text := none
  deriving DecidableEq

end AiraGateway
