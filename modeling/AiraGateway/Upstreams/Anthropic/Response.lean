import AiraGateway.Upstreams.Anthropic.ThinkingBlocks
import Mathlib.Data.List.Sort

/-!
# Anthropic answers and streamed events

An answer is read from its content blocks (`anthropicToCanonical`). A stream of it is read in two
ways: `StreamAssembler` turns each event into a chunk for a caller that streams, and
`MessageAssembler` puts the events together into the message a call that is not streamed answers
with, to be read by `anthropicToCanonical`.

Usage is a running total in every event that carries it, so each count reported as a number
replaces the one held (`takeUsage`).
-/

namespace AiraGateway

/-! ### Usage and stop reasons -/

/-- The counts this API reports. -/
def usageFields : List Text :=
  ["input_tokens", "cache_read_input_tokens", "cache_creation_input_tokens", "output_tokens"]

/-- The breakdowns nested in the usage object. -/
def usageBlocks : List Text := ["cache_creation", "output_tokens_details"]

/-- A reported count: a positive whole number, or zero. -/
def count : Option Json → ℤ
  | some (.int n) => if 0 < n then n else 0
  | _ => 0

def nested (usage : Json) (block field : Text) : Option Json :=
  match usage.get block with
  | some (.obj members) => dictGet members field
  | _ => none

/-- Token usage, with cache reads and writes folded into the input count. -/
def usageOf (usage : Json) : CanonicalUsage :=
  let cached := count (usage.get "cache_read_input_tokens")
  let created := count (usage.get "cache_creation_input_tokens")
  { promptTokens := count (usage.get "input_tokens") + cached + created
    cachedInputTokens := cached
    cacheWriteTokens := created
    longCacheWriteTokens := count (nested usage "cache_creation" "ephemeral_1h_input_tokens")
    completionTokens := count (usage.get "output_tokens")
    reasoningTokens := count (nested usage "output_tokens_details" "thinking_tokens") }

/-- Fold one event's usage into the running totals held: each count it carries as a number
replaces the one held, and each breakdown replaces its own. -/
def takeUsage (held : List (Text × Json)) (reported : Option Json) : List (Text × Json) :=
  match reported with
  | some (.obj members) =>
    let held := usageFields.foldl
      (fun held field =>
        match dictGet members field with
        | some (.int n) => dictSet held field (.int n)
        | _ => held) held
    usageBlocks.foldl
      (fun held block =>
        match dictGet members block with
        | some (.obj inner) => dictSet held block (.obj inner)
        | _ => held) held
  | _ => held

def stopReasons : List (Text × FinishReason) :=
  [("end_turn", .stop), ("stop_sequence", .stop), ("max_tokens", .maxTokens),
    ("model_context_window_exceeded", .maxTokens), ("tool_use", .toolUse),
    ("refusal", .refusal)]

/-- An absent reason is a normal end; one the table does not know is never that. -/
def finishReason : Option Text → FinishReason
  | none => .stop
  | some reason => (dictGet stopReasons reason).getD .other

/-! ### A finished answer -/

/-- The answer, with every block dropped that is no answer. -/
def answerText (content : List Block) : Text := blocksText content

/-- What the model thought, where that is wanted. -/
def reasoningText (content : List Block) (wanted : Bool) : Text :=
  if wanted then
    (content.filterMap fun block =>
      if block.kind = .thinking then block.thinking else none).flatten
  else []

/-- The arguments a call's input states: an object's members. -/
def argumentsOf : Option Json → List (Text × Json)
  | some (.obj members) => members
  | _ => []

/-- One `tool_use` block as a call; a nameless one is none. -/
def toolCallOf (block : Block) (index : ℕ) : Option ToolCallPart :=
  let name := block.name.getD []
  if block.kind ≠ .toolUse ∨ name = [] then none
  else some
    { id := orText block.id (name ++ '-' :: Nat.toDigits 10 index)
      name
      arguments := argumentsOf block.input }

/-- The tool calls of an answer, in order. -/
def toolCallsOf (content : List Block) : List ToolCallPart :=
  content.zipIdx.filterMap fun (block, index) => toolCallOf block index

/-- The requested document: the answer's text, if it is JSON. -/
def structuredDocument (content : List Block) : Option Text :=
  let text := strip (answerText content)
  if text = [] then none else (Json.loads text).map fun _ => text

/-- A message as this vendor answers with it. -/
structure AnthropicMessage where
  content : List Block
  stopReason : Option Text
  usage : Json
  deriving DecidableEq

/-- Whether a finish already says why an answer is not the document asked for. -/
def saysWhyThereIsNoDocument : FinishReason → Bool
  | .maxTokens | .refusal => true
  | _ => false

/-- This vendor's answer → canonical. -/
def anthropicToCanonical (data : AnthropicMessage) (model : Text) (structured : Bool)
    (includeReasoning : Bool) (pfx : Option Text) : CanonicalResponse :=
  let text := answerText data.content
  let reasoning := reasoningText data.content includeReasoning
  let reason := finishReason data.stopReason
  let calls := withCarried (toolCallsOf data.content) data.content includeReasoning pfx
  let usage := usageOf data.usage
  if structured then
    match structuredDocument data.content with
    | none =>
      -- with tools beside the schema, a call instead of a document is a turn like any other
      if calls ≠ [] then
        { model, text := [], reasoning, finishReason := reason, usage, toolCalls := calls }
      else
        { model
          text := []
          reasoning
          finishReason := if saysWhyThereIsNoDocument reason then reason else .schemaUnsatisfied
          usage }
    | some document =>
      { model
        text := document
        reasoning
        finishReason := if reason = .toolUse then .stop else reason
        usage
        toolCalls := calls }
  else { model, text, reasoning, finishReason := reason, usage, toolCalls := calls }

/-! ### Events -/

/-- An addition to a content block. -/
inductive Delta
  | text (text : Option Text)
  | thinking (thinking : Option Text)
  | signature (signature : Option Text)
  | inputJson (partialJson : Option Text)
  | other

/-- What the first event states of the message. A field may be absent, null or stated. -/
structure MessageStart where
  usage : Option Json := none
  stopReason : Option (Option Text) := none

structure MessageDelta where
  usage : Option Json := none
  stopReason : Option (Option Text) := none

inductive StreamEvent
  | error (error : Option Json)
  | messageStart (message : MessageStart)
  | contentBlockStart (index : Option ℤ) (block : Block)
  | contentBlockDelta (index : Option ℤ) (delta : Delta)
  | contentBlockStop (index : Option ℤ)
  | messageDelta (delta : MessageDelta)
  | messageStop
  | other

/-- The provider's failure: one it sent inside the stream, or a stream it cut off. -/
inductive UpstreamFailure
  | inStream (error : Option Json)
  | cutOff

/-- A block with a delta added to it, where the delta is one of its text, thinking or
signature. -/
def Block.add (block : Block) : Delta → Block
  | .thinking t => { block with thinking := some (block.thinking.getD [] ++ t.getD []) }
  | .signature t => { block with signature := some (t.getD []) }
  | .text t => { block with text := some (block.text.getD [] ++ t.getD []) }
  | _ => block

/-- The arguments that a call's fragments spell; none where they spell no object. -/
def readArguments (fragments : Text) : List (Text × Json) :=
  if fragments = [] then [] else argumentsOf (Json.loads fragments)

/-- The blocks of a dictionary by their indices. -/
def sortedBlocks (blocks : List (ℤ × Block)) : List Block :=
  (blocks.insertionSort fun a b => a.1 ≤ b.1).map (·.2)

/-! ### The events as chunks -/

/-- The open `tool_use` block: its id, its name and the argument fragments so far. -/
structure OpenCall where
  id : Text
  name : Text
  arguments : Text

structure StreamAssembler where
  includeReasoning : Bool := false
  pfx : Option Text := none
  usage : List (Text × Json) := []
  finish : Option FinishReason := none
  openCall : Option OpenCall := none
  calls : List ToolCallPart := []
  blocks : List (ℤ × Block) := []

namespace StreamAssembler

/-- The usage so far, read as a finished answer's is. -/
def running (a : StreamAssembler) : CanonicalUsage := usageOf (.obj a.usage)

/-- The usage that rides a chunk: nothing reported yet is unknown, not zero. -/
def runningIfAny (a : StreamAssembler) : Option CanonicalUsage :=
  if a.usage = [] then none else some a.running

/-- A delta added to its block. -/
def held (a : StreamAssembler) (index : Option ℤ) (delta : Delta) : StreamAssembler :=
  match index.bind fun i => (dictGet a.blocks i).map (i, ·) with
  | none => a
  | some (i, block) => { a with blocks := dictSet a.blocks i (block.add delta) }

/-- Close the open call, if it names a function. -/
def finishCall (a : StreamAssembler) : StreamAssembler :=
  match a.openCall with
  | none => a
  | some call =>
    if call.name = [] then { a with openCall := none }
    else
      { a with
        openCall := none
        calls := a.calls ++ [
          { id := orText (some call.id) call.name
            name := call.name
            arguments := readArguments call.arguments }] }

/-- What a delta says, once its block has it: thinking where the use case returns it, text, or a
fragment of the open call's arguments. -/
def feedDelta (a : StreamAssembler) : Delta → StreamAssembler × Option CanonicalChunk
  | .thinking t =>
    let thought := if a.includeReasoning then t.getD [] else []
    (a, if thought = [] then none
      else some { textDelta := [], reasoningDelta := thought, usage := a.runningIfAny })
  | .inputJson t =>
    ({ a with openCall := a.openCall.map fun call =>
      { call with arguments := call.arguments ++ t.getD [] } }, none)
  | .text t =>
    (a, if t.getD [] = [] then none
      else some { textDelta := t.getD [], usage := a.runningIfAny })
  | _ => (a, none)

def feed (a : StreamAssembler) :
    StreamEvent → Except UpstreamFailure (StreamAssembler × Option CanonicalChunk)
  | .error error => .error (.inStream error)
  | .messageStart message => .ok ({ a with usage := takeUsage a.usage message.usage }, none)
  | .contentBlockStart index block =>
    let a := match index with
      | some i => { a with blocks := dictSet a.blocks i block }
      | none => a
    .ok (if block.kind = .toolUse then
      { a with openCall := some ⟨block.id.getD [], block.name.getD [], []⟩ } else a, none)
  | .contentBlockStop _ => .ok (a.finishCall, none)
  | .contentBlockDelta index delta => .ok ((a.held index delta).feedDelta delta)
  | .messageDelta delta =>
    -- read from every such event, also from one that carries no reason
    .ok ({ a with
      usage := takeUsage a.usage delta.usage
      finish := some (finishReason (delta.stopReason.getD none)) }, none)
  | .messageStop =>
    -- a call that no event closed
    let a := a.finishCall
    .ok (a, some
      { textDelta := []
        finishReason := some (a.finish.getD .stop)
        usage := some a.running
        toolCalls := withCarried a.calls (sortedBlocks a.blocks) a.includeReasoning a.pfx })
  | .other => .ok (a, none)

/-- The chunks of a stream's events. -/
def feedAll (a : StreamAssembler) :
    List StreamEvent → Except UpstreamFailure (StreamAssembler × List CanonicalChunk)
  | [] => .ok (a, [])
  | event :: events => do
    let (a, chunk) ← a.feed event
    let (a, chunks) ← a.feedAll events
    .ok (a, chunk.toList ++ chunks)

end StreamAssembler

/-! ### The events as one message -/

/-- What is held of the message itself. -/
structure HeldMessage where
  stopReason : Option Text
  usage : List (Text × Json)

structure MessageAssembler where
  message : Option HeldMessage := none
  blocks : List (ℤ × Block) := []
  arguments : List (ℤ × Text) := []
  finished : Bool := false

namespace MessageAssembler

/-- A block that a delta or a stop names before it started. -/
def emptyBlock : Block := { kind := .other }

def delta (a : MessageAssembler) (index : ℤ) (delta : Delta) : MessageAssembler :=
  let block := (dictGet a.blocks index).getD emptyBlock
  let a := { a with blocks := dictSet a.blocks index (block.add delta) }
  match delta with
  | .inputJson t =>
    { a with
      arguments := dictSet a.arguments index ((dictGet a.arguments index).getD [] ++ t.getD []) }
  | _ => a

def close (a : MessageAssembler) (index : ℤ) : MessageAssembler :=
  match dictGet a.arguments index with
  | none => a
  | some fragments =>
    let block := (dictGet a.blocks index).getD emptyBlock
    { a with
      arguments := dictErase a.arguments index
      blocks := dictSet a.blocks index
        { block with input := some (.obj (readArguments fragments)) } }

def feed (a : MessageAssembler) : StreamEvent → Except UpstreamFailure MessageAssembler
  | .error error => .error (.inStream error)
  | .messageStart message =>
    .ok { a with
      message := some
        { stopReason := message.stopReason.getD none, usage := takeUsage [] message.usage } }
  | .contentBlockStart (some index) block =>
    .ok { a with blocks := dictSet a.blocks index block }
  | .contentBlockDelta (some index) delta => .ok (a.delta index delta)
  | .contentBlockStop (some index) => .ok (a.close index)
  | .messageDelta delta =>
    -- only a reason that is there replaces the one held
    .ok { a with
      message := a.message.map fun message =>
        { stopReason := delta.stopReason.getD message.stopReason
          usage := takeUsage message.usage delta.usage } }
  | .messageStop => .ok { a with finished := true }
  | _ => .ok a

/-- What is held after a stream's events. -/
def feedAll (a : MessageAssembler) :
    List StreamEvent → Except UpstreamFailure MessageAssembler
  | [] => .ok a
  | event :: events => do
    let a ← a.feed event
    a.feedAll events

/-- The whole message, or the provider's failure for a stream it cut off. -/
def result (a : MessageAssembler) : Except UpstreamFailure AnthropicMessage :=
  match a.message with
  | none => .error .cutOff
  | some message =>
    if a.finished then
      .ok
        { content := sortedBlocks a.blocks
          stopReason := message.stopReason
          usage := .obj message.usage }
    else .error .cutOff

end MessageAssembler

end AiraGateway
