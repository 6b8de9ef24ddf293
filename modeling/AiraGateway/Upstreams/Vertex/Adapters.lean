import AiraGateway.Upstreams.Vertex.Regions
import Mathlib.Data.List.Infix

/-!
# The dialects on Vertex

Three dialects share the transport and the walk over regions: Google's own models, which also embed
and rank, Anthropic's, which are always read as a stream and whose refused thinking is sent again
carrying less, and the managed open models. What a dialect makes of a request and of a payload is
given (`Mappings`); what is here is what an attempt at one region does with it, and how a call
walks the regions.
-/

namespace AiraGateway.Vertex

open Traced

/-! ### Requests and answers -/

/-- One embedding call, however many texts it carries. -/
structure CanonicalEmbeddingRequest where
  model : Text
  addressing : Json := .obj []
  texts : List Text
  taskType : Option Text := none
  dimensions : Option ℤ := none
  aggregate : Bool := false
  taskInText : Bool := false

structure RerankRecord where
  id : Text
  title : Text := []
  content : Text := []

structure CanonicalRerankRequest where
  model : Text
  addressing : Json := .obj []
  query : Text
  records : List RerankRecord
  topN : Option ℤ := none
  idsOnly : Bool := false

structure RankedRecord where
  id : Text
  score : Json
  title : Option Text := none
  content : Option Text := none

/-- The vectors in the caller's order, where they were made and what they cost. -/
structure EmbeddingVectors (V : Type) where
  vectors : List V
  servedRegion : Text := []
  inputTokens : Option ℕ := none

structure RankedRecords where
  records : List RankedRecord
  servedRegion : Text := []

/-- What a call ends with. -/
inductive Answer (V : Type)
  | generated (response : CanonicalResponse)
  | embedded (vectors : EmbeddingVectors V)
  | ranked (records : RankedRecords)
  | streamed (opened : Opened)

/-- The region an answer is said to have been given in. -/
def Answer.servedRegion {V : Type} : Answer V → Text
  | .generated response => response.servedRegion
  | .embedded vectors => vectors.servedRegion
  | .ranked records => records.servedRegion
  | .streamed opened => opened.region

/-! ### The adapters -/

/-- What the dialects make of a request, and of the objects that come back. Any of it may raise. -/
structure Mappings (β V : Type) where
  /-- A body with one more field, or another value for one. -/
  setField : β → Text → Json → β
  canonicalToGeminiRequest : CanonicalRequest → Except Raised β
  geminiResponseToCanonical : List (Text × Json) → Text → Except Raised CanonicalResponse
  geminiStreamAssembler : ChunkReader
  embedContentBody : CanonicalEmbeddingRequest → List Text → β
  embedContentValues : List (Text × Json) → Except Raised V
  embedContentTokens : List (Text × Json) → Except Raised (Option ℕ)
  predictBody : CanonicalEmbeddingRequest → Text → β
  predictValues : List (Text × Json) → Except Raised V
  predictTokens : List (Text × Json) → Except Raised (Option ℕ)
  rankBody : CanonicalRerankRequest → Text → β
  ranked : List (Text × Json) → CanonicalRerankRequest → Except Raised (List RankedRecord)
  anthropicBody : CanonicalRequest → ℤ → Except Raised (β × Text)
  canonicalToAnthropic : CanonicalRequest → ℤ → (carryEarlier carryThinking : Bool) →
    Except Raised β
  /-- A message's assembler: fed one payload after those before it, and the message it holds. -/
  messageFeed : List (List (Text × Json)) → List (Text × Json) → Except Raised Unit
  message : List (List (Text × Json)) → Except Raised (List (Text × Json))
  anthropicToCanonical : List (Text × Json) → CanonicalRequest → Text →
    Except Raised CanonicalResponse
  anthropicStreamAssembler : CanonicalRequest → Text → ChunkReader
  canonicalToOpenai : CanonicalRequest → Bool → Except Raised β
  openaiToCanonical : List (Text × Json) → CanonicalRequest → Except Raised CanonicalResponse
  openaiStreamAssembler : Bool → ChunkReader

/-- The adapters of one deployment: the transport they share, the models configured for each
publisher, and the texts of a thinking switch. -/
structure VertexAdapters (β V : Type) extends Mappings β V where
  transport : VertexTransport
  models : Text → List (Text × VertexModel)
  defaultMaxTokens : ℤ
  thinkingSwitch : Text → Text
  loads : Text → Option Json
  lower : Text → Text

namespace VertexAdapters

variable {β V : Type} [DecidableEq β] (d : VertexAdapters β V)

def targetsFor (publisher model : Text) (addressing : Json) :
    Except Raised (List (Text × Text)) :=
  targets (d.models publisher) publisher model addressing

/-! #### Google's models -/

def geminiGenerateAttempt (r : CanonicalRequest) (body : β) (region publisher : Text) :
    Program β (Answer V) := do
  let address ← ofExcept
    (d.transport.url region publisher r.model "generateContent" (wireName r.model r.addressing))
  let data ← post address body
  let answer ← ofExcept (d.geminiResponseToCanonical data r.model)
  return .generated { answer with servedRegion := region }

def geminiStreamAttempt (r : CanonicalRequest) (body : β) (region publisher : Text) :
    Program β (Answer V) := do
  let address ← ofExcept (d.transport.url region publisher r.model "streamGenerateContent"
    (wireName r.model r.addressing))
  let opened ← openStream (address ++ ("?alt=sse" : Text)) body d.geminiStreamAssembler region
  return .streamed opened

/-- One call for each body, in order. -/
def postEach (address : Text) : List β → Program β (List (List (Text × Json)))
  | [] => return []
  | body :: bodies => do
    let data ← post address body
    let rest ← postEach address bodies
    return data :: rest

/-- The models that are embedded through `:embedContent`. -/
def embedsContent (wire : Text) : Bool := ("gemini-embedding-2" : Text).isPrefixOf wire

/-- The tokens of every answer, where each reports them. -/
def inputTokens (counts : List (Option ℕ)) : Option ℕ :=
  if none ∈ counts then none else some (counts.filterMap id).sum

def embedBodies (r : CanonicalEmbeddingRequest) : List β :=
  if embedsContent (wireName r.model r.addressing) then
    (if r.aggregate then [r.texts] else r.texts.map ([·])).map (d.embedContentBody r)
  else r.texts.map (d.predictBody r)

def embedValues (r : CanonicalEmbeddingRequest) : List (Text × Json) → Except Raised V :=
  if embedsContent (wireName r.model r.addressing) then d.embedContentValues else d.predictValues

def embedTokens (r : CanonicalEmbeddingRequest) : List (Text × Json) → Except Raised (Option ℕ) :=
  if embedsContent (wireName r.model r.addressing) then d.embedContentTokens else d.predictTokens

def combinesNot (r : CanonicalEmbeddingRequest) : Raised :=
  .failed (.dialect ⟨("Model '" : Text) ++ r.model ++
    ("' embeds one text per vector; it cannot embed " : Text) ++
    Nat.toDigits 10 r.texts.length ++ (" texts as one." : Text)⟩)

def embedAttempt (r : CanonicalEmbeddingRequest) (region publisher : Text) :
    Program β (Answer V) := do
  let wire := wireName r.model r.addressing
  let method : Text := if embedsContent wire then "embedContent" else "predict"
  let address ← ofExcept (d.transport.url region publisher r.model method wire)
  -- `:predict` takes one text and no parts, so several cannot be one embedding.
  if embedsContent wire = false ∧ r.aggregate = true ∧ 1 < r.texts.length then
    raise (combinesNot r)
  else do
    let answers ← postEach address (d.embedBodies r)
    let values ← ofExcept (answers.mapM (d.embedValues r))
    let counts ← ofExcept (answers.mapM (d.embedTokens r))
    return .embedded ⟨values, region, inputTokens counts⟩

def rerankAttempt (r : CanonicalRerankRequest) (body : β) (location _publisher : Text) :
    Program β (Answer V) := do
  let address ← ofExcept (d.transport.rankingUrl location r.model)
  let data ← post address body
  let records ← ofExcept (d.ranked data r)
  return .ranked ⟨records, location⟩

/-! #### Anthropic's models -/

/-- The tokens an answer may take. -/
def maxTokens (r : CanonicalRequest) : ℤ :=
  match r.maxOutputTokens with
  | none => d.defaultMaxTokens
  | some n => if n = 0 then d.defaultMaxTokens else n

def streamedBody (body : β) : β := d.setField body "stream" (.bool true)

/-- The body as it is first sent, and what an answer to it is made on. -/
def firstBody (r : CanonicalRequest) : Except Raised (β × Text) := do
  let (body, madeOn) ← d.anthropicBody r (d.maxTokens r)
  return (d.streamedBody body, madeOn)

/-- The body again, carrying less each time: without earlier turns' thinking, then without any. -/
def withLessThinking (r : CanonicalRequest) : List (Except Raised β) :=
  [(false, true), (true, false)].map fun carrying => do
    let body ← d.canonicalToAnthropic r (d.maxTokens r) carrying.1 carrying.2
    return d.streamedBody body

/-- A refusal of the thinking that was carried back. -/
def refusesThinking : Raised → Bool
  | .failed (.upstream e) =>
    let said := d.lower e.message
    e.statusCode = some 400 ∧ ("thinking" : Text) <:+: said ∧
      (("signature" : Text) <:+: said ∨ ("block" : Text) <:+: said)
  | _ => false

omit [DecidableEq β] in
theorem status_of_refusesThinking {e : UpstreamError}
    (h : d.refusesThinking (.failed (.upstream e)) = true) : e.statusCode = some 400 :=
  (of_decide_eq_true h).1

/-- After the refusal `exc` of the body `sent`: send the next of `less` that is not that body, and
again after a refusal of its own. -/
def resend {T : Type} (send : β → Program β T) :
    List (Except Raised β) → β → Raised → Program β T
  | [], _, exc => raise exc
  | .error e :: _, _, _ => raise e
  | .ok body :: less, sent, exc =>
    if body = sent then resend send less sent exc
    else catching (send body) fun again =>
      if d.refusesThinking again then resend send less body again else raise again

/-- Send a body, and where its thinking is refused send it again carrying less. -/
def sendCarrying {T : Type} (r : CanonicalRequest) (send : β → Program β T) (body : β) :
    Program β T :=
  catching (send body) fun exc =>
    if d.refusesThinking exc then d.resend send (d.withLessThinking r) body exc else raise exc

/-- Feed a message's assembler with every payload. -/
def readMessage :
    List (Except Raised (List (Text × Json))) → List (List (Text × Json)) →
      Except Raised (List (List (Text × Json)))
  | [], seen => .ok seen
  | .error e :: _, _ => .error e
  | .ok payload :: payloads, seen =>
    match d.messageFeed seen payload with
    | .error e => .error e
    | .ok () => readMessage payloads (seen ++ [payload])

/-- What an answer's response holds. -/
def answerIn (r : CanonicalRequest) (madeOn : Text) (payloads : List (List (Text × Json))) :
    Except Raised CanonicalResponse := do
  let data ← d.message payloads
  d.anthropicToCanonical data r madeOn

/-- The answer whole, read from a stream that is closed before it is made sense of. -/
def readWhole (r : CanonicalRequest) (madeOn address : Text) (region : Text) (sent : β) :
    Program β (Answer V) := do
  let response ← enterStream address sent
  let payloads ← afterwards (ofExcept (d.readMessage (ssePayloads d.loads response) [])) .closed
  let answer ← ofExcept (d.answerIn r madeOn payloads)
  return .generated { answer with servedRegion := region }

def anthropicGenerateAttempt (r : CanonicalRequest) (first : β × Text)
    (region publisher : Text) : Program β (Answer V) := do
  let address ← ofExcept
    (d.transport.url region publisher r.model "streamRawPredict" (wireName r.model r.addressing))
  d.sendCarrying r (d.readWhole r first.2 address region) first.1

def anthropicStreamAttempt (r : CanonicalRequest) (first : β × Text)
    (region publisher : Text) : Program β (Answer V) := do
  let address ← ofExcept
    (d.transport.url region publisher r.model "streamRawPredict" (wireName r.model r.addressing))
  let opened ← d.sendCarrying r
    (fun sent => openStream address sent (d.anthropicStreamAssembler r first.2) region) first.1
  return .streamed opened

/-! #### The managed open models -/

/-- The switch's value: off for `disabled`, on for `auto`. -/
def thinks (setting : Thinking) : Except Raised Bool :=
  if setting.mode = "disabled" then .ok false
  else if setting.mode = "auto" then .ok true
  else .error (.failed (.dialect ⟨("These models take thinking on or off, not '" : Text) ++
    setting.mode ++ ("'. It is refused rather than rounded to one of the two: either would " : Text) ++
    ("spend a different amount than was asked for." : Text)⟩))

/-- The dialect's body, with thinking said as a template switch. -/
def openModelBody (publisher : Text) (r : CanonicalRequest) (stream : Bool) :
    Except Raised β := do
  let body ← d.canonicalToOpenai { r with thinking := none } stream
  match r.thinking with
  | none => return body
  | some setting => do
    let on ← thinks setting
    return d.setField body "chat_template_kwargs" (.obj [(d.thinkingSwitch publisher, .bool on)])

/-- The body naming the model as the endpoint knows it. -/
def named (body : β) (publisher model : Text) : β :=
  d.setField body "model" (.str (publisher ++ '/' :: model))

def openModelGenerateAttempt (r : CanonicalRequest) (body : β) (region publisher : Text) :
    Program β (Answer V) := do
  let address ← ofExcept (d.transport.openModelsUrl region r.model)
  let data ← post address (d.named body publisher r.model)
  let answer ← ofExcept (d.openaiToCanonical data r)
  return .generated { answer with servedRegion := region }

def openModelStreamAttempt (r : CanonicalRequest) (body : β) (region publisher : Text) :
    Program β (Answer V) := do
  let address ← ofExcept (d.transport.openModelsUrl region r.model)
  let opened ← openStream address (d.named body publisher r.model)
    (d.openaiStreamAssembler r.includeReasoning) region
  return .streamed opened

end VertexAdapters

end AiraGateway.Vertex
