import AiraGateway.Upstreams.Carried
import AiraGateway.Upstreams.Dialect

/-!
# Canonical requests in the Gemini wire format

Every part has a wire part of its own here, in its place. The parts of the system messages make up
the one system instruction and the other messages are the contents.

* **Everything is told** (`canonicalToGeminiRequest_tells`), whatever the request holds.
-/

namespace AiraGateway.Gemini

/-! ### The wire -/

structure InlineData where
  mimeType : Text
  data : Text
  deriving DecidableEq

structure FunctionCall where
  name : Text
  args : List (Text × Json)
  id : Option Text
  thoughtSignature : Option Text
  deriving DecidableEq

/-- What running a function produced; without media it has no parts. -/
structure FunctionResponse where
  name : Text
  response : List (Text × Json)
  id : Option Text
  parts : List InlineData
  deriving DecidableEq

inductive Part
  | text (text : Text)
  | functionCall (call : FunctionCall)
  | functionResponse (response : FunctionResponse)
  | inlineData (inline : InlineData)
  deriving DecidableEq

structure Content where
  role : Text
  parts : List Part
  deriving DecidableEq

/-- A `generateContent` body. A generation config without fields is absent. -/
structure Body where
  contents : List Content
  systemInstruction : Option (List Part)
  tools : Option Json
  toolConfig : Option Json
  generationConfig : List (Text × Json)
  deriving DecidableEq

/-! ### Parts -/

def inline (part : DataPart) : InlineData where
  mimeType := part.mediaType
  data := b64encode part.data

/-- A tool result as the object the field requires: a document that is one, anything else wrapped
in one. -/
def resultObject (content : Text) : List (Text × Json) :=
  match Json.loads content with
  | some (.obj members) => members
  | some parsed => [("result", parsed)]
  | none => [("result", .str content)]

/-- One part. An id goes only on both halves of a pair, and a signature only where it is not
another dialect's sealed state. -/
def wirePart (answered : List Text) : CanonicalPart → Part
  | .text t => .text t
  | .toolCall call => .functionCall
    { name := call.name
      args := call.arguments
      id := if call.id ∈ answered then some call.id else none
      thoughtSignature :=
        call.signature.filter fun signature => signature ≠ [] ∧ isSealed (some signature) = false }
  | .toolResult result => .functionResponse
    { name := result.name
      response := resultObject result.content
      id := if result.callId ∈ answered then some result.callId else none
      parts := result.attachments.map inline }
  | .data part => .inlineData (inline part)

def wireParts (message : CanonicalMessage) (answered : List Text) : List Part :=
  message.parts.map (wirePart answered)

/-- The ids carried by both a call and a result that answers it. -/
def pairs (messages : List CanonicalMessage) : List Text :=
  (messages.flatMap fun message => message.toolCalls.map (·.id)).filter fun id =>
    messages.any fun message => message.toolResults.any (·.callId = id)

/-! ### The rest of the body -/

/-- A field where there is a value for it. -/
def field (name : Text) (value : Option Json) : List (Text × Json) := value.toList.map (name, ·)

/-- A function's parameters in the field of the vocabulary they were written in. -/
def declaredParameters (tool : ToolDeclaration) : List (Text × Json) :=
  match tool.parametersJsonSchema with
  | some schema => [("parametersJsonSchema", schema)]
  | none => field "parameters" tool.parameters

def functionDeclaration (tool : ToolDeclaration) : Json :=
  .obj (("name", .str tool.name) :: ("description", .str tool.description) ::
    declaredParameters tool)

/-- The vendor's word for a mode. -/
def modeWord : ToolMode → Text
  | .auto => "AUTO"
  | .any => "ANY"
  | .none => "NONE"
  | .validated => "VALIDATED"

def functionCallingConfig (choice : ToolChoice) : Json :=
  .obj (("mode", .str (modeWord choice.mode)) :: field "allowedFunctionNames"
    (if choice.allowed = [] then none else some (.arr (choice.allowed.map .str))))

/-- A budget for the gateway's own words, a level for a vendor's. -/
def thinkingFields (setting : Thinking) : List (Text × Json) :=
  if setting.mode = thinkingDisabled then [("thinkingBudget", .int 0)]
  else if setting.mode = thinkingAuto then [("thinkingBudget", .int (-1))]
  else if setting.mode = thinkingLimited then
    [("thinkingBudget", .int ((setting.tokens.filter (· ≠ 0)).getD (-1)))]
  else [("thinkingLevel", .str setting.mode)]

/-- The thinking config; thoughts are asked for only where the model thinks. -/
def thinkingConfig (request : CanonicalRequest) : List (Text × Json) :=
  field "thinkingConfig" <| request.thinking.map fun setting =>
    .obj (thinkingFields setting ++ field "includeThoughts"
      (if request.includeReasoning ∧ setting.mode ≠ thinkingDisabled then some (.bool true)
        else none))

def voiceConfig (voice : Text) : Json :=
  .obj [("prebuiltVoiceConfig", .obj [("voiceName", .str voice)])]

def speechFields (speech : Speech) : List (Text × Json) :=
  let config : List (Text × Json) :=
    if speech.speakers = [] then [("voiceConfig", voiceConfig (speech.voice.getD []))]
    else
      [("multiSpeakerVoiceConfig", .obj [("speakerVoiceConfigs", .arr (speech.speakers.map
        fun entry => .obj [("speaker", .str entry.speaker),
          ("voiceConfig", voiceConfig entry.voice)]))])]
  config ++ field "languageCode" ((speech.language.filter (· ≠ [])).map .str)

def responseFormat (request : CanonicalRequest) : List (Text × Json) :=
  match request.responseSchema, request.responseJsonSchema with
  | some schema, _ => [("responseMimeType", .str "application/json"), ("responseSchema", schema)]
  | none, some schema =>
    [("responseMimeType", .str "application/json"), ("responseJsonSchema", schema)]
  | none, none => []

def sampling (request : CanonicalRequest) : List (Text × Json) :=
  field "topP" request.topP ++ field "topK" (request.topK.map .int) ++
    field "seed" (request.seed.map .int) ++ field "presencePenalty" request.presencePenalty ++
    field "frequencyPenalty" request.frequencyPenalty ++
    field "stopSequences"
      (if request.stopSequences = [] then none else some (.arr (request.stopSequences.map .str)))

/-- The modality and the voice, always together. -/
def spoken (request : CanonicalRequest) : List (Text × Json) :=
  match request.speech with
  | none => []
  | some speech =>
    [("responseModalities", .arr [.str "AUDIO"]), ("speechConfig", .obj (speechFields speech))]

def generationConfig (request : CanonicalRequest) : List (Text × Json) :=
  field "temperature" request.temperature ++
    field "maxOutputTokens" (request.maxOutputTokens.map .int) ++ thinkingConfig request ++
    responseFormat request ++ sampling request ++ spoken request

/-! ### The body -/

/-- Every system message is kept, in order; ids pair calls and results of the contents alone. -/
def canonicalToGeminiRequest (request : CanonicalRequest) : Body :=
  let messages := pairedToolResults request.messages
  let answered := pairs messages
  let systemParts := (systemMessages messages).flatMap (wireParts · [])
  { contents := (otherMessages messages).map fun message =>
      { role := if message.role = .model then "model" else "user"
        parts := wireParts message answered }
    systemInstruction := if systemParts = [] then none else some systemParts
    tools := if request.tools = [] then none
      else some (.arr [.obj [("functionDeclarations",
        .arr (request.tools.map functionDeclaration))]])
    toolConfig := request.toolChoice.map fun choice =>
      .obj [("functionCallingConfig", functionCallingConfig choice)]
    generationConfig := generationConfig request }

/-! ### What is told -/

def Part.holding : Part → Holding FunctionCall FunctionResponse InlineData
  | text t => { said := [.text t] }
  | functionCall call => { calls := [call] }
  | functionResponse response => { results := [response] }
  | inlineData inline => { said := [.piece inline] }

def Content.holding (content : Content) : Holding FunctionCall FunctionResponse InlineData :=
  .join (content.parts.map Part.holding)

/-- An attachment stands in Base64 under its own type. -/
def showsMedia (part : DataPart) (inline : InlineData) : Prop :=
  inline.mimeType = part.mediaType ∧ b64decode inline.data = some part.data

/-- **What shows what**: a call by its name and arguments and a result by its name, its document
and its media, each under its own id or none. -/
def showing :
    Showing ToolCallPart ToolResultPart DataPart FunctionCall FunctionResponse InlineData where
  call call wire := wire.name = call.name ∧ wire.args = call.arguments ∧
    (wire.id = none ∨ wire.id = some call.id)
  result result wire := wire.name = result.name ∧ wire.response = resultObject result.content ∧
    (wire.id = none ∨ wire.id = some result.callId) ∧
    List.Forall₂ showsMedia result.attachments wire.parts
  piece := showsMedia

/-- The body tells the conversation: the system messages in the instruction, the others in the
contents. -/
def Tells (request : CanonicalRequest) (body : Body) : Prop :=
  let messages := pairedToolResults request.messages
  Placed showing CanonicalMessage.holding Part.holding (systemMessages messages)
      (body.systemInstruction.getD []) ∧
    Placed showing CanonicalMessage.holding Content.holding (otherMessages messages) body.contents

private theorem showsMedia_inline (part : DataPart) : showsMedia part (inline part) :=
  ⟨rfl, b64decode_b64encode part.data⟩

private theorem shows_id (id : Text) (answered : List Text) :
    (if id ∈ answered then some id else none) = none ∨
      (if id ∈ answered then some id else none) = some id := by
  split_ifs
  · exact .inr rfl
  · exact .inl rfl

/-- Every part is told in its place. -/
private theorem told_wireParts (message : CanonicalMessage) (answered : List Text) :
    Told showing message.holding (.join ((wireParts message answered).map Part.holding)) := by
  obtain ⟨role, parts⟩ := message
  rw [wireParts]
  induction parts with
  | nil => exact ⟨.nil, .nil, .nil⟩
  | cons part parts ih =>
    cases part with
    | text t => exact ⟨ih.calls, ih.results, .of_text t ih.said⟩
    | data part => exact ⟨ih.calls, ih.results, .piece (showsMedia_inline part) ih.said⟩
    | toolCall call =>
      exact ⟨.cons ⟨rfl, rfl, shows_id call.id answered⟩ ih.calls, ih.results, ih.said⟩
    | toolResult result =>
      have hmedia : List.Forall₂ showsMedia result.attachments (result.attachments.map inline) := by
        rw [List.forall₂_map_right_iff, List.forall₂_same]
        exact fun part _ => showsMedia_inline part
      exact ⟨ih.calls, .cons ⟨rfl, rfl, shows_id result.callId answered, hmedia⟩ ih.results,
        ih.said⟩

/-- **Everything is told**: no part of any message is dropped or repeated. -/
theorem canonicalToGeminiRequest_tells (request : CanonicalRequest) :
    Tells request (canonicalToGeminiRequest request) := by
  constructor
  · have hsystem : (canonicalToGeminiRequest request).systemInstruction.getD [] =
        (systemMessages (pairedToolResults request.messages)).flatMap (wireParts · []) := by
      simp only [canonicalToGeminiRequest]
      split_ifs with hempty
      · exact hempty.symm
      · rfl
    rw [hsystem]
    exact placed_flatMap fun m _ => told_wireParts m []
  · simp only [canonicalToGeminiRequest]
    rw [← List.flatMap_singleton' (List.map _ _), List.flatMap_map]
    refine placed_flatMap fun m _ => ?_
    rw [List.map_singleton, Holding.join_singleton]
    exact told_wireParts m _

end AiraGateway.Gemini
