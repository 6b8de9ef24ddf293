import AiraGateway.Library.Except
import AiraGateway.Library.JsonText
import AiraGateway.Upstreams.Dialect

/-!
# Canonical requests as Anthropic Messages bodies

One system prompt, and the other messages as lists of content blocks. What the API has no word for
is refused: media it does not read, three sampling controls, a budget it would not take, and a
choice of tools it cannot guarantee.

`anthropicBody` is given what each model message goes back as where the caller's history brought
its thinking blocks back; with nothing given every message goes as the caller sent it. A declared
function and an answer's schema stand in the body as declared: their translation is not part of it.

* **What is refused** (`exists_anthropicBody_iff`).
* **What is told** (`anthropicBody_tells_iff`): everything, where the system messages are texts
  alone. The system prompt is a text, and what else a system message holds is left out.
-/

namespace AiraGateway.Anthropic

/-! ### The wire -/

/-- The cache marker, with its lifetime where that is not the ordinary one. -/
structure CacheControl where
  ttl : Option Text
  deriving DecidableEq

inductive Source
  | base64 (mediaType data : Text)
  | text (mediaType data : Text)
  deriving DecidableEq

/-- An image block or a document block. -/
inductive MediaBlock
  | image (source : Source)
  | document (source : Source)
  deriving DecidableEq

structure ToolUse where
  id : Text
  name : Text
  input : List (Text × Json)
  deriving DecidableEq

/-- A result's content: a text, or a list of that text and media. -/
inductive ResultContent
  | text (text : Text)
  | blocks (text : Text) (media : List MediaBlock)
  deriving DecidableEq

structure ToolResult where
  toolUseId : Text
  content : ResultContent
  deriving DecidableEq

inductive BlockContent
  | text (text : Text)
  | toolUse (call : ToolUse)
  | toolResult (result : ToolResult)
  | media (block : MediaBlock)
  | thinking (thinking signature : Text)
  | redactedThinking (data : Text)
  deriving DecidableEq

structure ContentBlock where
  content : BlockContent
  cacheControl : Option CacheControl := none
  deriving DecidableEq

structure WireMessage where
  role : Text
  content : List ContentBlock
  deriving DecidableEq

/-- The system prompt: a text, or one block of it where it is marked. -/
structure SystemPrompt where
  text : Text
  cacheControl : Option CacheControl
  deriving DecidableEq

inductive ThinkingField
  | disabled
  | enabled (budgetTokens : ℤ)
  | adaptive (display : Option Text)
  deriving DecidableEq

structure Tool where
  declaration : ToolDeclaration
  cacheControl : Option CacheControl := none
  deriving DecidableEq

inductive ToolChoiceField
  | none
  | tool (name : Text)
  | any
  deriving DecidableEq

structure OutputConfig where
  effort : Option Text
  format : Option Json
  deriving DecidableEq

structure Body where
  anthropicVersion : Text
  messages : List WireMessage
  maxTokens : ℤ
  system : Option SystemPrompt
  temperature : Option Json
  topP : Option Json
  topK : Option ℤ
  stopSequences : List Text
  thinking : Option ThinkingField
  tools : Option (List Tool)
  toolChoice : Option ToolChoiceField
  outputConfig : Option OutputConfig
  deriving DecidableEq

/-! ### Blocks -/

def textDocument : Text := "text/plain"
def documentTypes : List Text := ["application/pdf"]
def imageTypes : List Text := ["image/jpeg", "image/png", "image/gif", "image/webp"]

def notUtf8 : DialectUnsupported where
  message := "A text/plain attachment that is not UTF-8 cannot be sent to a Claude model."

def noBlock (part : DataPart) : DialectUnsupported where
  message :=
    ("A Claude model reads images (image/gif, image/jpeg, image/png, image/webp), PDF and plain " :
      Text) ++ "text; an attachment of type " ++ part.mediaType ++ " has no block to go in."

/-- An attachment as the block its media type needs: an image, a PDF, or plain text. -/
def attachment (part : DataPart) : Except DialectUnsupported MediaBlock :=
  if part.mediaType = textDocument then
    match utf8Decode part.data with
    | none => .error notUtf8
    | some text => .ok (.document (.text textDocument text))
  else if part.mediaType ∈ documentTypes then
    .ok (.document (.base64 part.mediaType (b64encode part.data)))
  else if part.mediaType ∈ imageTypes then
    .ok (.image (.base64 part.mediaType (b64encode part.data)))
  else .error (noBlock part)

def resultContent (result : ToolResultPart) : Except DialectUnsupported ResultContent :=
  if result.attachments = [] then .ok (.text result.content)
  else do
    let media ← result.attachments.mapM attachment
    .ok (.blocks result.content media)

/-- Canonical parts as content blocks, in order. A blank text is refused as a block and says
nothing. -/
def contentBlocks : List CanonicalPart → Except DialectUnsupported (List ContentBlock)
  | [] => .ok []
  | .text t :: rest => do
    let blocks ← contentBlocks rest
    .ok (if strip t = [] then blocks else { content := .text t } :: blocks)
  | .toolCall call :: rest => do
    let blocks ← contentBlocks rest
    .ok ({ content := .toolUse ⟨call.id, call.name, call.arguments⟩ } :: blocks)
  | .toolResult result :: rest => do
    let content ← resultContent result
    let blocks ← contentBlocks rest
    .ok ({ content := .toolResult ⟨result.callId, content⟩ } :: blocks)
  | .data part :: rest => do
    let block ← attachment part
    let blocks ← contentBlocks rest
    .ok ({ content := .media block } :: blocks)

/-! ### The conversation -/

/-- A message on the wire, and whether a turn of the caller's begins with it. -/
structure WireTurn where
  message : WireMessage
  starts : Bool
  deriving DecidableEq

def wireRole : Role → Text
  | .model => "assistant"
  | _ => "user"

/-- A message's blocks: as they were given back, or as the caller sent it. -/
def turnBlocks (given : Option (List ContentBlock)) (message : CanonicalMessage) :
    Except DialectUnsupported (List ContentBlock) :=
  match given with
  | some blocks => .ok blocks
  | none => contentBlocks message.parts

/-- One message. One with nothing left to say is left out, and so are the system messages. -/
def wireTurn (given : Option (List ContentBlock)) (message : CanonicalMessage) :
    Except DialectUnsupported (List WireTurn) :=
  if message.role = .system then .ok []
  else do
    let blocks ← turnBlocks given message
    .ok (if blocks = [] then []
      else [{ message := ⟨wireRole message.role, blocks⟩
              starts := message.role = .user ∧ message.toolResults = [] }])

/-- What a message goes back as, by its place in the conversation. -/
abbrev Given := ℕ → CanonicalMessage → Option (List ContentBlock)

def wireTurns (given : Given) (conversation : List CanonicalMessage) :
    Except DialectUnsupported (List WireTurn) := do
  let turns ← conversation.zipIdx.mapM fun (message, index) =>
    wireTurn (given index message) message
  .ok turns.flatten

/-- Whether the model turn a budget would continue goes with its thinking block. -/
def carriedLast (given : Given) (conversation : List CanonicalMessage) : Bool :=
  match (conversation.zipIdx.filter (·.1.role = .model)).getLast? with
  | some (message, index) => (given index message).isSome
  | none => false

/-- One system prompt here, several allowed canonically: concatenated, never reduced. -/
def systemText (conversation : List CanonicalMessage) : Text :=
  List.intercalate "\n\n" (((systemMessages conversation).map (·.text)).filter (· ≠ []))

/-! ### Cache markers -/

def cacheControl (request : CanonicalRequest) : CacheControl where
  ttl := if request.cacheTtl = ("1h" : Text) then some "1h" else none

/-- The first element something is made of, replaced by that. -/
def updateFirst {α : Type} (f : α → Option α) : List α → Option (List α)
  | [] => none
  | a :: rest =>
    match f a with
    | some a' => some (a' :: rest)
    | none => (updateFirst f rest).map (a :: ·)

/-- The last element something is made of, replaced by that. -/
def updateLast {α : Type} (f : α → Option α) (l : List α) : Option (List α) :=
  (updateFirst f l.reverse).map List.reverse

/-- A thinking block is refused a marker, and one on an empty result marks nothing. -/
def canBeMarked (block : ContentBlock) : Bool :=
  match block.content with
  | .thinking .. | .redactedThinking .. => false
  | .toolResult ⟨_, .text t⟩ => strip t ≠ []
  | _ => true

def markBlock (control : CacheControl) (block : ContentBlock) : Option ContentBlock :=
  if canBeMarked block then some { block with cacheControl := some control } else none

def markMessage (control : CacheControl) (message : WireMessage) : Option WireMessage :=
  (updateLast (markBlock control) message.content).map fun content =>
    { message with content := content }

/-- The last block that can carry a marker, marked. -/
def markLastBlock (control : CacheControl) (messages : List WireMessage) : List WireMessage :=
  (updateLast (markMessage control) messages).getD messages

/-- The conversation so far, and the caller's last message before that. -/
def markConversation (control : CacheControl) (turns : List WireTurn) : List WireMessage :=
  let messages := markLastBlock control (turns.map (·.message))
  let earlier := (turns.zipIdx.filter (·.1.starts)).map (·.2)
  match (earlier.filter (· + 1 < messages.length)).getLast? with
  | none => messages
  | some start =>
    markLastBlock control (messages.take (start + 1)) ++ messages.drop (start + 1)

/-! ### Thinking -/

def minThinkingBudget : ℤ := 1024

/-- How a thinking block's text comes back where it is asked for. -/
def shown : Text := "summarized"

def noBudget : DialectUnsupported where
  message := "The 'limited' thinking mode needs a token budget."

def budgetBelowMinimum (budget : ℤ) : DialectUnsupported where
  message := ("A thinking budget of " : Text) ++ intText budget ++ " tokens is below the " ++
    intText minThinkingBudget ++ " Anthropic accepts. Raise the budget, or declare that minimum " ++
    "for this model in the catalogue."

def budgetAboveAllowance (budget maxTokens : ℤ) : DialectUnsupported where
  message := ("A thinking budget of " : Text) ++ intText budget ++
    " tokens does not fit inside this request's " ++ intText maxTokens ++
    "-token output allowance: Anthropic draws the thinking from that allowance, so the budget " ++
    "must be below it. Raise maxOutputTokens or lower the budget."

def blockNotBroughtBack : DialectUnsupported where
  message := ("This turn continues a function call on a Claude model with a thinking budget. " :
      Text) ++ "Anthropic requires the model's own thinking block in front of the call it " ++
    "continues, and this request's history does not carry it back — the call's signature is " ++
    "missing, or this use case does not return reasoning. Send this turn with thinking " ++
    "disabled, or use a level word or 'auto' on a model that thinks adaptively."

/-- Whether the latest model turn asked for a function call. -/
def continuesAToolCall (request : CanonicalRequest) : Bool :=
  match (request.messages.filter (·.role = .model)).getLast? with
  | some message => message.toolCalls ≠ []
  | none => false

/-- A budget, or no thinking for a default the turn cannot continue with. -/
def budgetField (request : CanonicalRequest) (setting : Thinking) (maxTokens : ℤ) (carried : Bool) :
    Except DialectUnsupported (Option ThinkingField) :=
  match setting.tokens with
  | none => .error noBudget
  | some budget =>
    if budget < minThinkingBudget then .error (budgetBelowMinimum budget)
    else if maxTokens ≤ budget then .error (budgetAboveAllowance budget maxTokens)
    else if continuesAToolCall request ∧ carried = false then
      if request.thinkingFromDefault then .ok none else .error blockNotBroughtBack
    else .ok (some (.enabled budget))

/-- The thinking to ask for, and the effort to send beside it. -/
def thinkingFields (request : CanonicalRequest) (maxTokens : ℤ) (carried : Bool) :
    Except DialectUnsupported (Option ThinkingField × Option Text) :=
  match request.thinking with
  | none => .ok (none, none)
  | some setting =>
    if setting.mode = thinkingDisabled then .ok (some .disabled, none)
    else if setting.mode = thinkingLimited then do
      let field ← budgetField request setting maxTokens carried
      .ok (field, none)
    else
      .ok (some (.adaptive (if request.includeReasoning then some shown else none)),
        if setting.mode = thinkingAuto then none else some setting.mode)

/-! ### Sampling and tools -/

def cannotHonour (name why : Text) : DialectUnsupported where
  message := ("The Anthropic Messages API has " : Text) ++ why ++ "; '" ++ name ++
    "' cannot be honoured."

/-- The controls the API does not have. -/
def checkSampling (request : CanonicalRequest) : Except DialectUnsupported Unit :=
  if request.seed.isSome then
    .error (cannotHonour "seed" "no seed parameter, so a request cannot be made reproducible here")
  else if request.presencePenalty.isSome then
    .error (cannotHonour "presence_penalty" "no presence penalty")
  else if request.frequencyPenalty.isSome then
    .error (cannotHonour "frequency_penalty" "no frequency penalty")
  else .ok ()

/-- The functions to declare: all of them, unless a required call may name only some. -/
def offered (request : CanonicalRequest) : List ToolDeclaration :=
  match request.toolChoice with
  | none => request.tools
  | some choice =>
    if choice.mode ≠ .any ∨ choice.allowed = [] then request.tools
    else request.tools.filter (·.name ∈ choice.allowed)

/-- The tools, the last one marked where the prefix is cached. -/
def wireTools (request : CanonicalRequest) : List Tool :=
  let tools := (offered request).map fun declaration => { declaration := declaration }
  if request.cachePrefix then
    (updateLast (fun tool => some { tool with cacheControl := some (cacheControl request) })
      tools).getD tools
  else tools

def notValidated : DialectUnsupported where
  message := ("'VALIDATED' asks the provider to guarantee that a call's arguments match the " :
      Text) ++ "declaration. Anthropic gives that guarantee only for strict tools, which this " ++
    "request is not sent with. Use 'AUTO', or a model that can."

def anyWithBudget : DialectUnsupported where
  message := ("'ANY' requires a function call, and Anthropic refuses a required call with a " :
      Text) ++ "thinking budget. Use a level word or 'auto' for thinking, or 'AUTO' for the call."

/-- Whether the request asks for thinking within a budget. -/
def thinksLimited (request : CanonicalRequest) : Bool :=
  request.thinking.any (·.mode = thinkingLimited)

/-- The function-calling mode, or nothing for `auto`. -/
def toolChoiceField (request : CanonicalRequest) :
    Except DialectUnsupported (Option ToolChoiceField) :=
  match request.toolChoice with
  | none => .ok none
  | some choice =>
    match choice.mode with
    | .auto => .ok none
    | .none => .ok (some .none)
    | .validated => .error notValidated
    | .any =>
      if thinksLimited request then .error anyWithBudget
      else
        match choice.allowed with
        | [name] => .ok (some (.tool name))
        | _ => .ok (some .any)

/-- The choice beside the tools; without tools there is none to make. -/
def toolChoice (request : CanonicalRequest) : Except DialectUnsupported (Option ToolChoiceField) :=
  if request.tools = [] then .ok none else toolChoiceField request

/-! ### The body -/

def anthropicVersion : Text := "vertex-2023-10-16"

def outputConfig (request : CanonicalRequest) (effort : Option Text) : Option OutputConfig :=
  let format := request.responseSchema <|> request.responseJsonSchema
  if effort = none ∧ format = none then none else some { effort := effort, format := format }

/-- The system prompt, left out where it is blank. -/
def systemPrompt (request : CanonicalRequest) (text : Text) : Option SystemPrompt :=
  if strip text = [] then none
  else some
    { text := text
      cacheControl := if request.cachePrefix then some (cacheControl request) else none }

/-- A Messages body. -/
def anthropicBodyWith (given : Given) (request : CanonicalRequest) (maxTokens : ℤ) :
    Except DialectUnsupported Body := do
  let conversation := pairedToolResults request.messages
  let turns ← wireTurns given conversation
  checkSampling request
  -- the thinking to ask for, and the effort
  let fields ← thinkingFields request maxTokens (carriedLast given conversation)
  let choice ← toolChoice request
  .ok
    { anthropicVersion := anthropicVersion
      messages :=
        if request.cachePrefix then markConversation (cacheControl request) turns
        else turns.map (·.message)
      maxTokens := maxTokens
      system := systemPrompt request (systemText conversation)
      temperature := request.temperature
      topP := request.topP
      topK := request.topK
      stopSequences := request.stopSequences
      thinking := fields.1
      tools := if request.tools = [] then none else some (wireTools request)
      toolChoice := choice
      outputConfig := outputConfig request fields.2 }

/-- A Messages body that carries no thinking back. -/
def anthropicBody (request : CanonicalRequest) (maxTokens : ℤ) : Except DialectUnsupported Body :=
  anthropicBodyWith (fun _ _ => none) request maxTokens

/-! ### What the wire holds -/

def BlockContent.holding : BlockContent → Holding ToolUse ToolResult MediaBlock
  | text t => { said := [.text t] }
  | toolUse call => { calls := [call] }
  | toolResult result => { results := [result] }
  | media block => { said := [.piece block] }
  | thinking .. | redactedThinking _ => {}

def ContentBlock.holding (block : ContentBlock) : Holding ToolUse ToolResult MediaBlock :=
  block.content.holding

def WireMessage.holding (message : WireMessage) : Holding ToolUse ToolResult MediaBlock :=
  .join (message.content.map ContentBlock.holding)

/-- The system prompt is a text. -/
def Body.systemHolding (body : Body) : Holding ToolUse ToolResult MediaBlock where
  said := (body.system.map fun system => Item.text system.text).toList

/-- A source that holds an attachment's bytes under its type. -/
def Source.Shows (part : DataPart) : Source → Prop
  | base64 mediaType data => mediaType = part.mediaType ∧ b64decode data = some part.data
  | text mediaType data => mediaType = part.mediaType ∧ utf8Encode data = part.data

def MediaBlock.Shows (part : DataPart) : MediaBlock → Prop
  | image source | document source => source.Shows part

def ResultContent.Shows (result : ToolResultPart) : ResultContent → Prop
  | text t => t = result.content ∧ result.attachments = []
  | blocks t media =>
    t = result.content ∧ List.Forall₂ MediaBlock.Shows result.attachments media

/-- **What shows what**: a call under its id and its name with its arguments, a result under the id
of its call with its text and its media, and an attachment as a block of its bytes. -/
def showing : Showing ToolCallPart ToolResultPart DataPart ToolUse ToolResult MediaBlock where
  call call wire := wire.id = call.id ∧ wire.name = call.name ∧ wire.input = call.arguments
  result result wire := wire.toolUseId = result.callId ∧ wire.content.Shows result
  piece := MediaBlock.Shows

/-- The body tells the conversation: the system messages in the prompt, the others in the
messages. -/
def Tells (request : CanonicalRequest) (body : Body) : Prop :=
  let messages := pairedToolResults request.messages
  Told showing (.join ((systemMessages messages).map CanonicalMessage.holding))
      body.systemHolding ∧
    Placed showing CanonicalMessage.holding WireMessage.holding (otherMessages messages)
      body.messages

/-! ### Blocks tell their parts -/

private theorem shows_attachment {part : DataPart} {block : MediaBlock}
    (h : attachment part = .ok block) : block.Shows part := by
  rw [attachment] at h
  split_ifs at h with htext
  · cases hdecode : utf8Decode part.data with
    | none =>
      rw [hdecode] at h
      exact nomatch h
    | some text =>
      rw [hdecode] at h
      cases h
      exact ⟨htext.symm, utf8Encode_of_utf8Decode hdecode⟩
  · cases h
    exact ⟨rfl, b64decode_b64encode part.data⟩
  · cases h
    exact ⟨rfl, b64decode_b64encode part.data⟩

private theorem shows_resultContent {result : ToolResultPart} {content : ResultContent}
    (h : resultContent result = .ok content) : content.Shows result := by
  rw [resultContent] at h
  split_ifs at h with hnone
  · cases h
    exact ⟨rfl, hnone⟩
  · obtain ⟨media, hmedia, h⟩ := bind_eq_ok_iff.mp h
    cases h
    exact ⟨rfl, (mapM_eq_ok_iff.mp hmedia).imp fun _ _ => shows_attachment⟩

/-- **Blocks tell the parts** they are made of. -/
private theorem told_contentBlocks {role : Role} {parts : List CanonicalPart}
    {blocks : List ContentBlock} (h : contentBlocks parts = .ok blocks) :
    Told showing (CanonicalMessage.holding ⟨role, parts⟩)
      (.join (blocks.map ContentBlock.holding)) := by
  induction parts generalizing blocks with
  | nil =>
    cases h
    exact ⟨.nil, .nil, .nil⟩
  | cons part rest ih =>
    cases part with
    | text t =>
      obtain ⟨blocks, hblocks, h⟩ := bind_eq_ok_iff.mp h
      cases h
      have htold := ih hblocks
      split_ifs with hblank
      · exact ⟨htold.calls, htold.results, .blank (strip_eq_nil_iff.mp hblank) htold.said⟩
      · exact ⟨htold.calls, htold.results, .of_text t htold.said⟩
    | data part =>
      obtain ⟨block, hblock, h⟩ := bind_eq_ok_iff.mp h
      obtain ⟨blocks, hblocks, h⟩ := bind_eq_ok_iff.mp h
      cases h
      have htold := ih hblocks
      exact ⟨htold.calls, htold.results, .piece (shows_attachment hblock) htold.said⟩
    | toolCall call =>
      obtain ⟨blocks, hblocks, h⟩ := bind_eq_ok_iff.mp h
      cases h
      have htold := ih hblocks
      exact ⟨.cons ⟨rfl, rfl, rfl⟩ htold.calls, htold.results, htold.said⟩
    | toolResult result =>
      obtain ⟨content, hcontent, h⟩ := bind_eq_ok_iff.mp h
      obtain ⟨blocks, hblocks, h⟩ := bind_eq_ok_iff.mp h
      cases h
      have htold := ih hblocks
      exact ⟨htold.calls, .cons ⟨rfl, shows_resultContent hcontent⟩ htold.results, htold.said⟩

/-! ### Markers hold nothing -/

private theorem updateFirst_eq_some {α : Type} {f : α → Option α} {l l' : List α}
    (h : updateFirst f l = some l') :
    ∃ before a a' after, l = before ++ a :: after ∧ f a = some a' ∧
      l' = before ++ a' :: after := by
  induction l generalizing l' with
  | nil => exact nomatch h
  | cons a l ih =>
    rw [updateFirst] at h
    cases ha : f a with
    | none =>
      rw [ha] at h
      obtain ⟨rest, hrest, rfl⟩ := Option.map_eq_some_iff.mp h
      obtain ⟨before, b, b', after, rfl, hb, rfl⟩ := ih hrest
      exact ⟨a :: before, b, b', after, rfl, hb, rfl⟩
    | some a' =>
      rw [ha] at h
      cases h
      exact ⟨[], a, a', l, rfl, ha, rfl⟩

/-- One element is replaced, by what is made of it. -/
theorem updateLast_eq_some {α : Type} {f : α → Option α} {l l' : List α}
    (h : updateLast f l = some l') :
    ∃ before a a' after, l = before ++ a :: after ∧ f a = some a' ∧
      l' = before ++ a' :: after := by
  obtain ⟨rest, hrest, rfl⟩ := Option.map_eq_some_iff.mp h
  obtain ⟨before, a, a', after, hl, ha, rfl⟩ := updateFirst_eq_some hrest
  refine ⟨after.reverse, a, a', before.reverse, ?_, ha, ?_⟩
  · rw [← List.reverse_reverse l, hl]
    simp
  · simp

theorem updateLast_map {α β : Type} {f : α → Option α} {g : α → β} {l l' : List α}
    (hf : ∀ a a', f a = some a' → g a' = g a) (h : updateLast f l = some l') :
    l'.map g = l.map g := by
  obtain ⟨before, a, a', after, rfl, ha, rfl⟩ := updateLast_eq_some h
  have hsame := hf a a' ha
  simp [hsame]

private theorem holding_markMessage {control : CacheControl} {message message' : WireMessage}
    (h : markMessage control message = some message') : message'.holding = message.holding := by
  obtain ⟨content, hcontent, rfl⟩ := Option.map_eq_some_iff.mp h
  refine congrArg Holding.join (updateLast_map (fun block block' hblock => ?_) hcontent)
  rw [markBlock] at hblock
  split_ifs at hblock
  cases hblock
  rfl

private theorem markLastBlock_map {β : Type} {control : CacheControl} {g : WireMessage → β}
    (hg : ∀ m m', markMessage control m = some m' → g m' = g m) (messages : List WireMessage) :
    (markLastBlock control messages).map g = messages.map g := by
  rw [markLastBlock]
  cases h : updateLast (markMessage control) messages with
  | none => rfl
  | some messages' => exact updateLast_map hg h

/-- What is read of a message and not of its markers is read as if none were set. -/
theorem markConversation_map {β : Type} {control : CacheControl} {g : WireMessage → β}
    (hg : ∀ m m', markMessage control m = some m' → g m' = g m) (turns : List WireTurn) :
    (markConversation control turns).map g = (turns.map (·.message)).map g := by
  simp only [markConversation]
  split
  · exact markLastBlock_map hg _
  · rw [List.map_append, markLastBlock_map hg, ← List.map_append, List.take_append_drop,
      markLastBlock_map hg]

/-! ### The conversation is told -/

/-- A message that goes as it was sent is told by its blocks, and a system message by none. -/
private theorem told_wireTurn {message : CanonicalMessage} {turns : List WireTurn}
    (h : wireTurn none message = .ok turns) :
    if message.role = .system then turns = []
    else Told showing message.holding
      (.join ((turns.map (·.message)).map WireMessage.holding)) := by
  rw [wireTurn] at h
  by_cases hsystem : message.role = .system
  · rw [if_pos hsystem] at h ⊢
    cases h
    rfl
  · rw [if_neg hsystem] at h ⊢
    obtain ⟨blocks, hblocks, h⟩ := bind_eq_ok_iff.mp h
    cases h
    have htold : Told showing message.holding (.join (blocks.map ContentBlock.holding)) :=
      told_contentBlocks hblocks
    split_ifs with hnone
    · rw [hnone] at htold
      exact htold
    · rw [List.map_singleton, List.map_singleton, Holding.join_singleton]
      exact htold

/-- Where what a message goes back as does not hang on its place, each stretch of the wire is one
message's. -/
theorem wireTurns_eq_ok_iff {back : CanonicalMessage → Option (List ContentBlock)}
    {conversation : List CanonicalMessage} {turns : List WireTurn} :
    wireTurns (fun _ => back) conversation = .ok turns ↔
      ∃ stretches, List.Forall₂ (fun m g => wireTurn (back m) m = .ok g) conversation stretches ∧
        stretches.flatten = turns := by
  rw [wireTurns, bind_eq_ok_iff]
  refine exists_congr fun stretches => and_congr ?_ (by rw [Except.ok.injEq])
  rw [mapM_eq_ok_iff]
  conv_rhs => rw [← List.zipIdx_map_fst 0 conversation, List.forall₂_map_left_iff]

private theorem placed_turns {conversation : List CanonicalMessage} {turns : List WireTurn}
    (h : wireTurns (fun _ _ => none) conversation = .ok turns) :
    Placed showing CanonicalMessage.holding WireMessage.holding (otherMessages conversation)
      (turns.map (·.message)) := by
  obtain ⟨stretches, hstretches, rfl⟩ := wireTurns_eq_ok_iff.mp h
  induction hstretches with
  | nil => exact ⟨[], rfl, .nil⟩
  | @cons message turns conversation _ hturns hrest ih =>
    obtain ⟨cut, hcut, htold⟩ := ih (wireTurns_eq_ok_iff.mpr ⟨_, hrest, rfl⟩)
    have hturn := told_wireTurn hturns
    by_cases hsystem : message.role = .system
    · rw [if_pos hsystem] at hturn
      subst hturn
      refine ⟨cut, hcut, ?_⟩
      rw [otherMessages, List.filter_cons_of_neg (by simpa using hsystem)]
      exact htold
    · rw [if_neg hsystem] at hturn
      refine ⟨turns.map (·.message) :: cut, ?_, ?_⟩
      · rw [List.flatten_cons, List.map_append, hcut, List.flatten_cons]
      · rw [otherMessages, List.filter_cons_of_pos (by simpa using hsystem)]
        exact .cons hturn htold

/-! ### The system prompt -/

/-- A message that holds nothing but texts. -/
def TextsAlone (message : CanonicalMessage) : Prop :=
  message.attachments = [] ∧ message.toolCalls = [] ∧ message.toolResults = []

private theorem spells_systemText (conversation : List CanonicalMessage) :
    Spells ((systemMessages conversation).flatMap fun m => m.parts.filterMap CanonicalPart.text?)
      (systemText conversation) := by
  have hblank : blank "\n\n" = true := by decide
  have hspells := Spells.of_intercalate hblank
    ((systemMessages conversation).map fun m => m.parts.filterMap CanonicalPart.text?)
  rw [List.map_map] at hspells
  exact hspells

/-- What the prompt holds, told by the texts of the system messages. -/
private theorem said_systemPrompt (request : CanonicalRequest)
    (conversation : List CanonicalMessage) :
    Conveys showing.piece
      (((systemMessages conversation).flatMap fun m =>
        m.parts.filterMap CanonicalPart.text?).map .text)
      (((systemPrompt request (systemText conversation)).map
        fun system => Item.text system.text).toList) := by
  have hspells := spells_systemText conversation
  rw [systemPrompt]
  by_cases hblank : strip (systemText conversation) = []
  · rw [if_pos hblank]
    exact .of_blanks (hspells.blanks_of_blank (strip_eq_nil_iff.mp hblank))
  · rw [if_neg hblank]
    exact .of_spells hspells

/-- **The prompt tells the system messages** exactly where they are texts alone. -/
private theorem told_systemPrompt_iff {request : CanonicalRequest}
    {conversation : List CanonicalMessage} {body : Body}
    (h : body.system = systemPrompt request (systemText conversation)) :
    Told showing (.join ((systemMessages conversation).map CanonicalMessage.holding))
        body.systemHolding ↔
      ∀ m ∈ systemMessages conversation, TextsAlone m := by
  constructor
  · intro htold m hm
    have hcalls := List.forall₂_nil_right_iff.mp htold.calls
    have hresults := List.forall₂_nil_right_iff.mp htold.results
    rw [Holding.calls_join_map, List.flatMap_eq_nil_iff] at hcalls
    rw [Holding.results_join_map, List.flatMap_eq_nil_iff] at hresults
    refine ⟨?_, hcalls m hm, hresults m hm⟩
    -- a prompt holds no piece
    have hpieces := htold.pieceCount_eq
    have hnone : body.systemHolding.pieceCount = 0 := by
      rw [Body.systemHolding, Holding.pieceCount]
      cases body.system <;> rfl
    rw [hnone, Holding.pieceCount_join, List.map_map, eq_comm,
      List.sum_eq_zero_iff_forall_eq_nat, List.forall_mem_map] at hpieces
    have hcount := hpieces m hm
    rw [Function.comp, CanonicalMessage.pieceCount_holding] at hcount
    exact List.eq_nil_of_length_eq_zero hcount
  · intro halone
    have hsaid := said_systemPrompt request conversation
    rw [List.map_flatMap] at hsaid
    have hsame : ((systemMessages conversation).flatMap fun m => m.holding.said) =
        (systemMessages conversation).flatMap fun m =>
          (m.parts.filterMap CanonicalPart.text?).map .text :=
      List.flatMap_congr fun m hm => CanonicalMessage.said_of_no_attachments (halone m hm).1
    refine ⟨List.forall₂_nil_right_iff.mpr ?_, List.forall₂_nil_right_iff.mpr ?_, ?_⟩
    · rw [Holding.calls_join_map, List.flatMap_eq_nil_iff]
      exact fun m hm => (halone m hm).2.1
    · rw [Holding.results_join_map, List.flatMap_eq_nil_iff]
      exact fun m hm => (halone m hm).2.2
    · rw [Body.systemHolding, h, Holding.said_join_map, hsame]
      exact hsaid

/-! ### What is refused -/

/-- A media type a block goes in: plain text that is UTF-8, a PDF, or one of four images. -/
def Reads (part : DataPart) : Prop :=
  part.mediaType = textDocument ∧ utf8Decode part.data ≠ none ∨
    part.mediaType ∈ documentTypes ∨ part.mediaType ∈ imageTypes

/-- Every attachment of a message, a result's included, has a block to go in. -/
def ReadsAll (message : CanonicalMessage) : Prop :=
  (∀ part ∈ message.attachments, Reads part) ∧
    ∀ media ∈ message.toolResults.map (·.attachments), ∀ part ∈ media, Reads part

/-- A thinking budget the vendor would not take: none that lies between its minimum and the
allowance, or one the caller asked for in a turn that continues a call. -/
def RefusesThinking (request : CanonicalRequest) (maxTokens : ℤ) : Prop :=
  ∃ setting, request.thinking = some setting ∧ setting.mode = thinkingLimited ∧
    ((∀ budget ∈ setting.tokens, budget < minThinkingBudget ∨ maxTokens ≤ budget) ∨
      continuesAToolCall request = true ∧ request.thinkingFromDefault = false)

/-- A choice of tools the vendor cannot be asked for: a guarantee, or a required call with a
budget. -/
def RefusesToolChoice (request : CanonicalRequest) : Prop :=
  request.tools ≠ [] ∧ ∃ choice, request.toolChoice = some choice ∧
    (choice.mode = .validated ∨ choice.mode = .any ∧ thinksLimited request = true)

/-- The request holds something the API has no word for. -/
def Refuses (request : CanonicalRequest) (maxTokens : ℤ) : Prop :=
  (∃ m ∈ request.messages, m.role ≠ .system ∧ ¬ ReadsAll m) ∨
    (request.seed ≠ none ∨ request.presencePenalty ≠ none ∨ request.frequencyPenalty ≠ none) ∨
    RefusesThinking request maxTokens ∨ RefusesToolChoice request

private theorem exists_attachment_iff {part : DataPart} :
    (∃ block, attachment part = .ok block) ↔ Reads part := by
  rw [attachment, Reads]
  by_cases htext : part.mediaType = textDocument
  · have hno : textDocument ∉ documentTypes ∧ textDocument ∉ imageTypes := by decide
    simp only [htext, hno.1, hno.2, if_true, true_and, or_false]
    cases utf8Decode part.data <;> simp
  · rw [if_neg htext]
    by_cases hdocument : part.mediaType ∈ documentTypes
    · simp [hdocument]
    · by_cases himage : part.mediaType ∈ imageTypes <;> simp [htext, hdocument, himage]

private theorem exists_resultContent_iff {result : ToolResultPart} :
    (∃ content, resultContent result = .ok content) ↔
      ∀ part ∈ result.attachments, Reads part := by
  rw [resultContent]
  split_ifs with hnone
  · simp [hnone]
  · simp only [exists_bind_ok_iff, exists_mapM_ok_iff, exists_attachment_iff]

private theorem exists_contentBlocks_iff {role : Role} {parts : List CanonicalPart} :
    (∃ blocks, contentBlocks parts = .ok blocks) ↔ ReadsAll ⟨role, parts⟩ := by
  induction parts with
  | nil => exact ⟨fun _ => ⟨by simp [CanonicalMessage.attachments], by
      simp [CanonicalMessage.toolResults]⟩, fun _ => ⟨[], rfl⟩⟩
  | cons part rest ih =>
    cases part with
    | text t => exact exists_bind_ok_iff.trans ih
    | toolCall call => exact exists_bind_ok_iff.trans ih
    | data part =>
      rw [contentBlocks, exists_bind_iff]
      simp only [exists_bind_ok_iff, ih]
      have hcons : ReadsAll ⟨role, .data part :: rest⟩ ↔ Reads part ∧ ReadsAll ⟨role, rest⟩ := by
        rw [ReadsAll, ReadsAll, ← and_assoc]
        exact and_congr_left' List.forall_mem_cons
      rw [hcons, ← exists_attachment_iff, exists_and_right]
    | toolResult result =>
      rw [contentBlocks, exists_bind_iff]
      simp only [exists_bind_ok_iff, ih]
      have hcons : ReadsAll ⟨role, .toolResult result :: rest⟩ ↔
          (∀ part ∈ result.attachments, Reads part) ∧ ReadsAll ⟨role, rest⟩ := by
        rw [ReadsAll, ReadsAll, and_left_comm]
        exact and_congr_right' List.forall_mem_cons
      rw [hcons, ← exists_resultContent_iff, exists_and_right]

private theorem exists_wireTurns_iff {conversation : List CanonicalMessage} :
    (∃ turns, wireTurns (fun _ _ => none) conversation = .ok turns) ↔
      ∀ m ∈ conversation, m.role ≠ .system → ReadsAll m := by
  rw [wireTurns, exists_bind_ok_iff, exists_mapM_ok_iff]
  conv_rhs => rw [← List.zipIdx_map_fst 0 conversation, List.forall_mem_map]
  refine forall₂_congr fun entry _ => ?_
  obtain ⟨message, index⟩ := entry
  change (∃ turns, wireTurn none message = .ok turns) ↔ (message.role ≠ .system → ReadsAll message)
  rw [wireTurn]
  split_ifs with hsystem
  · simp [hsystem]
  · rw [exists_bind_ok_iff, turnBlocks]
    exact exists_contentBlocks_iff.trans ⟨fun h _ => h, fun h => h hsystem⟩

private theorem exists_checkSampling_iff {request : CanonicalRequest} :
    (∃ u, checkSampling request = .ok u) ↔
      ¬ (request.seed ≠ none ∨ request.presencePenalty ≠ none ∨
        request.frequencyPenalty ≠ none) := by
  rw [checkSampling]
  cases request.seed <;> cases request.presencePenalty <;> cases request.frequencyPenalty <;> simp

private theorem exists_thinkingFields_iff {request : CanonicalRequest} {maxTokens : ℤ} :
    (∃ fields, thinkingFields request maxTokens false = .ok fields) ↔
      ¬ RefusesThinking request maxTokens := by
  rw [thinkingFields, RefusesThinking]
  cases request.thinking with
  | none => simp
  | some setting =>
    by_cases hdisabled : setting.mode = thinkingDisabled
    · have hlimited : setting.mode ≠ thinkingLimited := by
        rw [hdisabled]
        decide
      simp only [if_pos hdisabled]
      refine iff_of_true ⟨_, rfl⟩ ?_
      rintro ⟨_, heq, hmode, -⟩
      cases heq
      exact hlimited hmode
    by_cases hlimited : setting.mode = thinkingLimited
    · simp only [if_neg hdisabled, if_pos hlimited, exists_bind_ok_iff, budgetField]
      cases htokens : setting.tokens with
      | none => simp [hlimited, htokens]
      | some budget =>
        by_cases hlow : budget < minThinkingBudget
        · simp [hlimited, htokens, hlow]
        by_cases hhigh : maxTokens ≤ budget
        · simp [hlimited, htokens, hlow, hhigh]
        cases hcontinues : continuesAToolCall request <;>
          cases hdefault : request.thinkingFromDefault <;>
          simp [hlimited, htokens, hlow, hhigh]
    · simp [hdisabled, hlimited]

private theorem exists_toolChoice_iff {request : CanonicalRequest} :
    (∃ choice, toolChoice request = .ok choice) ↔ ¬ RefusesToolChoice request := by
  rw [toolChoice, RefusesToolChoice]
  split_ifs with htools
  · simp [htools]
  · rw [toolChoiceField]
    cases request.toolChoice with
    | none => simp
    | some choice =>
      cases hmode : choice.mode with
      | auto | none | validated => simp [hmode, htools]
      | any =>
        cases hlimited : thinksLimited request with
        | true => simp [hmode, htools]
        | false =>
          have hfield : ∃ field, (match choice.allowed with
              | [name] => Except.ok (some (ToolChoiceField.tool name))
              | _ => Except.ok (some ToolChoiceField.any) :
                Except DialectUnsupported (Option ToolChoiceField)) = .ok field := by
            split <;> exact ⟨_, rfl⟩
          simp [hmode, hfield]

private theorem carriedLast_none (conversation : List CanonicalMessage) :
    carriedLast (fun _ _ => none) conversation = false := by
  rw [carriedLast]
  split <;> rfl

/-! ### The body -/

/-- A body is there where each of its steps is, and holds what they made. -/
private theorem anthropicBody_eq_ok_iff {request : CanonicalRequest} {maxTokens : ℤ} :
    (∃ body, anthropicBody request maxTokens = .ok body) ↔
      (∃ turns, wireTurns (fun _ _ => none) (pairedToolResults request.messages) = .ok turns) ∧
        (∃ u, checkSampling request = .ok u) ∧
        (∃ fields, thinkingFields request maxTokens false = .ok fields) ∧
        ∃ choice, toolChoice request = .ok choice := by
  rw [anthropicBody, anthropicBodyWith]
  constructor
  · rintro ⟨body, h⟩
    obtain ⟨turns, hturns, h⟩ := bind_eq_ok_iff.mp h
    obtain ⟨u, hu, h⟩ := bind_eq_ok_iff.mp h
    obtain ⟨fields, hfields, h⟩ := bind_eq_ok_iff.mp h
    obtain ⟨choice, hchoice, -⟩ := bind_eq_ok_iff.mp h
    rw [carriedLast_none] at hfields
    exact ⟨⟨turns, hturns⟩, ⟨u, hu⟩, ⟨fields, hfields⟩, choice, hchoice⟩
  · rintro ⟨⟨turns, hturns⟩, ⟨u, hu⟩, ⟨fields, hfields⟩, choice, hchoice⟩
    rw [← carriedLast_none (pairedToolResults request.messages)] at hfields
    exact ⟨_, bind_eq_ok_iff.mpr ⟨turns, hturns, bind_eq_ok_iff.mpr ⟨u, hu,
      bind_eq_ok_iff.mpr ⟨fields, hfields, bind_eq_ok_iff.mpr ⟨choice, hchoice, rfl⟩⟩⟩⟩⟩

/-- **The mapper answers** exactly where it refuses nothing. -/
theorem exists_anthropicBody_iff {request : CanonicalRequest} {maxTokens : ℤ} :
    (∃ body, anthropicBody request maxTokens = .ok body) ↔ ¬ Refuses request maxTokens := by
  have hmessages : (∀ m ∈ pairedToolResults request.messages, m.role ≠ .system → ReadsAll m) ↔
      ¬ ∃ m ∈ request.messages, m.role ≠ .system ∧ ¬ ReadsAll m := by
    rw [forall_paired_iff (fun m m' h => ?_) request.messages]
    · simp only [not_exists, not_and, not_not]
    · rw [h.1, ReadsAll, ReadsAll, h.attachments_eq, h.resultAttachments_eq]
  rw [anthropicBody_eq_ok_iff, exists_wireTurns_iff, hmessages, exists_checkSampling_iff,
    exists_thinkingFields_iff, exists_toolChoice_iff, Refuses]
  simp only [not_or]

/-- **The body tells the conversation** exactly where the system messages are texts alone. -/
theorem anthropicBody_tells_iff {request : CanonicalRequest} {maxTokens : ℤ} {body : Body}
    (h : anthropicBody request maxTokens = .ok body) :
    Tells request body ↔ ∀ m ∈ request.messages, m.role = .system → TextsAlone m := by
  rw [anthropicBody, anthropicBodyWith] at h
  obtain ⟨turns, hturns, h⟩ := bind_eq_ok_iff.mp h
  obtain ⟨u, -, h⟩ := bind_eq_ok_iff.mp h
  obtain ⟨fields, -, h⟩ := bind_eq_ok_iff.mp h
  obtain ⟨choice, -, h⟩ := bind_eq_ok_iff.mp h
  cases h
  have hplaced : Placed showing CanonicalMessage.holding WireMessage.holding
      (otherMessages (pairedToolResults request.messages))
      (if request.cachePrefix then markConversation (cacheControl request) turns
        else turns.map (·.message)) := by
    refine (placed_turns hturns).of_map_eq ?_
    split_ifs
    · exact markConversation_map (fun _ _ => holding_markMessage) turns
    · rfl
  have hsystem : ∀ body : Body,
      body.system = systemPrompt request (systemText (pairedToolResults request.messages)) →
      (Told showing (.join ((systemMessages (pairedToolResults request.messages)).map
        CanonicalMessage.holding)) body.systemHolding ↔
          ∀ m ∈ systemMessages (pairedToolResults request.messages), TextsAlone m) :=
    fun _ => told_systemPrompt_iff
  have hpaired : (∀ m ∈ systemMessages (pairedToolResults request.messages), TextsAlone m) ↔
      ∀ m ∈ request.messages, m.role = .system → TextsAlone m := by
    rw [← forall_paired_iff (fun m m' h => ?_) request.messages]
    · simp [systemMessages]
    · rw [h.1, TextsAlone, TextsAlone, h.attachments_eq, h.toolCalls_eq, h.toolResults_eq_nil_iff]
  rw [← hpaired, Tells]
  exact ⟨fun h => (hsystem _ rfl).mp h.1, fun h => ⟨(hsystem _ rfl).mpr h, hplaced⟩⟩

end AiraGateway.Anthropic
