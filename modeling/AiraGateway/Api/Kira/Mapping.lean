import AiraGateway.Api.Kira.Schemas
import AiraGateway.Library.JsonText
import Mathlib.Data.List.Chain

/-!
# A KIRA conversation, canonically

A turn keeps its documents before its text, except one with function parts, which is kept in the
order sent. A call that carries no id gets one that is made up (`madeId`): the numbers it is made of
are a parameter, as are the checks of attachments and of the documents a request carries beside its
conversation (`Services`).

* **What a turn comes to** (`partsOf_ok`): in a turn with function parts each run of texts is one
  text and every other part stands for itself, and in any other turn the attachments come first.
* **What a turn calls and answers** (`calls_ok`, `results_ok`).
* **Which ids a request gives** (`checkFunctionParts_ok`): no two calls the same.
-/

namespace AiraGateway.Kira

structure KiraError where
  status : ℕ
  code : Text
  message : Text
  deriving DecidableEq

/-- Why a request is refused: by its schemas, by this surface, or by what it calls. -/
inductive Fault
  | value (message : Text)
  | kira (error : KiraError)
  | elsewhere (message : Text)
  deriving DecidableEq

def toolFault (message : Text) : Fault := .kira ⟨422, "INVALID_TOOL_CONFIGURATION", message⟩

def functionFault (message : Text) : Fault := .kira ⟨422, "INVALID_FUNCTION_RESPONSE", message⟩

/-- What is decided elsewhere: an attachment's checks, a function's parameters and an answer's
schema, a mode of thinking, how a value that is no text is written, and the numbers of made-up
ids, by turn and place. -/
structure Services where
  checkMediaType : Text → ℕ → Except Fault Unit
  decode : Text → ℕ → Except Fault (List UInt8)
  checkSignature : Text → List UInt8 → ℕ → Except Fault Unit
  schemaFault : List (Text × Json) → Option Text
  parseJsonSchema : List (Text × Json) → Text → Except Text Json
  parseSchema : List (Text × Json) → Except Fault Json
  modeFrom : Text → Except Fault Text
  str : Option Json → Text
  uuid : ℕ → ℕ → Text

/-! ### Reading a checked part -/

def textAt (part : RawPart) (key : Text) : Text :=
  match dictGet part key with
  | some (.str text) => text
  | _ => []

def objectAt (part : RawPart) (key : Text) : List (Text × Json) :=
  match dictGet part key with
  | some (.obj members) => members
  | _ => []

/-- The id a call carries. -/
def givenId (part : RawPart) : Option Text :=
  match dictGet part "id" with
  | some (.str id) => some id
  | _ => none

/-- The proof of the reasoning behind a call; the only key that is read. -/
def signatureOf (part : RawPart) : Option Text :=
  match dictGet (objectAt part "opaque_metadata") "thoughtSignature" with
  | some (.str signature) => some signature
  | _ => none

def mediaTypeOf (part : RawPart) : Text :=
  match dictGet part "mime_type", dictGet part "mimeType" with
  | some (.str (c :: rest)), _ => c :: rest
  | _, some (.str text) => text
  | _, _ => "None"

/-- What a result says: a failed call beside what it returned, and a text as the text it is. -/
def contentOf (result : Json) (error : Option Json) : Text :=
  match error with
  | some error => Json.dumpsReadable (.obj [("result", result), ("error", error)])
  | none =>
    match result with
    | .str text => text
    | value => Json.dumpsReadable value

/-! ### Parts -/

section Mapping

variable (S : Services)

def madeId (turn place : ℕ) : Text := ("unanswerable-" : Text) ++ S.uuid turn place

def toolCallPart (turn place : ℕ) (part : RawPart) : ToolCallPart where
  id := orText (givenId part) (madeId S turn place)
  name := textAt part "name"
  arguments := objectAt part "arguments"
  signature := signatureOf part

def toolResultPart (part : RawPart) : ToolResultPart where
  callId := textAt part "call_id"
  name := textAt part "name"
  content := contentOf ((dictGet part "result").getD .null) (given part "error")

/-- One attachment, through every check an attachment gets. -/
def attachment (part : RawPart) (index : ℕ) : Except Fault DataPart := do
  let mediaType := mediaTypeOf part
  S.checkMediaType mediaType index
  let data ← S.decode (textAt part "data") index
  S.checkSignature mediaType data index
  .ok { mediaType, data }

/-- Texts as they stand in one part: joined by a line break. -/
def joined (texts : List Text) : Text := List.intercalate "\n" texts

/-- Some texts as the part they are, if there are any. -/
def flush (texts : List Text) : List CanonicalPart :=
  if texts = [] then [] else [.text (joined texts)]

/-- A turn with function parts, part by part; the texts of a run wait for its end. -/
def inOrder (turn offset place : ℕ) (pending : List Text) :
    List RawPart → Except Fault (List CanonicalPart)
  | [] => .ok (flush pending)
  | part :: rest =>
    match kindOf part with
    | some .call => do
      let others ← inOrder turn offset (place + 1) [] rest
      .ok (flush pending ++ .toolCall (toolCallPart S turn place part) :: others)
    | some .result => do
      let others ← inOrder turn offset (place + 1) [] rest
      .ok (flush pending ++ .toolResult (toolResultPart part) :: others)
    | none =>
      if carries part "text" then
        inOrder turn offset (place + 1) (pending ++ [textAt part "text"]) rest
      else do
        let document ← attachment S part (offset + place)
        let others ← inOrder turn offset (place + 1) [] rest
        .ok (flush pending ++ .data document :: others)

/-- The attachments of a turn, in the order sent. -/
def documentsOf (offset place : ℕ) : List RawPart → Except Fault (List CanonicalPart)
  | [] => .ok []
  | part :: rest =>
    if carries part "text" then documentsOf offset (place + 1) rest
    else do
      let document ← attachment S part (offset + place)
      let others ← documentsOf offset (place + 1) rest
      .ok (.data document :: others)

def textsOf (parts : List RawPart) : List Text :=
  (parts.filter fun part => carries part "text").map fun part => textAt part "text"

/-- A turn's parts: the documents first, then the text. -/
def partsOf (turn offset : ℕ) (attachments : Bool) (content : RequestContent) :
    Except Fault (List CanonicalPart) :=
  if content.kinds ≠ [] then inOrder S turn offset 0 [] content.parts
  else do
    let documents ← (if attachments then documentsOf S offset 0 content.parts else .ok [])
    .ok (documents ++ flush (textsOf content.parts))

/-- The turns, each counted from the parts before it. An attachment of the system's is left out. -/
def messagesOf (turn counted : ℕ) : List RequestTurn → Except Fault (List CanonicalMessage)
  | [] => .ok []
  | said :: rest => do
    let parts ← partsOf S turn counted (said.role ≠ .system) said.content
    let others ← messagesOf (turn + 1) (counted + parts.length) rest
    .ok ({ role := said.role, parts } :: others)

/-! ### Functions -/

def maxTools : ℕ := 128

def nameBegins (c : Char) : Bool := c.isAlpha || c = '_'

/-- A function name as every dialect accepts one. -/
def toolName : Text → Bool
  | [] => false
  | c :: rest =>
    nameBegins c && rest.length ≤ 63 &&
      rest.all fun c => nameBegins c || c.isDigit || c = '.' || c = '-'

/-- A declaration, after those of some names. -/
def toolOf (index : ℕ) (seen : List Text) (spec : ToolSpec) : Except Fault ToolDeclaration := do
  let place : Text := ("tools[" : Text) ++ numeral index ++ "]: "
  if !toolName spec.name then
    .error (toolFault (place ++ "'" ++ spec.name.take 80 ++ "' is not a function name: it starts with "
      ++ "a letter or an underscore and has at most 64 letters, digits, '_', '.' or '-'."))
  else if spec.name ∈ seen then
    .error (toolFault (place ++ "'" ++ spec.name ++ "' is declared twice."))
  else if blank spec.description then
    .error (toolFault (place ++ "the description of '" ++ spec.name ++ "' is blank. The model chooses "
      ++ "a function by what its description says."))
  else
    match S.schemaFault spec.parameters with
    | some rule => .error (toolFault (place ++ "'" ++ spec.name ++ "': " ++ rule ++ "."))
    | none =>
      let type := dictGet spec.parameters "type"
      if type ≠ some (.str "object") then
        .error (toolFault (place ++ "the parameters of '" ++ spec.name ++ "' are a JSON Schema of "
          ++ "type '" ++ S.str type ++ "'; a function takes an object."))
      else
        let what : Text := ("The parameters of '" : Text) ++ spec.name ++ "'"
        match S.parseJsonSchema spec.parameters what with
        | .error rejected => .error (toolFault (place ++ rejected))
        | .ok schema =>
          .ok { name := spec.name, description := spec.description
                parametersJsonSchema := some schema }

def toolsFrom (index : ℕ) (seen : List Text) :
    List ToolSpec → Except Fault (List ToolDeclaration)
  | [] => .ok []
  | spec :: rest => do
    let declaration ← toolOf S index seen spec
    let others ← toolsFrom (index + 1) (spec.name :: seen) rest
    .ok (declaration :: others)

/-- What was said apart from the system's instruction. -/
def ChatRequest.contents (request : ChatRequest) : List RequestContent :=
  ((request.conversationHistory.getD []).map (·.content)) ++ [request.request]

def carriesFunctionParts (request : ChatRequest) : Bool :=
  request.contents.any fun content => !content.kinds.isEmpty

/-- The functions offered. A conversation with function parts offers some. -/
def toolsOf (request : ChatRequest) : Except Fault (List ToolDeclaration) :=
  let specs := request.tools.getD []
  if specs = [] then
    if carriesFunctionParts request then
      .error (toolFault
        ("The conversation carries function parts, but the request declares no tools. "
          ++ "Send the tools with every request of the conversation."))
    else .ok []
  else if specs.length > maxTools then
    .error (toolFault (numeral specs.length ++ " tools are more than the " ++ numeral maxTools
      ++ " one request may offer."))
  else toolsFrom S 0 [] specs

/-- A call names a function that is offered and an id no call before it has; a result names the
function it reports on. -/
def checkNames (offered : List Text) (ids : List Text) (part : RawPart) :
    Except Fault (List Text) :=
  match kindOf part with
  | some .call =>
    if !toolName (textAt part "name") then
      .error (functionFault (("The function call names '" : Text) ++ (textAt part "name").take 80
        ++ "', not a function."))
    else if textAt part "name" ∉ offered then
      .error (toolFault (("The conversation carries a call to '" : Text) ++ textAt part "name"
        ++ "', which the request's tools do not declare. Send the tools with every request of the "
        ++ "conversation."))
    else
      match givenId part with
      | some id =>
        if id ∈ ids then
          .error (functionFault (("Two function calls carry the id '" : Text) ++ id
            ++ "'; a result could answer either."))
        else .ok (id :: ids)
      | none => .ok ids
  | some .result =>
    if textAt part "name" = [] then
      .error (functionFault (("The function result '" : Text) ++ textAt part "call_id"
        ++ "' names no function; it names the one its call was to."))
    else .ok ids
  | none => .ok ids

/-- Each call and result, oldest turn first. -/
def checkFunctionParts (request : ChatRequest) (tools : List ToolDeclaration) :
    Except Fault Unit := do
  let _ ← (request.contents.flatMap (·.parts)).foldlM (checkNames (tools.map (·.name))) []
  .ok ()

/-- The results of a turn, each answering a call that is open; what stays open after them. -/
def checkResults (openCalls : List (Text × Text)) :
    List ToolResultPart → Except Fault (List (Text × Text))
  | [] => .ok openCalls
  | result :: rest =>
    match dictGet openCalls result.callId with
    | none =>
      .error (functionFault (("The function result '" : Text) ++ result.callId
        ++ "' answers no function call of the model turn before it."))
    | some called =>
      if called ≠ result.name then
        .error (functionFault (("The function result '" : Text) ++ result.callId ++ "' names '"
          ++ result.name ++ "', but that call was to '" ++ called ++ "'."))
      else checkResults (dictErase openCalls result.callId) rest

/-- The names of some calls by their ids. -/
def namesById (calls : List ToolCallPart) : List (Text × Text) :=
  calls.foldl (fun names call => dictSet names call.id call.name) []

/-- Every result answers a call of the model turn before it, by id and by name. -/
def checkResultsAnswerCalls (openCalls : List (Text × Text)) :
    List CanonicalMessage → Except Fault Unit
  | [] => .ok ()
  | message :: rest =>
    if message.role = .model then checkResultsAnswerCalls (namesById message.toolCalls) rest
    else do
      let openCalls ← checkResults openCalls message.toolResults
      checkResultsAnswerCalls openCalls rest

def thinkingOf (setting : ThinkingSetting) : Except Fault Thinking := do
  let mode ← S.modeFrom setting.mode
  .ok { mode, tokens := if mode = "limited" then setting.tokens else none }

/-- A chat request onto the canonical one. -/
def toCanonical (request : ChatRequest) (model : Text) : Except Fault CanonicalRequest := do
  let tools ← toolsOf S request
  checkFunctionParts request tools
  let messages ← messagesOf S 0 0 request.turns
  checkResultsAnswerCalls [] messages
  let thinking ← request.thinking.mapM (thinkingOf S)
  let responseSchema ← request.responseSchema.mapM S.parseSchema
  .ok
    { model, messages, temperature := some request.temperature
      maxOutputTokens := request.maxTokens, thinking, responseSchema, tools }

/-- A request as it arrives: accepted by its schemas and mapped. -/
def receive (request : ChatRequest) (model : Text) : Except Fault CanonicalRequest := do
  let checked ← (validate request).mapError .value
  toCanonical S checked model

end Mapping

/-! ### What a part stands for -/

/-- A call of a request and the one of a message. -/
structure ShowsCall (part : RawPart) (call : ToolCallPart) : Prop where
  id : ∀ id, dictGet part "id" = some (.str id) → call.id = id
  name : dictGet part "name" = some (.str call.name)
  arguments : (dictGet part "arguments").getD (.obj []) = .obj call.arguments
  signature : call.signature = signatureOf part

structure ShowsResult (part : RawPart) (result : ToolResultPart) : Prop where
  callId : dictGet part "call_id" = some (.str result.callId)
  name : dictGet part "name" = some (.str result.name)
  content : ∃ value, dictGet part "result" = some value ∧
    result.content = contentOf value (given part "error")
  attachments : result.attachments = []

structure ShowsAttachment (S : Services) (part : RawPart) (document : DataPart) : Prop where
  mediaType : document.mediaType = mediaTypeOf part
  data : ∃ index, S.decode (textAt part "data") index = .ok document.data

/-- A part of a request that is no text, as it stands in a message. -/
inductive Shows (S : Services) (part : RawPart) : CanonicalPart → Prop
  | call {call : ToolCallPart} (hkind : sentKind part = some .call) (h : ShowsCall part call) :
    Shows S part (.toolCall call)
  | result {result : ToolResultPart} (hkind : sentKind part = some .result)
    (h : ShowsResult part result) : Shows S part (.toolResult result)
  | attachment {document : DataPart} (hkind : sentKind part = none)
    (htext : carries part "text" = false) (h : ShowsAttachment S part document) :
    Shows S part (.data document)

def isText (part : RawPart) : Bool := sentKind part = none && carries part "text"

namespace Checked

variable {part checked : RawPart} (h : Checked part checked)

include h

theorem given_eq {key : Text} (hkey : key ≠ ("type" : Text)) :
    given checked key = given part key := by
  rw [given, given, h.others key hkey]

theorem carries_eq {key : Text} (hkey : key ≠ ("type" : Text)) :
    carries checked key = carries part key := by
  rw [carries, carries, h.others key hkey]

theorem textAt_eq {key : Text} (hkey : key ≠ ("type" : Text)) :
    textAt checked key = textAt part key := by
  rw [textAt, textAt, h.others key hkey]

theorem objectAt_eq {key : Text} (hkey : key ≠ ("type" : Text)) :
    objectAt checked key = objectAt part key := by
  rw [objectAt, objectAt, h.others key hkey]

theorem givenId_eq : givenId checked = givenId part := by
  rw [givenId, givenId, h.others _ (by decide)]

theorem signatureOf_eq : signatureOf checked = signatureOf part := by
  rw [signatureOf, signatureOf, h.objectAt_eq (by decide)]

theorem mediaTypeOf_eq : mediaTypeOf checked = mediaTypeOf part := by
  rw [mediaTypeOf, mediaTypeOf, h.others _ (by decide), h.others _ (by decide)]

theorem isText_eq : isText part = (kindOf checked = none && carries checked "text") := by
  rw [isText, h.kind, h.carries_eq (by decide)]

end Checked

theorem textAt_of_get {part : RawPart} {key text : Text}
    (h : dictGet part key = some (.str text)) : textAt part key = text := by
  rw [textAt, h]

/-- A text that is there is the one that is read. -/
theorem dictGet_of_isStr {part : RawPart} {key : Text} (h : (dictGet part key).any isStr = true) :
    dictGet part key = some (.str (textAt part key)) := by
  obtain ⟨value, hvalue, hstr⟩ := (Option.any_eq_true _ _).mp h
  cases value with
  | str text => rw [textAt_of_get hvalue, hvalue]
  | null | bool | int | float | arr | obj => exact absurd hstr Bool.false_ne_true

theorem dictGet_of_textAt {part : RawPart} {key : Text} (h : textAt part key ≠ []) :
    dictGet part key = some (.str (textAt part key)) := by
  refine dictGet_of_isStr ((Option.any_eq_true _ _).mpr ?_)
  rw [textAt] at h
  split at h
  · next text hfound => exact ⟨_, hfound, rfl⟩
  · exact absurd rfl h

theorem isStr_of_isFilledStr {value : Json} (h : isFilledStr value = true) :
    isStr value = true := by
  cases value with
  | str text => rfl
  | null | bool | int | float | arr | obj => exact absurd h Bool.false_ne_true

theorem givenId_eq_some_iff {part : RawPart} {id : Text} :
    givenId part = some id ↔ dictGet part "id" = some (.str id) := by
  rw [givenId]
  split
  · next found hfound => rw [hfound, Option.some.injEq, Option.some.injEq, Json.str.injEq]
  · next hother => exact iff_of_false (Option.some_ne_none _).symm (hother id)

/-- An id that a call carries is not blank, so it is the call's. -/
theorem orText_givenId {part : RawPart} (htyped : Typed part (some .call)) (made : Text) :
    orText (givenId part) made = (givenId part).getD made := by
  cases hid : givenId part with
  | none => rfl
  | some id =>
    have hgiven : given part "id" = some (.str id) := by
      rw [given, givenId_eq_some_iff.mp hid]
      rfl
    have hfilled := htyped.1
    rw [hgiven] at hfilled
    cases id with
    | nil => exact absurd hfilled (by decide)
    | cons c rest => rfl

section Shown

variable {S : Services} {part checked : RawPart} (h : Checked part checked)

include h

/-- A call that is made of a checked part shows the part as it was sent. -/
theorem shows_call (hkind : kindOf checked = some .call) (turn place : ℕ) :
    Shows S part (.toolCall (toolCallPart S turn place checked)) := by
  have hsent : sentKind part = some .call := h.kind.symm.trans hkind
  have htyped := h.typed
  rw [hsent] at htyped
  refine .call hsent ⟨fun id hid => ?_, ?_, ?_, ?_⟩
  · change orText (givenId checked) _ = id
    rw [h.givenId_eq, orText_givenId htyped, givenId_eq_some_iff.mpr hid, Option.getD_some]
  · rw [dictGet_of_isStr htyped.2.1]
    exact congrArg (some <| Json.str ·) (h.textAt_eq (by decide)).symm
  · have harguments := htyped.2.2.1
    change _ = Json.obj (objectAt checked "arguments")
    rw [h.objectAt_eq (by decide), objectAt]
    cases hfound : dictGet part "arguments" with
    | none => rfl
    | some value =>
      rw [hfound] at harguments
      cases value with
      | obj members => rfl
      | null | bool | int | float | str | arr => exact absurd harguments Bool.false_ne_true
  · exact h.signatureOf_eq

theorem shows_result (hkind : kindOf checked = some .result)
    (hname : textAt checked "name" ≠ []) : Shows S part (.toolResult (toolResultPart checked)) := by
  have hsent : sentKind part = some .result := h.kind.symm.trans hkind
  have htyped := h.typed
  rw [hsent] at htyped
  obtain ⟨hid, -, hresult, -⟩ := htyped
  have hid : (dictGet part "call_id").any isStr = true := by
    obtain ⟨value, hvalue, hfilled⟩ := (Option.any_eq_true _ _).mp hid
    exact (Option.any_eq_true _ _).mpr ⟨value, hvalue, isStr_of_isFilledStr hfilled⟩
  obtain ⟨value, hvalue⟩ := Option.isSome_iff_exists.mp hresult
  refine .result hsent ⟨?_, ?_, ⟨value, hvalue, ?_⟩, rfl⟩
  · rw [dictGet_of_isStr hid]
    exact congrArg (some <| Json.str ·) (h.textAt_eq (by decide)).symm
  · rw [← h.others "name" (by decide), dictGet_of_textAt hname]
    rfl
  · change contentOf ((dictGet checked "result").getD .null) (given checked "error") = _
    rw [h.others _ (by decide), h.given_eq (by decide), hvalue]
    rfl

theorem shows_attachment (hkind : kindOf checked = none) (htext : carries checked "text" = false)
    {index : ℕ} {document : DataPart} (hdocument : attachment S checked index = .ok document) :
    Shows S part (.data document) := by
  obtain ⟨_, -, hdocument⟩ := bind_eq_ok_iff.mp hdocument
  obtain ⟨data, hdata, hdocument⟩ := bind_eq_ok_iff.mp hdocument
  obtain ⟨_, -, hdocument⟩ := bind_eq_ok_iff.mp hdocument
  obtain rfl := Except.ok.inj hdocument
  rw [h.textAt_eq (by decide)] at hdata
  rw [h.carries_eq (by decide)] at htext
  exact .attachment (h.kind.symm.trans hkind) htext ⟨h.mediaTypeOf_eq, index, hdata⟩

end Shown

/-! ### What a turn comes to -/

/-- Some texts in a row as one text, or one part that is no text. -/
inductive RunShows (S : Services) : List RawPart → CanonicalPart → Prop
  | texts {run : List RawPart} (hne : run ≠ []) (htexts : ∀ part ∈ run, isText part) :
    RunShows S run (.text (joined (textsOf run)))
  | single {part : RawPart} {shown : CanonicalPart} (h : Shows S part shown) :
    RunShows S [part] shown

/-- Parts in the order sent, each run of texts that no text stands before or after as one. -/
def InOrder (S : Services) (parts : List RawPart) (shown : List CanonicalPart) : Prop :=
  ∃ runs : List (List RawPart), runs.flatten = parts ∧ List.Forall₂ (RunShows S) runs shown ∧
    runs.IsChain fun run next => ¬((∀ part ∈ run, isText part) ∧ ∀ part ∈ next, isText part)

theorem Shows.not_isText {S : Services} {part : RawPart} {shown : CanonicalPart}
    (h : Shows S part shown) : isText part = false := by
  cases h with
  | call hkind _ | result hkind _ => rw [isText, hkind]; rfl
  | attachment _ htext _ => rw [isText, htext, Bool.and_false]

theorem flush_textsOf {waiting : List RawPart} (hwaiting : ∀ text ∈ waiting, isText text)
    (hne : waiting ≠ []) : flush (textsOf waiting) = [.text (joined (textsOf waiting))] := by
  have hall : waiting.filter (fun part => carries part "text") = waiting :=
    List.filter_eq_self.mpr fun part hpart => by
      have htext := hwaiting part hpart
      rw [isText, Bool.and_eq_true] at htext
      exact htext.2
  refine if_neg fun hnone => hne ?_
  rw [textsOf, hall] at hnone
  exact List.map_eq_nil_iff.mp hnone

/-- A part that is no text stands for itself behind the texts before it. -/
theorem InOrder.cons {S : Services} {waiting rest : List RawPart} {part : RawPart}
    {shown : CanonicalPart} {others : List CanonicalPart}
    (hwaiting : ∀ text ∈ waiting, isText text) (hshown : Shows S part shown)
    (hrest : InOrder S rest others) :
    InOrder S (waiting ++ part :: rest) (flush (textsOf waiting) ++ shown :: others) := by
  obtain ⟨runs, rfl, hruns, hchain⟩ := hrest
  have hsingle : ¬∀ text ∈ [part], isText text := by
    rw [List.forall_mem_singleton, hshown.not_isText]
    exact Bool.false_ne_true
  have hbehind : ([part] :: runs).IsChain fun run next =>
      ¬((∀ part ∈ run, isText part) ∧ ∀ part ∈ next, isText part) :=
    List.isChain_cons.mpr ⟨fun _ _ hboth => hsingle hboth.1, hchain⟩
  by_cases hnone : waiting = []
  · subst hnone
    exact ⟨[part] :: runs, rfl, .cons (.single hshown) hruns, hbehind⟩
  · rw [flush_textsOf hwaiting hnone]
    refine ⟨waiting :: [part] :: runs, rfl, .cons (.texts hnone hwaiting)
      (.cons (.single hshown) hruns), List.isChain_cons.mpr ⟨fun next hnext hboth => ?_, hbehind⟩⟩
    obtain rfl := Option.some.inj hnext
    exact hsingle hboth.2

/-- A turn that ends with some texts. -/
theorem InOrder.nil {S : Services} {waiting : List RawPart}
    (hwaiting : ∀ text ∈ waiting, isText text) : InOrder S waiting (flush (textsOf waiting)) := by
  by_cases hnone : waiting = []
  · subst hnone
    exact ⟨[], rfl, .nil, .nil⟩
  · rw [flush_textsOf hwaiting hnone]
    exact ⟨[waiting], List.append_nil _, .cons (.texts hnone hwaiting) .nil, .singleton _⟩

theorem textsOf_snoc {waiting : List RawPart} {part : RawPart} (h : isText part = true) :
    textsOf (waiting ++ [part]) = textsOf waiting ++ [textAt part "text"] := by
  rw [isText, Bool.and_eq_true] at h
  have hone : [part].filter (fun part => carries part "text") = [part] :=
    List.filter_cons_of_pos h.2
  rw [textsOf, textsOf, List.filter_append, List.map_append, hone]
  rfl

/-- **A turn in the order sent**: the texts that wait are the last ones before its first part. -/
theorem inOrder_ok {S : Services} {turn offset place : ℕ} {waiting sent checked : List RawPart}
    {shown : List CanonicalPart} (hwaiting : ∀ text ∈ waiting, isText text)
    (hchecked : List.Forall₂ Checked sent checked)
    (hnamed : ∀ part ∈ checked, kindOf part = some .result → textAt part "name" ≠ [])
    (h : inOrder S turn offset place (textsOf waiting) checked = .ok shown) :
    InOrder S (waiting ++ sent) shown := by
  induction hchecked generalizing place waiting shown with
  | nil =>
    obtain rfl := Except.ok.inj h
    rw [List.append_nil]
    exact .nil hwaiting
  | @cons part checked sent rest hpart _ ih =>
    rw [List.forall_mem_cons] at hnamed
    have hnothing : ∀ text ∈ ([] : List RawPart), isText text := fun _ hmem =>
      absurd hmem List.not_mem_nil
    rw [inOrder] at h
    split at h
    · next hkind =>
      obtain ⟨others, hothers, h⟩ := bind_eq_ok_iff.mp h
      obtain rfl := Except.ok.inj h
      exact .cons hwaiting (shows_call hpart hkind turn place)
        (ih hnothing hnamed.2 hothers)
    · next hkind =>
      obtain ⟨others, hothers, h⟩ := bind_eq_ok_iff.mp h
      obtain rfl := Except.ok.inj h
      exact .cons hwaiting (shows_result hpart hkind (hnamed.1 hkind))
        (ih hnothing hnamed.2 hothers)
    · next hkind =>
      by_cases htext : carries checked "text" = true
      · rw [if_pos htext] at h
        have hpartText : isText part = true := by
          rw [hpart.isText_eq, hkind, htext]
          rfl
        rw [hpart.textAt_eq (by decide), ← textsOf_snoc hpartText] at h
        have hmore : ∀ text ∈ waiting ++ [part], isText text := by
          intro text hmem
          rcases List.mem_append.mp hmem with hmem | hmem
          · exact hwaiting text hmem
          · rw [List.mem_singleton.mp hmem]
            exact hpartText
        have hrest := ih hmore hnamed.2 h
        rwa [List.append_assoc] at hrest
      · rw [if_neg htext] at h
        obtain ⟨document, hdocument, h⟩ := bind_eq_ok_iff.mp h
        obtain ⟨others, hothers, h⟩ := bind_eq_ok_iff.mp h
        obtain rfl := Except.ok.inj h
        exact .cons hwaiting (shows_attachment hpart hkind (Bool.eq_false_of_not_eq_true htext)
          hdocument) (ih hnothing hnamed.2 hothers)

theorem textsOf_checked {sent checked : List RawPart} (h : List.Forall₂ Checked sent checked) :
    textsOf checked = textsOf sent := by
  induction h with
  | nil => rfl
  | @cons part checked sent rest hpart _ ih =>
    rw [textsOf, textsOf] at ih ⊢
    rw [List.filter_cons, List.filter_cons, hpart.carries_eq (by decide)]
    split_ifs
    · rw [List.map_cons, List.map_cons, ih, hpart.textAt_eq (by decide)]
    · exact ih

theorem kinds_checked {sent checked : List RawPart} (h : List.Forall₂ Checked sent checked) :
    checked.filterMap kindOf = sent.filterMap sentKind := by
  induction h with
  | nil => rfl
  | cons hpart _ ih => rw [List.filterMap_cons, List.filterMap_cons, hpart.kind, ih]

/-- The attachments of a turn without function parts, each in its place among them. -/
theorem documentsOf_ok {S : Services} {offset place : ℕ} {sent checked : List RawPart}
    {shown : List CanonicalPart} (hchecked : List.Forall₂ Checked sent checked)
    (hkinds : checked.filterMap kindOf = []) (h : documentsOf S offset place checked = .ok shown) :
    List.Forall₂ (Shows S) (sent.filter fun part => !isText part) shown := by
  induction hchecked generalizing place shown with
  | nil =>
    obtain rfl := Except.ok.inj h
    exact .nil
  | @cons part checked sent rest hpart _ ih =>
    have hkind : kindOf checked = none := by
      rw [List.filterMap_eq_nil_iff] at hkinds
      exact hkinds checked List.mem_cons_self
    rw [List.filterMap_cons_none hkind] at hkinds
    have htext : isText part = carries checked "text" := by
      rw [hpart.isText_eq, hkind]
      rfl
    rw [documentsOf] at h
    split at h
    · next hcarries =>
      rw [List.filter_cons_of_neg (by rw [htext, hcarries]; decide)]
      exact ih hkinds h
    · next hcarries =>
      have hcarries := Bool.eq_false_of_not_eq_true hcarries
      obtain ⟨document, hdocument, h⟩ := bind_eq_ok_iff.mp h
      obtain ⟨others, hothers, h⟩ := bind_eq_ok_iff.mp h
      obtain rfl := Except.ok.inj h
      rw [List.filter_cons_of_pos (by rw [htext, hcarries]; decide)]
      exact .cons (shows_attachment hpart hkind hcarries hdocument) (ih hkinds hothers)

/-- A turn of a request and the message it comes to. The attachments of the system's instruction
are left out. -/
structure Carried (S : Services) (sent : RequestTurn) (message : CanonicalMessage) : Prop where
  role : message.role = sent.role
  ordered : sent.content.parts.filterMap sentKind ≠ [] →
    InOrder S sent.content.parts message.parts
  documentsFirst : sent.content.parts.filterMap sentKind = [] → ∃ documents,
    message.parts = documents ++ flush (textsOf sent.content.parts) ∧
      if sent.role = .system then documents = []
      else List.Forall₂ (Shows S) (sent.content.parts.filter fun part => !isText part) documents

/-- **What a turn comes to.** -/
theorem partsOf_ok {S : Services} {turn counted : ℕ} {sent checked : RequestTurn}
    {shown : List CanonicalPart} (haccepted : Accepted sent checked)
    (hnamed : ∀ part ∈ checked.content.parts,
      kindOf part = some .result → textAt part "name" ≠ [])
    (h : partsOf S turn counted (checked.role ≠ .system) checked.content = .ok shown) :
    Carried S sent { role := checked.role, parts := shown } := by
  have hkinds : checked.content.kinds = sent.content.parts.filterMap sentKind :=
    kinds_checked haccepted.parts
  refine ⟨haccepted.role, fun hsome => ?_, fun hnone => ?_⟩
  · rw [partsOf, if_pos (by rwa [hkinds])] at h
    have hempty : ∀ text ∈ ([] : List RawPart), isText text := fun _ hmem =>
      absurd hmem List.not_mem_nil
    exact inOrder_ok hempty haccepted.parts hnamed h
  · rw [← hkinds] at hnone
    rw [partsOf, if_neg (not_not.mpr hnone)] at h
    obtain ⟨documents, hdocuments, h⟩ := bind_eq_ok_iff.mp h
    obtain rfl := Except.ok.inj h
    refine ⟨documents, by rw [textsOf_checked haccepted.parts], ?_⟩
    rw [← haccepted.role]
    by_cases hsystem : checked.role = .system
    · rw [if_pos hsystem]
      rw [if_neg (by simp [hsystem])] at hdocuments
      exact (Except.ok.inj hdocuments).symm
    · rw [if_neg hsystem]
      rw [if_pos (by simp [hsystem])] at hdocuments
      exact documentsOf_ok haccepted.parts hnone hdocuments

/-! ### What a turn calls and answers -/

/-- A call of a request, with the numbers its id would be made of. -/
structure CallSite where
  part : RawPart
  turn : ℕ
  place : ℕ

def sitesOf (turn place : ℕ) : List RawPart → List CallSite
  | [] => []
  | part :: rest =>
    if kindOf part = some .call then ⟨part, turn, place⟩ :: sitesOf turn (place + 1) rest
    else sitesOf turn (place + 1) rest

def callAt (S : Services) (site : CallSite) : ToolCallPart :=
  toolCallPart S site.turn site.place site.part

def resultsOf (parts : List RawPart) : List ToolResultPart :=
  (parts.filter fun part => kindOf part = some .result).map toolResultPart

theorem toolCalls_flush (texts : List Text) :
    (flush texts).filterMap CanonicalPart.toolCall? = [] := by
  rw [flush]
  split_ifs <;> rfl

theorem toolResults_flush (texts : List Text) :
    (flush texts).filterMap CanonicalPart.toolResult? = [] := by
  rw [flush]
  split_ifs <;> rfl

theorem inOrder_calls {S : Services} {turn offset place : ℕ} {pending : List Text}
    {parts : List RawPart} {shown : List CanonicalPart}
    (h : inOrder S turn offset place pending parts = .ok shown) :
    shown.filterMap CanonicalPart.toolCall? = (sitesOf turn place parts).map (callAt S) ∧
      shown.filterMap CanonicalPart.toolResult? = resultsOf parts := by
  induction parts generalizing place pending shown with
  | nil =>
    obtain rfl := Except.ok.inj h
    exact ⟨toolCalls_flush pending, toolResults_flush pending⟩
  | cons part rest ih =>
    rw [inOrder] at h
    rw [sitesOf, resultsOf, List.filter_cons]
    split at h
    · next hkind =>
      obtain ⟨others, hothers, h⟩ := bind_eq_ok_iff.mp h
      obtain rfl := Except.ok.inj h
      obtain ⟨hcalls, hresults⟩ := ih hothers
      rw [List.filterMap_append, List.filterMap_append, toolCalls_flush, toolResults_flush]
      simp only [hkind, if_true, List.nil_append, List.map_cons]
      refine ⟨?_, hresults⟩
      rw [← hcalls]
      rfl
    · next hkind =>
      obtain ⟨others, hothers, h⟩ := bind_eq_ok_iff.mp h
      obtain rfl := Except.ok.inj h
      obtain ⟨hcalls, hresults⟩ := ih hothers
      rw [List.filterMap_append, List.filterMap_append, toolCalls_flush, toolResults_flush]
      simp only [hkind, List.nil_append]
      refine ⟨hcalls, ?_⟩
      rw [resultsOf] at hresults
      simp [CanonicalPart.toolResult?, hresults]
    · next hkind =>
      simp only [hkind, reduceCtorEq, if_false, decide_false, Bool.false_eq_true]
      split at h
      · exact ih h
      · obtain ⟨document, -, h⟩ := bind_eq_ok_iff.mp h
        obtain ⟨others, hothers, h⟩ := bind_eq_ok_iff.mp h
        obtain rfl := Except.ok.inj h
        obtain ⟨hcalls, hresults⟩ := ih hothers
        rw [List.filterMap_append, List.filterMap_append, toolCalls_flush, toolResults_flush]
        exact ⟨hcalls, hresults⟩

theorem documentsOf_calls {S : Services} {offset place : ℕ} {parts : List RawPart}
    {shown : List CanonicalPart} (h : documentsOf S offset place parts = .ok shown) :
    shown.filterMap CanonicalPart.toolCall? = [] ∧
      shown.filterMap CanonicalPart.toolResult? = [] := by
  induction parts generalizing place shown with
  | nil =>
    obtain rfl := Except.ok.inj h
    exact ⟨rfl, rfl⟩
  | cons part rest ih =>
    rw [documentsOf] at h
    split at h
    · exact ih h
    · obtain ⟨document, -, h⟩ := bind_eq_ok_iff.mp h
      obtain ⟨others, hothers, h⟩ := bind_eq_ok_iff.mp h
      obtain rfl := Except.ok.inj h
      obtain ⟨hcalls, hresults⟩ := ih hothers
      exact ⟨hcalls, hresults⟩

theorem sitesOf_of_kinds {turn place : ℕ} {parts : List RawPart} (h : parts.filterMap kindOf = []) :
    sitesOf turn place parts = [] := by
  induction parts generalizing place with
  | nil => rfl
  | cons part rest ih =>
    have hkind : kindOf part = none :=
      List.filterMap_eq_nil_iff.mp h part List.mem_cons_self
    rw [List.filterMap_cons_none hkind] at h
    rw [sitesOf, hkind, if_neg (by decide)]
    exact ih h

theorem resultsOf_of_kinds {parts : List RawPart}
    (h : FunctionKind.result ∉ parts.filterMap kindOf) : resultsOf parts = [] := by
  rw [resultsOf, List.map_eq_nil_iff, List.filter_eq_nil_iff]
  intro part hpart hresult
  exact h (List.mem_filterMap.mpr ⟨part, hpart, of_decide_eq_true hresult⟩)

/-- **What a turn calls and answers**: its function parts, in the order sent. -/
theorem partsOf_calls {S : Services} {turn counted : ℕ} {attachments : Bool}
    {content : RequestContent} {shown : List CanonicalPart}
    (h : partsOf S turn counted attachments content = .ok shown) :
    shown.filterMap CanonicalPart.toolCall? = (sitesOf turn 0 content.parts).map (callAt S) ∧
      shown.filterMap CanonicalPart.toolResult? = resultsOf content.parts := by
  rw [partsOf] at h
  split at h
  · exact inOrder_calls h
  · next hkinds =>
    have hkinds : content.parts.filterMap kindOf = [] := not_not.mp hkinds
    obtain ⟨documents, hdocuments, h⟩ := bind_eq_ok_iff.mp h
    obtain rfl := Except.ok.inj h
    have hnone : documents.filterMap CanonicalPart.toolCall? = [] ∧
        documents.filterMap CanonicalPart.toolResult? = [] := by
      split at hdocuments
      · exact documentsOf_calls hdocuments
      · obtain rfl := Except.ok.inj hdocuments
        exact ⟨rfl, rfl⟩
    have hresult : FunctionKind.result ∉ content.parts.filterMap kindOf := by
      rw [hkinds]
      exact List.not_mem_nil
    rw [List.filterMap_append, List.filterMap_append, hnone.1, hnone.2, toolCalls_flush,
      toolResults_flush, sitesOf_of_kinds hkinds, resultsOf_of_kinds hresult]
    exact ⟨rfl, rfl⟩

/-- The calls of a conversation, its turns counted from a number on. -/
def callSites (turn : ℕ) : List RequestTurn → List CallSite
  | [] => []
  | said :: rest => sitesOf turn 0 said.content.parts ++ callSites (turn + 1) rest

theorem messagesOf_calls {S : Services} {turn counted : ℕ} {turns : List RequestTurn}
    {messages : List CanonicalMessage} (h : messagesOf S turn counted turns = .ok messages) :
    messages.flatMap (·.toolCalls) = (callSites turn turns).map (callAt S) := by
  induction turns generalizing turn counted messages with
  | nil =>
    obtain rfl := Except.ok.inj h
    rfl
  | cons said rest ih =>
    obtain ⟨parts, hparts, h⟩ := bind_eq_ok_iff.mp h
    obtain ⟨others, hothers, h⟩ := bind_eq_ok_iff.mp h
    obtain rfl := Except.ok.inj h
    rw [List.flatMap_cons, callSites, List.map_append, ← ih hothers, ← (partsOf_calls hparts).1]
    rfl

/-- **What the turns of a request come to.** -/
theorem messagesOf_ok {S : Services} {turn counted : ℕ} {sent checked : List RequestTurn}
    {messages : List CanonicalMessage} (haccepted : List.Forall₂ Accepted sent checked)
    (hnamed : ∀ said ∈ checked, ∀ part ∈ said.content.parts,
      kindOf part = some .result → textAt part "name" ≠ [])
    (h : messagesOf S turn counted checked = .ok messages) :
    List.Forall₂ (Carried S) sent messages := by
  induction haccepted generalizing turn counted messages with
  | nil =>
    obtain rfl := Except.ok.inj h
    exact .nil
  | cons hturn _ ih =>
    rw [List.forall_mem_cons] at hnamed
    obtain ⟨parts, hparts, h⟩ := bind_eq_ok_iff.mp h
    obtain ⟨others, hothers, h⟩ := bind_eq_ok_iff.mp h
    obtain rfl := Except.ok.inj h
    exact .cons (partsOf_ok hturn hnamed.1 hparts) (ih hnamed.2 hothers)

/-! ### The ids a request gives -/

/-- The ids that calls carry, in the order sent. -/
def givenIds (parts : List RawPart) : List Text :=
  (parts.filter fun part => kindOf part = some .call).filterMap givenId

theorem checkNames_ok {offered ids ids' : List Text} {part : RawPart}
    (h : checkNames offered ids part = .ok ids') :
    ids' = (givenIds [part]).reverse ++ ids ∧ (ids.Nodup → ids'.Nodup) ∧
      (kindOf part = some .result → textAt part "name" ≠ []) := by
  rw [checkNames] at h
  rw [givenIds, List.filter_cons]
  split at h
  · next hkind =>
    simp only [hkind]
    split at h
    · exact absurd h error_ne_ok
    · split at h
      · exact absurd h error_ne_ok
      · split at h
        · next id hid =>
          split at h
          · exact absurd h error_ne_ok
          · next hnew =>
            obtain rfl := Except.ok.inj h
            refine ⟨by simp [hid], fun hnodup => List.nodup_cons.mpr ⟨hnew, hnodup⟩, ?_⟩
            exact fun hresult => absurd hresult (by decide)
        · next hid =>
          obtain rfl := Except.ok.inj h
          exact ⟨by simp [hid], id, fun hresult => absurd hresult (by decide)⟩
  · next hkind =>
    simp only [hkind]
    split at h
    · exact absurd h error_ne_ok
    · next hnamed =>
      obtain rfl := Except.ok.inj h
      exact ⟨by simp, id, fun _ => hnamed⟩
  · next hkind =>
    simp only [hkind]
    obtain rfl := Except.ok.inj h
    exact ⟨by simp, id, fun hresult => absurd hresult (by decide)⟩

theorem foldlM_checkNames_ok {offered ids ids' : List Text} {parts : List RawPart}
    (h : parts.foldlM (checkNames offered) ids = .ok ids') :
    ids' = (givenIds parts).reverse ++ ids ∧ (ids.Nodup → ids'.Nodup) ∧
      ∀ part ∈ parts, kindOf part = some .result → textAt part "name" ≠ [] := by
  induction parts generalizing ids with
  | nil =>
    obtain rfl := Except.ok.inj h
    exact ⟨rfl, id, fun _ hmem => absurd hmem List.not_mem_nil⟩
  | cons part rest ih =>
    rw [List.foldlM_cons] at h
    obtain ⟨next, hnext, h⟩ := bind_eq_ok_iff.mp h
    obtain ⟨rfl, hfirst, hnamed⟩ := checkNames_ok hnext
    obtain ⟨rfl, hrest, hothers⟩ := ih h
    refine ⟨?_, fun hnodup => hrest (hfirst hnodup), List.forall_mem_cons.mpr ⟨hnamed, hothers⟩⟩
    have happend : givenIds (part :: rest) = givenIds [part] ++ givenIds rest := by
      rw [givenIds, givenIds, givenIds, ← List.filterMap_append, ← List.filter_append]
      rfl
    rw [happend, List.reverse_append, List.append_assoc]

/-- **Which ids a request gives**: no two calls the same. Its results name a function. -/
theorem checkFunctionParts_ok {request : ChatRequest} {tools : List ToolDeclaration}
    (h : checkFunctionParts request tools = .ok ()) :
    (givenIds (request.contents.flatMap (·.parts))).Nodup ∧
      ∀ part ∈ request.contents.flatMap (·.parts),
        kindOf part = some .result → textAt part "name" ≠ [] := by
  obtain ⟨ids, hids, -⟩ := bind_eq_ok_iff.mp h
  obtain ⟨rfl, hnodup, hnamed⟩ := foldlM_checkNames_ok hids
  refine ⟨?_, hnamed⟩
  have hall := hnodup List.nodup_nil
  rwa [List.append_nil, List.nodup_reverse] at hall

end AiraGateway.Kira
