import AiraGateway.Library.Except
import AiraGateway.Library.JsonText
import AiraGateway.Upstreams.Dialect
import Mathlib.Data.Char
import Mathlib.Data.List.Dedup
import Mathlib.Data.List.Lex
import Mathlib.Data.List.Sort

/-!
# Canonical messages in the OpenAI wire format

The message list of this dialect is not one-to-one with the canonical one: a tool call is a field
of an assistant message, and each tool result is a message of its own. What a turn says beside its
results follows them as a further message. The dialect reads images and not documents, and its
tool messages take text alone.

* **What is refused** (`wireMessages_error_iff`): a result with attachments, and an attachment that
  is no image — but not one in a turn that only calls.
* **What is told** (`wireMessages_tells_iff`): of the messages that are not refused, all but the
  turns that call and hold attachments but no results, whose attachments are left out, and the
  turns that call, hold results and say something, which is said twice.
-/

namespace AiraGateway.OpenAi

/-! ### The wire -/

/-- One entry of a content list. -/
inductive ContentPart
  | text (text : Text)
  | imageUrl (url : Text)
  deriving DecidableEq

/-- A message's content: a plain text, or a list where it holds attachments. -/
inductive Content
  | text (text : Text)
  | parts (parts : List ContentPart)
  deriving DecidableEq

/-- A call; its arguments travel as a JSON text. -/
structure WireCall where
  id : Text
  name : Text
  arguments : Text
  deriving DecidableEq

/-- A tool message. -/
structure WireResult where
  toolCallId : Text
  content : Text
  deriving DecidableEq

/-- One entry of the message list: something said under a role, an assistant's calls beside the
text it said or null, or a result. -/
inductive WireMessage
  | said (role : Text) (content : Content)
  | calls (content : Option Text) (toolCalls : List WireCall)
  | tool (result : WireResult)
  deriving DecidableEq

/-! ### The mapping -/

def wireRole : Role → Text
  | .system => "system"
  | .user => "user"
  | .model => "assistant"

def imageTypes : Text := "image/"

/-- Whether the dialect reads a media type. -/
def isImage (part : DataPart) : Bool := imageTypes.isPrefixOf part.mediaType

def dataUrl (part : DataPart) : Text :=
  ("data:" : Text) ++ part.mediaType ++ ";base64," ++ b64encode part.data

def notAnImage (part : DataPart) : DialectUnsupported where
  message := ("This dialect carries images, not '" : Text) ++ part.mediaType ++
    "'. A model declaring it cannot serve the request through an OpenAI-compatible endpoint."

/-- The texts and attachments among the parts, in order. Tool parts are not content. -/
def contentParts : List CanonicalPart → Except DialectUnsupported (List ContentPart)
  | [] => .ok []
  | .text t :: rest => do
    let parts ← contentParts rest
    .ok (.text t :: parts)
  | .data part :: rest =>
    if isImage part then do
      let parts ← contentParts rest
      .ok (.imageUrl (dataUrl part) :: parts)
    else .error (notAnImage part)
  | .toolCall _ :: rest | .toolResult _ :: rest => contentParts rest

/-- A message's content. Without attachments it stays a plain text. -/
def content (message : CanonicalMessage) : Except DialectUnsupported Content :=
  if message.attachments = [] then .ok (.text message.text)
  else (contentParts message.parts).map .parts

def wireCall (call : ToolCallPart) : WireCall where
  id := call.id
  name := call.name
  arguments := (Json.obj call.arguments).dumpsReadable

def mediaInResult (result : ToolResultPart) : DialectUnsupported where
  message := ("The result of '" : Text) ++ result.name ++ "' carries " ++
    List.intercalate ", " ((result.attachments.map (·.mediaType)).dedup.insertionSort (· ≤ ·)) ++
    ", and this dialect's tool messages take text only."

def wireResult (result : ToolResultPart) : Except DialectUnsupported WireMessage :=
  if result.attachments = [] then
    .ok (.tool { toolCallId := result.callId, content := result.content })
  else .error (mediaInResult result)

/-- The parts that are no tool parts. -/
def saidParts (message : CanonicalMessage) : List CanonicalPart :=
  message.parts.filter fun part => part.toolCall?.isNone && part.toolResult?.isNone

/-- What a turn that answers calls says beside its results, as a message of its own. -/
def beside (message : CanonicalMessage) : Except DialectUnsupported (List WireMessage) :=
  if message.toolResults ≠ [] ∧ saidParts message ≠ [] then do
    let content ← content { message with parts := saidParts message }
    .ok [.said (wireRole message.role) content]
  else .ok []

/-- The message that calls, where the turn does. -/
def calling (message : CanonicalMessage) : List WireMessage :=
  if message.toolCalls = [] then []
  else
    [.calls (if message.text = [] then none else some message.text)
      (message.toolCalls.map wireCall)]

/-- One canonical message. -/
def wireMessage (message : CanonicalMessage) : Except DialectUnsupported (List WireMessage) :=
  if message.toolCalls = [] ∧ message.toolResults = [] then do
    let content ← content message
    .ok [.said (wireRole message.role) content]
  else do
    let results ← message.toolResults.mapM wireResult
    let said ← beside message
    .ok (calling message ++ results ++ said)

/-- Canonical messages as this dialect's message list. -/
def wireMessages (request : CanonicalRequest) : Except DialectUnsupported (List WireMessage) := do
  let wire ← (pairedToolResults request.messages).mapM wireMessage
  .ok wire.flatten

/-! ### What the wire holds -/

def ContentPart.item : ContentPart → Item Text
  | text t => .text t
  | imageUrl url => .piece url

def Content.items : Content → List (Item Text)
  | text t => [.text t]
  | parts entries => entries.map ContentPart.item

def WireMessage.holding : WireMessage → Holding WireCall WireResult Text
  | said _ content => { said := content.items }
  | calls content toolCalls =>
    { calls := toolCalls, said := (content.map Item.text).toList }
  | tool result => { results := [result] }

/-- **What shows what**: a call under its id and its name with its arguments, a result without
media under the id of its call, and an attachment as a URL that holds its bytes. -/
def showing : Showing ToolCallPart ToolResultPart DataPart WireCall WireResult Text where
  call call wire := wire.id = call.id ∧ wire.name = call.name ∧
    wire.arguments = (Json.obj call.arguments).dumpsReadable
  result result wire := wire.toolCallId = result.callId ∧ wire.content = result.content ∧
    result.attachments = []
  piece part url := ∃ encoded,
    url = ("data:" : Text) ++ part.mediaType ++ ";base64," ++ encoded ∧
      b64decode encoded = some part.data

/-- The message list tells the conversation. -/
def Tells (request : CanonicalRequest) (wire : List WireMessage) : Prop :=
  Placed showing CanonicalMessage.holding WireMessage.holding
    (pairedToolResults request.messages) wire

/-- What stands on the wire for a turn. -/
def held (wire : List WireMessage) : Holding WireCall WireResult Text :=
  .join (wire.map WireMessage.holding)

/-! ### Content -/

private theorem showing_dataUrl (part : DataPart) : showing.piece part (dataUrl part) :=
  ⟨b64encode part.data, rfl, b64decode_b64encode part.data⟩

private theorem contentParts_conveys {parts : List CanonicalPart} {wire : List ContentPart}
    (h : contentParts parts = .ok wire) :
    Conveys showing.piece (parts.filterMap CanonicalPart.said?) (wire.map ContentPart.item) := by
  induction parts generalizing wire with
  | nil =>
    cases h
    exact .nil
  | cons part rest ih =>
    cases part with
    | text t =>
      obtain ⟨parts, hrest, h⟩ := bind_eq_ok_iff.mp h
      cases h
      exact .of_text t (ih hrest)
    | data part =>
      rw [contentParts] at h
      split_ifs at h
      obtain ⟨parts, hrest, h⟩ := bind_eq_ok_iff.mp h
      cases h
      exact .piece (showing_dataUrl part) (ih hrest)
    | toolCall call => exact ih h
    | toolResult result => exact ih h

private theorem exists_contentParts_iff {parts : List CanonicalPart} :
    (∃ wire, contentParts parts = .ok wire) ↔
      ∀ part ∈ parts.filterMap CanonicalPart.data?, isImage part = true := by
  induction parts with
  | nil => simp [contentParts]
  | cons part rest ih =>
    cases part with
    | text t => exact exists_bind_ok_iff.trans ih
    | data part =>
      rw [List.filterMap_cons_some (show CanonicalPart.data? (.data part) = some part from rfl),
        List.forall_mem_cons, ← ih, contentParts]
      split_ifs with himage
      · rw [exists_bind_ok_iff]
        exact ⟨fun h => ⟨himage, h⟩, fun h => h.2⟩
      · exact ⟨fun ⟨_, h⟩ => (nomatch h), fun h => absurd h.1 himage⟩
    | toolCall call => exact ih
    | toolResult result => exact ih

/-- **Content conveys what is said**, texts and attachments in their order. -/
private theorem content_conveys {message : CanonicalMessage} {wire : Content}
    (h : content message = .ok wire) :
    Conveys showing.piece message.holding.said wire.items := by
  rw [content] at h
  split_ifs at h with hnone
  · cases h
    rw [CanonicalMessage.said_of_no_attachments hnone]
    exact .of_spells (.of_flatten _)
  · cases hparts : contentParts message.parts with
    | error e =>
      rw [hparts] at h
      exact nomatch h
    | ok parts =>
      rw [hparts] at h
      cases h
      exact contentParts_conveys hparts

private theorem exists_content_iff (message : CanonicalMessage) :
    (∃ wire, content message = .ok wire) ↔
      ∀ part ∈ message.attachments, isImage part = true := by
  rw [content]
  split_ifs with hnone
  · simp [hnone]
  · refine Iff.trans ?_ exists_contentParts_iff
    cases contentParts message.parts with
    | error e => exact ⟨fun ⟨_, h⟩ => (nomatch h), fun ⟨_, h⟩ => (nomatch h)⟩
    | ok parts => exact ⟨fun _ => ⟨parts, rfl⟩, fun _ => ⟨.parts parts, rfl⟩⟩

/-! ### One turn -/

private theorem wireResult_eq_ok_iff {result : ToolResultPart} {wire : WireMessage} :
    wireResult result = .ok wire ↔
      result.attachments = [] ∧ wire = .tool ⟨result.callId, result.content⟩ := by
  rw [wireResult]
  split_ifs with hnone
  · simp [hnone, eq_comm]
  · exact ⟨fun h => (nomatch h), fun h => absurd h.1 hnone⟩

/-- Results that are not refused are shown, and nothing beside them. -/
private theorem held_results {results : List ToolResultPart} {wire : List WireMessage}
    (h : results.mapM wireResult = .ok wire) :
    ∃ shown, held wire = { results := shown } ∧
      List.Forall₂ showing.result results shown := by
  rw [mapM_eq_ok_iff] at h
  induction h with
  | nil => exact ⟨[], rfl, .nil⟩
  | @cons result _ _ _ hresult _ ih =>
    obtain ⟨hnone, rfl⟩ := wireResult_eq_ok_iff.mp hresult
    obtain ⟨shown, hshown, hresults⟩ := ih
    refine ⟨⟨result.callId, result.content⟩ :: shown, ?_, .cons ⟨rfl, rfl, hnone⟩ hresults⟩
    rw [held, List.map_cons, ← List.singleton_append, Holding.join_append, ← held, hshown]
    rfl

private theorem holding_saidParts (message : CanonicalMessage) :
    ({ message with parts := saidParts message } : CanonicalMessage).holding.said =
      message.holding.said := by
  rw [CanonicalMessage.holding, CanonicalMessage.holding, saidParts]
  induction message.parts with
  | nil => rfl
  | cons part parts ih =>
    cases part with
    | text | data => exact congrArg (_ :: ·) ih
    | toolCall | toolResult => exact ih

/-- What a turn says beside its results is conveyed; beside no results nothing is. -/
private theorem held_beside {message : CanonicalMessage} {wire : List WireMessage}
    (h : beside message = .ok wire) :
    ∃ rest, held wire = { said := rest } ∧
      if message.toolResults = [] then rest = []
      else Conveys showing.piece message.holding.said rest := by
  rw [beside] at h
  split_ifs at h with hsaid
  · obtain ⟨content, hcontent, h⟩ := bind_eq_ok_iff.mp h
    cases h
    have hconveys := content_conveys hcontent
    rw [holding_saidParts] at hconveys
    refine ⟨content.items, Holding.join_singleton _, ?_⟩
    rw [if_neg hsaid.1]
    exact hconveys
  · cases h
    refine ⟨[], rfl, ?_⟩
    split_ifs with hresults
    · rfl
    · -- a turn with results that says nothing has no part that is not a tool part
      have hempty : saidParts message = [] := by
        by_contra hne
        exact hsaid ⟨hresults, hne⟩
      rw [← holding_saidParts, hempty]
      exact .nil

/-- The text beside a turn's calls. -/
def callingText (message : CanonicalMessage) : List (Item Text) :=
  if message.toolCalls = [] ∨ message.text = [] then [] else [.text message.text]

private theorem held_calling (message : CanonicalMessage) :
    held (calling message) =
      { calls := message.toolCalls.map wireCall, said := callingText message } := by
  rw [held, calling, callingText]
  by_cases hcalls : message.toolCalls = []
  · rw [if_pos hcalls, if_pos (.inl hcalls), hcalls]
    rfl
  · rw [if_neg hcalls, List.map_singleton, Holding.join_singleton]
    by_cases htext : message.text = []
    · rw [if_pos htext, if_pos (.inr htext)]
      rfl
    · rw [if_neg htext, if_neg (by simp [hcalls, htext])]
      rfl

private theorem showing_wireCalls (calls : List ToolCallPart) :
    List.Forall₂ showing.call calls (calls.map wireCall) := by
  rw [List.forall₂_map_right_iff, List.forall₂_same]
  exact fun call _ => ⟨rfl, rfl, rfl⟩

/-- **One turn on the wire**: its calls, its results, and behind the text beside the calls what it
says — except where it calls and has no results. -/
private theorem wireMessage_spec {message : CanonicalMessage} {wire : List WireMessage}
    (h : wireMessage message = .ok wire) :
    List.Forall₂ showing.call message.toolCalls (held wire).calls ∧
      List.Forall₂ showing.result message.toolResults (held wire).results ∧
      ∃ rest, (held wire).said = callingText message ++ rest ∧
        if message.toolCalls ≠ [] ∧ message.toolResults = [] then rest = []
        else Conveys showing.piece message.holding.said rest := by
  rw [wireMessage] at h
  split_ifs at h with hplain
  · obtain ⟨content, hcontent, h⟩ := bind_eq_ok_iff.mp h
    cases h
    have hheld : held [.said (wireRole message.role) content] = { said := content.items } :=
      Holding.join_singleton _
    rw [hheld, callingText, if_pos (.inl hplain.1), hplain.1, hplain.2]
    refine ⟨.nil, .nil, content.items, rfl, ?_⟩
    rw [if_neg (by simp)]
    exact content_conveys hcontent
  · obtain ⟨results, hresults, h⟩ := bind_eq_ok_iff.mp h
    obtain ⟨said, hsaid, h⟩ := bind_eq_ok_iff.mp h
    cases h
    obtain ⟨shown, hshown, hresults⟩ := held_results hresults
    obtain ⟨rest, hrest, hsaid⟩ := held_beside hsaid
    have hheld : held (calling message ++ results ++ said) =
        { calls := message.toolCalls.map wireCall, results := shown
          said := callingText message ++ rest } := by
      rw [held, List.map_append, List.map_append, Holding.join_append, Holding.join_append,
        ← held, ← held, ← held, held_calling, hshown, hrest]
      simp [Holding.append]
    rw [hheld]
    refine ⟨showing_wireCalls message.toolCalls, hresults, rest, rfl, ?_⟩
    by_cases hnone : message.toolResults = []
    · have hcalls : message.toolCalls ≠ [] := fun hcalls => hplain ⟨hcalls, hnone⟩
      rw [if_pos ⟨hcalls, hnone⟩]
      rwa [if_pos hnone] at hsaid
    · rw [if_neg (fun h => hnone h.2)]
      rwa [if_neg hnone] at hsaid

/-! ### What is refused -/

/-- The dialect has no place for something in a turn and says so: media in a result, or an
attachment that is no image, in a turn that says something of its own. -/
def Refuses (message : CanonicalMessage) : Prop :=
  (∃ result ∈ message.toolResults, result.attachments ≠ []) ∨
    (message.toolCalls = [] ∨ message.toolResults ≠ []) ∧
      ∃ part ∈ message.attachments, isImage part = false

private theorem attachments_saidParts (message : CanonicalMessage) :
    ({ message with parts := saidParts message } : CanonicalMessage).attachments =
      message.attachments := by
  rw [← CanonicalMessage.pieces_said, holding_saidParts, CanonicalMessage.pieces_said]

private theorem exists_beside_iff {message : CanonicalMessage} :
    (∃ wire, beside message = .ok wire) ↔
      (message.toolResults ≠ [] → ∀ part ∈ message.attachments, isImage part = true) := by
  rw [beside]
  split_ifs with hsaid
  · have himages := exists_content_iff { message with parts := saidParts message }
    rw [attachments_saidParts] at himages
    rw [exists_bind_ok_iff, himages]
    exact ⟨fun h _ => h, fun h => h hsaid.1⟩
  · refine ⟨fun _ hresults part hpart => ?_, fun _ => ⟨[], rfl⟩⟩
    have hempty : saidParts message = [] := by
      by_contra hne
      exact hsaid ⟨hresults, hne⟩
    rw [← attachments_saidParts, hempty] at hpart
    exact absurd hpart List.not_mem_nil

private theorem exists_wireMessage_iff {message : CanonicalMessage} :
    (∃ wire, wireMessage message = .ok wire) ↔ ¬ Refuses message := by
  have himages : (∀ part ∈ message.attachments, isImage part = true) ↔
      ¬ ∃ part ∈ message.attachments, isImage part = false := by
    simp
  rw [wireMessage]
  split_ifs with hplain
  · rw [exists_bind_ok_iff, exists_content_iff, himages, Refuses]
    simp [hplain.1, hplain.2]
  · have hsteps : (∃ wire, (do
        let results ← message.toolResults.mapM wireResult
        let said ← beside message
        .ok (calling message ++ results ++ said)) = Except.ok wire) ↔
          (∃ wire, message.toolResults.mapM wireResult = .ok wire) ∧
            ∃ wire, beside message = .ok wire := by
      constructor
      · rintro ⟨wire, h⟩
        obtain ⟨results, hresults, h⟩ := bind_eq_ok_iff.mp h
        exact ⟨⟨results, hresults⟩, exists_bind_ok_iff.mp ⟨wire, h⟩⟩
      · rintro ⟨⟨results, hresults⟩, said, hsaid⟩
        exact ⟨_, bind_eq_ok_iff.mpr ⟨results, hresults, bind_eq_ok_iff.mpr ⟨said, hsaid, rfl⟩⟩⟩
    have hresults : (∃ wire, message.toolResults.mapM wireResult = .ok wire) ↔
        ¬ ∃ result ∈ message.toolResults, result.attachments ≠ [] := by
      rw [exists_mapM_ok_iff]
      simp [wireResult_eq_ok_iff]
    -- a turn that is not plain and has no results calls
    have hcalls : message.toolCalls = [] ∨ message.toolResults ≠ [] ↔ message.toolResults ≠ [] :=
      ⟨fun h => h.elim (fun hcalls hnone => hplain ⟨hcalls, hnone⟩) id, .inr⟩
    rw [hsteps, hresults, exists_beside_iff, himages, Refuses, hcalls, not_or, not_and]

/-- **The mapper answers** exactly where it refuses no turn. -/
theorem exists_wireMessages_iff {request : CanonicalRequest} :
    (∃ wire, wireMessages request = .ok wire) ↔ ∀ m ∈ request.messages, ¬ Refuses m := by
  rw [wireMessages, exists_bind_ok_iff, exists_mapM_ok_iff]
  simp only [exists_wireMessage_iff]
  refine forall_paired_iff (fun m m' h => ?_) request.messages
  have hresults : ∀ m : CanonicalMessage, (∃ result ∈ m.toolResults, result.attachments ≠ []) ↔
      ∃ media ∈ m.toolResults.map (·.attachments), media ≠ [] := by
    simp
  rw [Refuses, Refuses, hresults, hresults, h.resultAttachments_eq, h.toolCalls_eq,
    h.attachments_eq, Ne, Ne, h.toolResults_eq_nil_iff]

/-! ### What is told -/

/-- The message list has a place for all a turn holds: its calls leave none for attachments, and
where it also answers calls its text has two. -/
def Carries (message : CanonicalMessage) : Prop :=
  message.toolCalls ≠ [] →
    (message.toolResults = [] → message.attachments = []) ∧
      (message.toolResults ≠ [] → blank message.text = true)

private theorem told_of_carries {message : CanonicalMessage} {wire : List WireMessage}
    (hcarries : Carries message) (h : wireMessage message = .ok wire) :
    Told showing message.holding (held wire) := by
  obtain ⟨hcalls, hresults, rest, hsaid, hrest⟩ := wireMessage_spec h
  refine ⟨hcalls, hresults, ?_⟩
  rw [hsaid, callingText]
  by_cases hcalling : message.toolCalls = []
  · rw [if_neg (fun h => h.1 hcalling)] at hrest
    rw [if_pos (.inl hcalling)]
    exact hrest
  obtain ⟨hmedia, hblank⟩ := hcarries hcalling
  by_cases hanswers : message.toolResults = []
  · rw [if_pos ⟨hcalling, hanswers⟩] at hrest
    rw [hrest, List.append_nil, CanonicalMessage.said_of_no_attachments (hmedia hanswers)]
    split_ifs with hnothing
    · -- a text that is empty joins empty texts
      have hempty := hnothing.resolve_left hcalling
      refine .of_blanks fun t ht => ?_
      rw [List.flatten_eq_nil_iff.mp hempty t ht]
      rfl
    · exact .of_spells (.of_flatten _)
  · rw [if_neg (fun h => hanswers h.2)] at hrest
    split_ifs
    · exact hrest
    · exact .text (.of_blank (hblank hanswers)) hrest

private theorem pieceCount_callingText (message : CanonicalMessage) :
    (callingText message).filterMap Item.piece? = [] := by
  rw [callingText]
  split_ifs <;> rfl

/-- A turn loses its attachments where it calls and has no results, and nowhere else. -/
private theorem pieceCount_wireMessage {message : CanonicalMessage} {wire : List WireMessage}
    (h : wireMessage message = .ok wire) :
    (held wire).pieceCount =
      if message.toolCalls ≠ [] ∧ message.toolResults = [] then 0
      else message.attachments.length := by
  obtain ⟨-, -, rest, hsaid, hrest⟩ := wireMessage_spec h
  rw [Holding.pieceCount, hsaid, List.filterMap_append, pieceCount_callingText, List.nil_append]
  split_ifs at hrest ⊢
  · rw [hrest]
    rfl
  · rw [← hrest.pieces.length_eq, CanonicalMessage.pieces_said]

private theorem ink_callingText (message : CanonicalMessage) :
    (callingText message).flatMap Item.ink =
      if message.toolCalls = [] then [] else ink message.text := by
  rw [callingText]
  by_cases hcalls : message.toolCalls = []
  · rw [if_pos (.inl hcalls), if_pos hcalls]
    rfl
  · rw [if_neg hcalls]
    by_cases htext : message.text = []
    · rw [if_pos (.inr htext), htext]
      rfl
    · rw [if_neg (by simp [hcalls, htext])]
      exact List.append_nil _

/-- A turn says its text twice where it calls and has results, and once elsewhere. -/
private theorem inkCount_wireMessage {message : CanonicalMessage} {wire : List WireMessage}
    (h : wireMessage message = .ok wire) :
    (held wire).inkCount =
      if message.toolCalls ≠ [] ∧ message.toolResults ≠ [] then 2 * (ink message.text).length
      else (ink message.text).length := by
  obtain ⟨-, -, rest, hsaid, hrest⟩ := wireMessage_spec h
  rw [Holding.inkCount, hsaid, List.flatMap_append, List.length_append, ink_callingText]
  by_cases hcalls : message.toolCalls = []
  · rw [if_neg (fun h => h.1 hcalls)] at hrest
    rw [if_pos hcalls, if_neg (fun h => h.1 hcalls), hrest.ink_eq, CanonicalMessage.ink_said,
      List.length_nil, Nat.zero_add]
  · rw [if_neg hcalls]
    by_cases hresults : message.toolResults = []
    · rw [if_pos ⟨hcalls, hresults⟩] at hrest
      rw [if_neg (fun h => h.2 hresults), hrest]
      rfl
    · rw [if_neg (fun h => hresults h.2)] at hrest
      rw [if_pos ⟨hcalls, hresults⟩, hrest.ink_eq, CanonicalMessage.ink_said, Nat.two_mul]

/-- **The message list tells the conversation** exactly where it has a place for all that each turn
holds. -/
theorem wireMessages_tells_iff {request : CanonicalRequest} {wire : List WireMessage}
    (h : wireMessages request = .ok wire) :
    Tells request wire ↔ ∀ m ∈ request.messages, Carries m := by
  obtain ⟨stretches, hstretches, h⟩ := bind_eq_ok_iff.mp h
  cases h
  rw [mapM_eq_ok_iff] at hstretches
  have hpaired : (∀ m ∈ pairedToolResults request.messages, Carries m) ↔
      ∀ m ∈ request.messages, Carries m := by
    refine forall_paired_iff (fun m m' h => ?_) request.messages
    rw [Carries, Carries, h.toolCalls_eq, h.attachments_eq, h.text_eq, Ne, Ne,
      h.toolResults_eq_nil_iff]
  rw [← hpaired]
  constructor
  · intro htells
    -- what each stretch says, read off its turn
    have hpieces : stretches.map (fun g => (held g).pieceCount) =
        (pairedToolResults request.messages).map fun m =>
          if m.toolCalls ≠ [] ∧ m.toolResults = [] then 0 else m.attachments.length := by
      rw [eq_comm, ← List.forall₂_eq_eq_eq, List.forall₂_map_left_iff, List.forall₂_map_right_iff]
      exact hstretches.imp fun m g h => (pieceCount_wireMessage h).symm
    have hink : stretches.map (fun g => (held g).inkCount) =
        (pairedToolResults request.messages).map fun m =>
          if m.toolCalls ≠ [] ∧ m.toolResults ≠ [] then 2 * (ink m.text).length
          else (ink m.text).length := by
      rw [eq_comm, ← List.forall₂_eq_eq_eq, List.forall₂_map_left_iff, List.forall₂_map_right_iff]
      exact hstretches.imp fun m g h => (inkCount_wireMessage h).symm
    have hpieceSum : (stretches.map fun g => (held g).pieceCount).sum = _ := htells.pieceCount_eq
    have hinkSum : (stretches.map fun g => (held g).inkCount).sum = _ := htells.inkCount_eq
    simp only [hpieces, CanonicalMessage.pieceCount_holding] at hpieceSum
    simp only [hink, CanonicalMessage.inkCount_holding] at hinkSum
    have hpiece := fun hle => eq_of_sum_eq hle hpieceSum
    have hchar := fun hle => eq_of_sum_eq hle hinkSum.symm
    specialize hpiece fun m _ => by split_ifs <;> omega
    specialize hchar fun m _ => by split_ifs <;> omega
    intro m hm hcalls
    refine ⟨fun hnone => ?_, fun hresults => ?_⟩
    · have hcount := hpiece m hm
      rw [if_pos ⟨hcalls, hnone⟩] at hcount
      exact List.eq_nil_of_length_eq_zero hcount.symm
    · have hcount := hchar m hm
      rw [if_pos ⟨hcalls, hresults⟩] at hcount
      rw [← ink_eq_nil_iff]
      exact List.eq_nil_of_length_eq_zero (by omega)
  · intro hcarries
    refine ⟨stretches, rfl, ?_⟩
    have hboth := (List.forall₂_and_left _ _).mpr ⟨hcarries, hstretches⟩
    exact hboth.imp fun m g h => told_of_carries h.1 h.2

end AiraGateway.OpenAi
