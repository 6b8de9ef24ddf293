import AiraGateway.Core.Canonical
import AiraGateway.Library.Except
import AiraGateway.Pipeline.StrictReaders

/-!
# A KIRA chat request

A part is a plain mapping. It is a text, an attachment or one of two function parts, told apart by
its type; a function part may leave the type out and is then read by its fields, and its type
written back (`checkPart`). A call is the model's and a result is the caller's
(`checkTurn`, `validate`).

Fields a request carries beyond these are refused or passed over elsewhere, and the bound on how
many turns and parts there may be only refuses more.

* **What an accepted part is** (`checkPart_ok`): the kind that is read from it afterwards is the one
  it was sent with, its fields have the types of that kind, and nothing but its type was written.
* **What an accepted request is** (`validate_ok`): its turns are those that were sent, each part
  accepted, with no call outside a model's turn and no result outside a caller's.
-/

namespace AiraGateway.Kira

/-! ### Parts -/

/-- A part as a plain mapping. -/
abbrev RawPart := List (Text × Json)

/-- A function the model asks to have run, and what running it returned. -/
inductive FunctionKind
  | call
  | result
  deriving DecidableEq

namespace FunctionKind

def value : FunctionKind → Text
  | call => "function_call"
  | result => "function_result"

/-- The kind a word names. -/
def ofWord (word : Text) : Option FunctionKind :=
  if word = call.value then some call else if word = result.value then some result else none

theorem ofWord_value (kind : FunctionKind) : ofWord kind.value = some kind := by
  cases kind <;> decide

end FunctionKind

def carries (part : RawPart) (key : Text) : Bool := (dictGet part key).isSome

/-- What a part has under a key, where that is not null. -/
def given (part : RawPart) (key : Text) : Option Json := (dictGet part key).filter (· ≠ .null)

def isStr : Json → Bool
  | .str _ => true
  | _ => false

def isFilledStr : Json → Bool
  | .str text => !blank text
  | _ => false

def isObj : Json → Bool
  | .obj _ => true
  | _ => false

/-- The name of a value's type, as a refusal says it. -/
def typeName : Json → Text
  | .null => "NoneType"
  | .bool _ => "bool"
  | .int _ => "int"
  | .float _ => "float"
  | .str _ => "str"
  | .arr _ => "list"
  | .obj _ => "dict"

/-- Which function part an untyped part is, by its fields. -/
def functionKind (part : RawPart) : Option FunctionKind :=
  if carries part "text" || carries part "mime_type" || carries part "mimeType" then none
  else if carries part "call_id" || carries part "result" then some .result
  else if carries part "name" then some .call
  else none

/-! ### Checking a part -/

def demand (met : Bool) (fault : Text) : Except Text Unit := if met then .ok () else .error fault

theorem demand_ok_iff {met : Bool} {fault : Text} : demand met fault = .ok () ↔ met = true := by
  cases met <;> simp [demand]

def partFault (index : ℕ) (fault : Text) : Text :=
  ("parts[" : Text) ++ numeral index ++ "]: " ++ fault

/-- A function part's fields, typed. -/
def checkFunctionPart (index : ℕ) (kind : FunctionKind) (part : RawPart) : Except Text Unit :=
  let named : Text := ("a " : Text) ++ kind.value ++ " part"
  match kind with
  | .call => do
    demand ((given part "id").all isFilledStr)
      (partFault index (named ++ "'s 'id' is a non-empty string"))
    demand ((dictGet part "name").any isStr)
      (partFault index (named ++ " needs 'name' as a string"))
    demand ((dictGet part "arguments").all isObj)
      (partFault index "'arguments' must be an object")
    demand ((given part "opaque_metadata").all isObj)
      (partFault index "'opaque_metadata' must be an object")
  | .result => do
    demand ((dictGet part "call_id").any isFilledStr)
      (partFault index (named ++ " needs 'call_id' as a non-empty string"))
    demand ((given part "name").all isStr)
      (partFault index (named ++ "'s 'name' is a string"))
    demand (carries part "result")
      (partFault index (named ++ " needs 'result'"))
    demand ((given part "error").all isObj)
      (partFault index "'error' must be an object")

def hasData (part : RawPart) : Bool := carries part "mime_type" || carries part "mimeType"

/-- A field whose value would otherwise be converted. -/
def checkField (index : ℕ) (part : RawPart) (field consequence : Text) : Except Text Unit :=
  demand ((dictGet part field).all isStr)
    (partFault index (("'" : Text) ++ field ++ "' must be a string, not "
      ++ typeName ((dictGet part field).getD .null) ++ consequence))

/-- A text or an attachment. -/
def checkPlainPart (index : ℕ) (part : RawPart) : Except Text Unit := do
  demand (carries part "text" != hasData part)
    (partFault index "a part carries either 'text' or 'mime_type' + 'data'")
  if carries part "text" then
    checkField index part "text"
      ". A non-string would be converted and the model would answer about the conversion."
  else
    let consequence := (". A non-string would be converted, and the model would read the "
      ++ "conversion as the attachment.")
    checkField index part "mime_type" consequence
    checkField index part "mimeType" consequence
    checkField index part "data" consequence

/-- A part, accepted: an untyped function part gets its type. -/
def checkPart (index : ℕ) (part : RawPart) : Except Text RawPart :=
  match given part "type" with
  | some (.str word) =>
    match FunctionKind.ofWord word with
    | some kind => do
      checkFunctionPart index kind part
      .ok part
    | none => do
      demand (word = "text")
        (partFault index (("'type' is '" : Text) ++ word ++ "'; a part is text, an attachment, or "
          ++ "one of ['function_call', 'function_result']"))
      checkPlainPart index part
      .ok part
  | some value =>
    .error (partFault index (("'type' must be a string, not " : Text) ++ typeName value))
  | none =>
    match functionKind part with
    | some kind => do
      checkFunctionPart index kind part
      .ok (dictSet part "type" (.str kind.value))
    | none => do
      checkPlainPart index part
      .ok part

/-- Which function part a checked part is. -/
def kindOf (part : RawPart) : Option FunctionKind :=
  match dictGet part "type" with
  | some (.str word) => FunctionKind.ofWord word
  | _ => none

/-- Which function part a part is as it was sent. -/
def sentKind (part : RawPart) : Option FunctionKind :=
  match given part "type" with
  | some (.str word) => FunctionKind.ofWord word
  | some _ => none
  | none => functionKind part

/-- The fields of a part have the types of its kind. -/
def Typed (part : RawPart) : Option FunctionKind → Prop
  | some .call =>
    (given part "id").all isFilledStr ∧ (dictGet part "name").any isStr ∧
      (dictGet part "arguments").all isObj ∧ (given part "opaque_metadata").all isObj
  | some .result =>
    (dictGet part "call_id").any isFilledStr ∧ (given part "name").all isStr ∧
      carries part "result" ∧ (given part "error").all isObj
  | none =>
    (carries part "text" ∧ (dictGet part "text").all isStr) ∨
      ¬carries part "text" ∧ hasData part ∧ (dictGet part "mime_type").all isStr ∧
        (dictGet part "mimeType").all isStr ∧ (dictGet part "data").all isStr

theorem checkFunctionPart_ok {index : ℕ} {kind : FunctionKind} {part : RawPart}
    (h : checkFunctionPart index kind part = .ok ()) : Typed part (some kind) := by
  cases kind with
  | call =>
    obtain ⟨_, hid, h⟩ := bind_eq_ok_iff.mp h
    obtain ⟨_, hname, h⟩ := bind_eq_ok_iff.mp h
    obtain ⟨_, harguments, h⟩ := bind_eq_ok_iff.mp h
    exact ⟨demand_ok_iff.mp hid, demand_ok_iff.mp hname, demand_ok_iff.mp harguments,
      demand_ok_iff.mp h⟩
  | result =>
    obtain ⟨_, hid, h⟩ := bind_eq_ok_iff.mp h
    obtain ⟨_, hname, h⟩ := bind_eq_ok_iff.mp h
    obtain ⟨_, hresult, h⟩ := bind_eq_ok_iff.mp h
    exact ⟨demand_ok_iff.mp hid, demand_ok_iff.mp hname, demand_ok_iff.mp hresult,
      demand_ok_iff.mp h⟩

theorem checkPlainPart_ok {index : ℕ} {part : RawPart}
    (h : checkPlainPart index part = .ok ()) : Typed part none := by
  obtain ⟨_, hone, h⟩ := bind_eq_ok_iff.mp h
  have hone := demand_ok_iff.mp hone
  by_cases htext : carries part "text"
  · rw [if_pos htext] at h
    exact .inl ⟨htext, demand_ok_iff.mp h⟩
  · rw [if_neg htext] at h
    obtain ⟨_, hmime, h⟩ := bind_eq_ok_iff.mp h
    obtain ⟨_, hmime', h⟩ := bind_eq_ok_iff.mp h
    have hdata : hasData part := by
      rw [Bool.eq_false_of_not_eq_true htext] at hone
      simpa using hone
    exact .inr ⟨htext, hdata, demand_ok_iff.mp hmime, demand_ok_iff.mp hmime', demand_ok_iff.mp h⟩

/-- A part as it was sent and as it was accepted. -/
structure Checked (part checked : RawPart) : Prop where
  kind : kindOf checked = sentKind part
  typed : Typed part (sentKind part)
  others : ∀ key, key ≠ ("type" : Text) → dictGet checked key = dictGet part key

/-- **What an accepted part is.** -/
theorem checkPart_ok {index : ℕ} {part checked : RawPart}
    (h : checkPart index part = .ok checked) : Checked part checked := by
  rw [checkPart] at h
  suffices hchecked : kindOf checked = sentKind part ∧ Typed part (sentKind part) ∧
      ∀ key, key ≠ ("type" : Text) → dictGet checked key = dictGet part key from
    ⟨hchecked.1, hchecked.2.1, hchecked.2.2⟩
  rw [sentKind]
  split at h
  · next word hword =>
    have hread : kindOf part = FunctionKind.ofWord word := by
      rw [kindOf, (Option.filter_eq_some_iff.mp hword).1]
    split at h
    · next kind hkind =>
      obtain ⟨_, hcheck, h⟩ := bind_eq_ok_iff.mp h
      obtain rfl := Except.ok.inj h
      simp only [hread, hkind]
      exact ⟨trivial, checkFunctionPart_ok hcheck, fun _ _ => trivial⟩
    · next hkind =>
      obtain ⟨_, -, h⟩ := bind_eq_ok_iff.mp h
      obtain ⟨_, hcheck, h⟩ := bind_eq_ok_iff.mp h
      obtain rfl := Except.ok.inj h
      simp only [hread, hkind]
      exact ⟨trivial, checkPlainPart_ok hcheck, fun _ _ => trivial⟩
  · exact absurd h error_ne_ok
  · next hnone =>
    split at h
    · next kind hkind =>
      obtain ⟨_, hcheck, h⟩ := bind_eq_ok_iff.mp h
      obtain rfl := Except.ok.inj h
      have hread : kindOf (dictSet part "type" (.str kind.value)) = some kind := by
        rw [kindOf, dictGet_dictSet, if_pos rfl]
        exact FunctionKind.ofWord_value kind
      simp only [hread, hkind]
      refine ⟨trivial, checkFunctionPart_ok hcheck, fun key hkey => ?_⟩
      rw [dictGet_dictSet, if_neg hkey]
    · next hkind =>
      obtain ⟨_, hcheck, h⟩ := bind_eq_ok_iff.mp h
      obtain rfl := Except.ok.inj h
      have hread : kindOf part = none := by
        rw [kindOf]
        cases htype : dictGet part "type" with
        | none => rfl
        | some value =>
          -- a type that is there and not given is null
          rw [given, htype, Option.filter_eq_none_iff] at hnone
          have hnull : value = .null := by simpa using hnone value rfl
          rw [hnull]
      simp only [hread, hkind]
      exact ⟨trivial, checkPlainPart_ok hcheck, fun _ _ => trivial⟩

/-! ### Requests -/

structure RequestContent where
  parts : List RawPart

/-- Which function parts a content carries. -/
def RequestContent.kinds (content : RequestContent) : List FunctionKind :=
  content.parts.filterMap kindOf

/-- Who wrote a turn of the history. -/
inductive TurnRole
  | user
  | model
  deriving DecidableEq

def TurnRole.value : TurnRole → Text
  | user => "user"
  | model => "model"

structure ConversationContent where
  content : RequestContent
  role : TurnRole

/-- A function offered to the model. -/
structure ToolSpec where
  name : Text
  description : Text
  parameters : List (Text × Json)

structure ThinkingSetting where
  mode : Text
  tokens : Option ℤ := none

structure ChatRequest where
  request : RequestContent
  systemInstruction : Option RequestContent := none
  conversationHistory : Option (List ConversationContent) := none
  maxTokens : Option ℤ := none
  temperature : Json := .float "1.0"
  thinking : Option ThinkingSetting := none
  responseSchema : Option (List (Text × Json)) := none
  tools : Option (List ToolSpec) := none

/-- The parts from an index on, each checked. -/
def checkParts (index : ℕ) : List RawPart → Except Text (List RawPart)
  | [] => .ok []
  | part :: rest => do
    let checked ← checkPart index part
    let others ← checkParts (index + 1) rest
    .ok (checked :: others)

def checkContent (content : RequestContent) : Except Text RequestContent := do
  let parts ← checkParts 0 content.parts
  .ok { content with parts }

/-- A turn of the history: a call is the model's and a result is the caller's. -/
def checkTurn (turn : ConversationContent) : Except Text ConversationContent := do
  let content ← checkContent turn.content
  let wrong := if turn.role = .model then FunctionKind.result else .call
  demand (wrong ∉ content.kinds)
    (("a '" : Text) ++ turn.role.value ++ "' turn cannot carry a " ++ wrong.value ++ " part")
  .ok { turn with content }

/-- A content under the role it is read in. -/
structure RequestTurn where
  role : Role
  content : RequestContent

def TurnRole.canonical : TurnRole → Role
  | user => .user
  | model => .model

/-- The turns of a request: its instruction, its history and what is asked now. -/
def ChatRequest.turns (request : ChatRequest) : List RequestTurn :=
  (request.systemInstruction.map (RequestTurn.mk .system)).toList ++
    ((request.conversationHistory.getD []).map fun turn => ⟨turn.role.canonical, turn.content⟩) ++
    [⟨.user, request.request⟩]

/-- A request as its schemas accept it. The first fault refuses it. -/
def validate (request : ChatRequest) : Except Text ChatRequest := do
  let content ← checkContent request.request
  let systemInstruction ← request.systemInstruction.mapM checkContent
  let conversationHistory ← request.conversationHistory.mapM fun turns => turns.mapM checkTurn
  demand (FunctionKind.call ∉ content.kinds)
    (("the request cannot carry a " : Text) ++ FunctionKind.call.value ++ " part")
  demand (systemInstruction.all fun content => content.kinds.isEmpty)
    "the system instruction cannot carry function parts"
  .ok { request with request := content, systemInstruction, conversationHistory }

/-- A turn as it was sent and as it was accepted. -/
structure Accepted (sent checked : RequestTurn) : Prop where
  role : checked.role = sent.role
  parts : List.Forall₂ Checked sent.content.parts checked.content.parts
  calls : checked.role ≠ .model → .call ∉ checked.content.kinds
  results : checked.role ≠ .user → .result ∉ checked.content.kinds

theorem checkParts_ok {index : ℕ} {parts checked : List RawPart}
    (h : checkParts index parts = .ok checked) : List.Forall₂ Checked parts checked := by
  induction parts generalizing index checked with
  | nil =>
    obtain rfl := Except.ok.inj h
    exact .nil
  | cons part rest ih =>
    obtain ⟨first, hfirst, h⟩ := bind_eq_ok_iff.mp h
    obtain ⟨others, hothers, h⟩ := bind_eq_ok_iff.mp h
    obtain rfl := Except.ok.inj h
    exact .cons (checkPart_ok hfirst) (ih hothers)

theorem checkContent_ok {content checked : RequestContent}
    (h : checkContent content = .ok checked) :
    List.Forall₂ Checked content.parts checked.parts := by
  obtain ⟨parts, hparts, h⟩ := bind_eq_ok_iff.mp h
  obtain rfl := Except.ok.inj h
  exact checkParts_ok hparts

theorem checkTurn_ok {turn checked : ConversationContent} (h : checkTurn turn = .ok checked) :
    Accepted ⟨turn.role.canonical, turn.content⟩ ⟨checked.role.canonical, checked.content⟩ := by
  obtain ⟨content, hcontent, h⟩ := bind_eq_ok_iff.mp h
  obtain ⟨_, hwrong, h⟩ := bind_eq_ok_iff.mp h
  have hwrong := of_decide_eq_true (demand_ok_iff.mp hwrong)
  obtain rfl := Except.ok.inj h
  have hparts := checkContent_ok hcontent
  cases hrole : turn.role with
  | user =>
    rw [hrole] at hwrong
    exact ⟨rfl, hparts, fun _ => hwrong, fun hother => absurd rfl hother⟩
  | model =>
    rw [hrole] at hwrong
    exact ⟨rfl, hparts, fun hother => absurd rfl hother, fun _ => hwrong⟩

/-- **What an accepted request is.** -/
theorem validate_ok {request checked : ChatRequest} (h : validate request = .ok checked) :
    List.Forall₂ Accepted request.turns checked.turns := by
  obtain ⟨content, hcontent, h⟩ := bind_eq_ok_iff.mp h
  obtain ⟨system, hsystem, h⟩ := bind_eq_ok_iff.mp h
  obtain ⟨history, hhistory, h⟩ := bind_eq_ok_iff.mp h
  obtain ⟨_, hcall, h⟩ := bind_eq_ok_iff.mp h
  obtain ⟨_, hnone, h⟩ := bind_eq_ok_iff.mp h
  have hcall := of_decide_eq_true (demand_ok_iff.mp hcall)
  have hnone := demand_ok_iff.mp hnone
  obtain rfl := Except.ok.inj h
  refine List.rel_append (List.rel_append ?_ ?_) ?_
  · cases hsent : request.systemInstruction with
    | none =>
      rw [hsent] at hsystem
      obtain rfl := Except.ok.inj hsystem
      exact .nil
    | some instruction =>
      rw [hsent] at hsystem
      obtain ⟨accepted, haccepted, hsystem⟩ := bind_eq_ok_iff.mp hsystem
      obtain rfl := Except.ok.inj hsystem
      have hempty : accepted.kinds = [] := by simpa using hnone
      refine .cons ⟨rfl, checkContent_ok haccepted, fun _ => ?_, fun _ => ?_⟩ .nil
      · rw [hempty]
        exact List.not_mem_nil
      · rw [hempty]
        exact List.not_mem_nil
  · cases hsent : request.conversationHistory with
    | none =>
      rw [hsent] at hhistory
      obtain rfl := Except.ok.inj hhistory
      exact .nil
    | some turns =>
      rw [hsent] at hhistory
      obtain ⟨accepted, haccepted, hhistory⟩ := bind_eq_ok_iff.mp hhistory
      obtain rfl := Except.ok.inj hhistory
      rw [List.forall₂_map_left_iff, List.forall₂_map_right_iff]
      exact (mapM_eq_ok_iff.mp haccepted).imp fun _ _ hturn => checkTurn_ok hturn
  · exact .cons ⟨rfl, checkContent_ok hcontent, fun _ => hcall, fun hother => absurd rfl hother⟩
      .nil

end AiraGateway.Kira
