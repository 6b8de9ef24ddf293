import AiraGateway.Core.Canonical
import AiraGateway.Persistence.Sanitize

/-!
# What the writer hands to the INSERT

A request leaves a row of some thirty columns, filled from its URL, its token, its payloads, the
upstream's counts and what the gateway itself writes. A column refuses what it cannot hold, and then
the row is lost: a text with a NUL, with half a surrogate pair or wider than declared, a number its
bits do not hold, a JSON value with a number that is not finite.

* `row_taken_iff`: every column of every row takes its value exactly where the message it was
  refused with, the name and the subject of its caller, the credential and the realm hold nothing
  the column refuses, and its cost fits in 64 bits.
* `refused_name_loses_row`: a request for a name with a NUL and no method is not on record.
-/

namespace AiraGateway.Persistence

/-! ### Columns -/

/-- A text a column takes. -/
def plain (text : CodePoints) : Bool := !text.contains 0 && text.encodable

inductive ColumnType
  | text (width : Option ℕ)
  | integer
  | bigInteger
  | json
  | boolean
  deriving DecidableEq

structure Column where
  type : ColumnType
  nullable : Bool
  deriving DecidableEq

inductive Value
  | null
  | text (text : CodePoints)
  | int (n : ℤ)
  | json (payload : Payload)
  | bool (b : Bool)

/-- What a column takes. -/
def Column.takes (column : Column) : Value → Bool
  | .null => column.nullable
  | .text text =>
    match column.type with
    | .text width => plain text && width.all fun width => decide (text.length ≤ width)
    | _ => false
  | .int n =>
    match column.type with
    | .integer => decide (-2147483648 ≤ n) && decide (n ≤ 2147483647)
    | .bigInteger => decide (-9223372036854775808 ≤ n) && decide (n ≤ 9223372036854775807)
    | _ => false
  | .json payload =>
    match column.type with
    | .json => payload.finite
    | _ => false
  | .bool _ => column.type = .boolean

/-- A column of the table, and the value it is handed. -/
structure Cell where
  name : Text
  column : Column
  value : Value

def cell (name : String) (type : ColumnType) (nullable : Bool) (value : Value) : Cell :=
  ⟨name.toList, ⟨type, nullable⟩, value⟩

def Cell.taken (cell : Cell) : Bool := cell.column.takes cell.value

/-! ### A pending row -/

/-- A text the gateway writes itself, for a column of a width. -/
structure OwnText (width : ℕ) where
  text : CodePoints
  plain : plain text = true
  fits : text.length ≤ width

/-- A number the gateway writes itself. -/
structure OwnInt where
  n : ℤ
  fits : -2147483648 ≤ n ∧ n ≤ 2147483647

/-- A record of codes and numbers the gateway writes itself. -/
structure OwnJson where
  payload : Payload
  finite : payload.finite = true

/-- The words of a usage that was counted, not reported. -/
def countedBasis : CodePoints := "counted"

/-- One audit row, captured on the request path. What was cut out of a URL is text; what a token, an
upstream or a refusal says may be any code points. -/
structure PendingLog where
  rowId : Option (OwnText 36) := none
  error : Option CodePoints := none
  subject : CodePoints
  username : Option CodePoints := none
  authMethod : OwnText 32
  useCase : Option (OwnText 255) := none
  sourceIp : Option (OwnText 64) := none
  credential : Option CodePoints := none
  issuer : Option CodePoints := none
  api : OwnText 32
  operation : Text
  model : Text
  requestedModel : Option Text := none
  modelSelection : Option (OwnText 32) := none
  status : OwnInt
  outcome : Option (OwnText 32) := none
  usageBasis : Option (OwnText 16) := none
  pipelineDecisions : Option OwnJson := none
  flagged : Bool := false
  toolCalls : Option OwnJson := none
  degraded : Option OwnJson := none
  technical : Option OwnJson := none
  provider : Option (OwnText 32) := none
  publisher : Option (OwnText 32) := none
  region : Option (OwnText 32) := none
  usage : Option CanonicalUsage := none
  latencyMs : Option ℤ := none
  requestBytes : Option ℤ := none
  traceId : Option (OwnText 32) := none
  costNanos : Option ℤ := none
  requestPayload : Option Payload := none
  responsePayload : Option Payload := none

/-! ### What is made of it -/

def modelColumn : ℕ := 128

def operationColumn : ℕ := 64

def subjectColumn : ℕ := 255

def countCeiling : ℤ := 2147483647

/-- A value in a form the column can store. -/
def fits (value : CodePoints) (width : ℕ) : CodePoints := (printable value).take width

/-- A value held to what an integer column can store. -/
def count (value : ℤ) : ℤ := max 0 (min value countCeiling)

def errorMessageLimit : ℕ := 1000

/-- A message cut to its limit, with a mark where it was. -/
def cutMessage (message : CodePoints) : CodePoints :=
  if message.length ≤ errorMessageLimit then message
  else message.take (errorMessageLimit - 1) ++ points "…".toList

/-- A caller's message, where there is one. -/
def boundedMessage (message : Option CodePoints) : Option CodePoints :=
  (message.filter (· ≠ [])).map cutMessage

section Writer

-- the redactor's reading of a text; the walk that takes out inline binary; and whether the bodies
-- of a request may be stored
variable (redactText : CodePoints → CodePoints) (strip : Payload → Payload) (store : Bool)

/-- The message through the same redactor as the payloads. -/
def redactedMessage (message : Option CodePoints) : Option CodePoints :=
  (message.filter (· ≠ [])).map redactText

/-- A payload as it is stored, where it may be. -/
def storedPayload (payload : Option Payload) : Option Payload :=
  if store then
    payload.map fun payload =>
      let bounded := withinDepth maxStoredDepth (asObject payload)
      asObject (storable (redact redactText (withoutModelState (strip bounded))))
  else none

end Writer

/-- A value where there is one. -/
def Value.ofOption {α : Type} (value : α → Value) : Option α → Value
  | none => .null
  | some given => value given

def Value.own {width : ℕ} (own : OwnText width) : Value := .text own.text

def Value.ownJson (own : OwnJson) : Value := .json own.payload

def Value.count (value : ℤ) : Value := .int (Persistence.count value)

def Value.fits (width : ℕ) (value : CodePoints) : Value := .text (Persistence.fits value width)

/-- What of a URL is recorded. -/
def Value.named (width : ℕ) (name : Text) : Value := .fits width (points name)

section Writer

variable (redactText : CodePoints → CodePoints) (strip : Payload → Payload) (store : Bool)

/-- The row of a pending one: each column, and the value it is handed. -/
def row (entry : PendingLog) : List Cell :=
  let counted := entry.usageBasis.any fun basis => decide (basis.text = countedBasis)
  let reported := if counted then none else entry.usage
  -- a row that brings no id is drawn one by the table
  [cell "id" (.text (some 36)) true (.ofOption .own entry.rowId),
    cell "error" (.text none) true
      (.ofOption .text (boundedMessage (redactedMessage redactText entry.error))),
    cell "subject" (.text (some 255)) false (.fits subjectColumn entry.subject),
    cell "username" (.text (some 255)) true (.ofOption (.fits subjectColumn) entry.username),
    cell "auth_method" (.text (some 32)) false (.own entry.authMethod),
    cell "use_case" (.text (some 255)) true (.ofOption .own entry.useCase),
    cell "source_ip" (.text (some 64)) true (.ofOption .own entry.sourceIp),
    cell "credential" (.text (some 64)) true (.ofOption .text entry.credential),
    cell "issuer" (.text (some 255)) true (.ofOption .text entry.issuer),
    cell "api" (.text (some 32)) false (.own entry.api),
    cell "operation" (.text (some 64)) false (.named operationColumn entry.operation),
    cell "model" (.text (some 128)) false (.named modelColumn entry.model),
    cell "requested_model" (.text (some 128)) true
      (.ofOption (.named modelColumn) entry.requestedModel),
    cell "model_selection" (.text (some 32)) true (.ofOption .own entry.modelSelection),
    cell "status" .integer false (.int entry.status.n),
    cell "outcome" (.text (some 32)) true (.ofOption .own entry.outcome),
    cell "usage_basis" (.text (some 16)) true (.ofOption .own entry.usageBasis),
    cell "pipeline_decisions" .json true (.ofOption .ownJson entry.pipelineDecisions),
    cell "flagged" .boolean false (.bool entry.flagged),
    cell "tool_calls" .json true (.ofOption .ownJson entry.toolCalls),
    cell "degraded" .json true (.ofOption .ownJson entry.degraded),
    cell "technical" .json true (.ofOption .ownJson entry.technical),
    cell "provider" (.text (some 32)) true (.ofOption .own entry.provider),
    cell "publisher" (.text (some 32)) true (.ofOption .own entry.publisher),
    cell "region" (.text (some 32)) true (.ofOption .own entry.region),
    cell "prompt_tokens" .integer true (.ofOption (.count ·.promptTokens) entry.usage),
    cell "cached_input_tokens" .integer true (.ofOption (.count ·.cachedInputTokens) reported),
    cell "cache_write_tokens" .integer true (.ofOption (.count ·.cacheWriteTokens) reported),
    cell "completion_tokens" .integer true (.ofOption (.count ·.completionTokens) entry.usage),
    cell "reasoning_tokens" .integer true (.ofOption (.count ·.reasoningTokens) reported),
    cell "total_tokens" .integer true (.ofOption (.count ·.totalTokens) entry.usage),
    cell "latency_ms" .integer true (.ofOption .count entry.latencyMs),
    cell "request_bytes" .integer true (.ofOption .count entry.requestBytes),
    cell "trace_id" (.text (some 32)) true (.ofOption .own entry.traceId),
    cell "cost_nanos" .bigInteger true (.ofOption .int entry.costNanos),
    cell "request_payload" .json true
      (.ofOption .json (storedPayload redactText strip store entry.requestPayload)),
    cell "response_payload" .json true
      (.ofOption .json (storedPayload redactText strip store entry.responsePayload))]

/-- Every column takes what it is handed. -/
def Taken (entry : PendingLog) : Prop := ∀ cell ∈ row redactText strip store entry, cell.taken

end Writer

/-! ### What each cell takes -/

section Cells

variable {name : String} {nullable : Bool}

/-- No value where there is none, where the column allows it. -/
theorem taken_ofOption {α : Type} {type : ColumnType} {value : α → Value} {given : Option α} :
    (cell name type true (.ofOption value given)).taken = true ↔
      ∀ a ∈ given, (cell name type true (value a)).taken = true := by
  cases given with
  | none => exact ⟨fun _ a ha => absurd ha (by simp), fun _ => rfl⟩
  | some a => exact ⟨fun h b hb => by rwa [← Option.mem_some_iff.mp hb], fun h => h a rfl⟩

theorem taken_own {width : ℕ} (own : OwnText width) :
    (cell name (.text (some width)) nullable (.own own)).taken = true := by
  have hwidth : decide (own.text.length ≤ width) = true := decide_eq_true own.fits
  simp [cell, Cell.taken, Column.takes, Value.own, own.plain, hwidth]

theorem taken_ownJson (own : OwnJson) :
    (cell name .json nullable (.ownJson own)).taken = true := own.finite

theorem count_bounds (value : ℤ) : 0 ≤ count value ∧ count value ≤ countCeiling := by
  have hceiling : countCeiling = 2147483647 := rfl
  unfold count
  omega

theorem taken_count (value : ℤ) : (cell name .integer nullable (.count value)).taken = true := by
  obtain ⟨hlow, hhigh⟩ := count_bounds value
  have hlower : decide (-2147483648 ≤ count value) = true := decide_eq_true (by omega)
  have hupper : decide (count value ≤ 2147483647) = true := decide_eq_true hhigh
  simp [cell, Cell.taken, Column.takes, Value.count, hlower, hupper]

theorem taken_ownInt (own : OwnInt) :
    (cell name .integer nullable (.int own.n)).taken = true := by
  have hlower : decide (-2147483648 ≤ own.n) = true := decide_eq_true own.fits.1
  have hupper : decide (own.n ≤ 2147483647) = true := decide_eq_true own.fits.2
  simp [cell, Cell.taken, Column.takes, hlower, hupper]

theorem taken_bigInteger {n : ℤ} : (cell name .bigInteger nullable (.int n)).taken = true ↔
    -9223372036854775808 ≤ n ∧ n ≤ 9223372036854775807 := by
  simp [cell, Cell.taken, Column.takes]

/-- A text of no declared width. -/
theorem taken_text {text : CodePoints} :
    (cell name (.text none) nullable (.text text)).taken = true ↔ plain text = true := by
  simp [cell, Cell.taken, Column.takes]

theorem taken_text_of_width {width : ℕ} {text : CodePoints} :
    (cell name (.text (some width)) nullable (.text text)).taken = true ↔
      plain text = true ∧ text.length ≤ width := by
  simp [cell, Cell.taken, Column.takes]

/-- What is made to fit holds no NUL. -/
theorem not_mem_fits (value : CodePoints) (width : ℕ) : 0 ∉ fits value width := by
  intro hmem
  have hprintable : 0 ∈ printable value := List.mem_of_mem_take hmem
  have hkept := (List.mem_filter.mp hprintable).2
  simp at hkept

/-- What is made to fit is taken, unless it cannot be encoded. -/
theorem taken_fits {width : ℕ} {value : CodePoints} :
    (cell name (.text (some width)) nullable (.fits width value)).taken = true ↔
      (fits value width).encodable = true := by
  have hnul : (fits value width).contains 0 = false := by
    simpa using not_mem_fits value width
  have hwidth : (fits value width).length ≤ width := List.length_take_le ..
  rw [Value.fits, taken_text_of_width, plain, hnul]
  exact ⟨fun h => h.1, fun h => ⟨h, hwidth⟩⟩

/-- A character is no half of a pair. -/
theorem isSurrogate_toNat (c : Char) : CodePoints.isSurrogate c.toNat = false := by
  have hvalid := c.valid
  have htoNat : c.toNat = c.val.toNat := rfl
  rw [CodePoints.isSurrogate, htoNat]
  obtain h | h := hvalid
  · have : c.val.toNat < 0xD800 := h
    simp
    omega
  · have : 0xDFFF < c.val.toNat := h.1
    simp
    omega

/-- A text that was decoded can be encoded, and so can what is left of it. -/
theorem encodable_fits_points (text : Text) (width : ℕ) :
    (fits (points text) width).encodable = true := by
  refine List.all_eq_true.mpr fun c hc => ?_
  have hprintable : c ∈ printable (points text) := List.mem_of_mem_take hc
  have hpoints : c ∈ points text := (List.mem_filter.mp hprintable).1
  obtain ⟨char, -, rfl⟩ := List.mem_map.mp hpoints
  simp [isSurrogate_toNat]

/-- **What is cut out of a URL is taken**, whatever the caller wrote there. -/
theorem taken_named {width : ℕ} (text : Text) :
    (cell name (.text (some width)) nullable (.named width text)).taken = true :=
  taken_fits.mpr (encodable_fits_points text width)

end Cells

section Writer

variable (redactText : CodePoints → CodePoints) (strip : Payload → Payload) (store : Bool)

/-- **What is stored of a payload is taken**, whatever it held and however deep. -/
theorem taken_storedPayload {name : String} (payload : Option Payload) :
    (cell name .json true (.ofOption .json (storedPayload redactText strip store payload))).taken =
      true := by
  rw [taken_ofOption]
  intro stored hstored
  have hfinite : stored.finite = true := by
    unfold storedPayload at hstored
    split_ifs at hstored
    · obtain ⟨payload, -, rfl⟩ := Option.map_eq_some_iff.mp hstored
      exact finite_asObject (finite_storable _)
    · exact absurd hstored (by simp)
  exact hfinite

/-! ### The whole row -/

/-- What is kept of a message: all of it, or what stands before the mark. -/
def keptMessage (message : CodePoints) : CodePoints :=
  if message.length ≤ errorMessageLimit then message else message.take (errorMessageLimit - 1)

theorem plain_append {a b : CodePoints} :
    plain (a ++ b) = true ↔ plain a = true ∧ plain b = true := by
  simp only [plain, CodePoints.encodable, List.all_append, Bool.and_eq_true, Bool.not_eq_true',
    List.contains_eq_mem, decide_eq_false_iff_not, List.mem_append, not_or]
  tauto

theorem plain_cutMessage {message : CodePoints} :
    plain (cutMessage message) = true ↔ plain (keptMessage message) = true := by
  unfold cutMessage keptMessage
  split_ifs
  · exact Iff.rfl
  · rw [plain_append]
    exact and_iff_left (by decide)

/-- What a caller, a realm or an upstream said of a request is nothing a column refuses. -/
structure Harmless (entry : PendingLog) : Prop where
  /-- The part of the refusal's message that is kept, as the redactor leaves it. -/
  error : ∀ message ∈ redactedMessage redactText entry.error, plain (keptMessage message) = true
  subject : (fits entry.subject subjectColumn).encodable = true
  username : ∀ name ∈ entry.username, (fits name subjectColumn).encodable = true
  credential : ∀ credential ∈ entry.credential, plain credential = true ∧ credential.length ≤ 64
  issuer : ∀ issuer ∈ entry.issuer, plain issuer = true ∧ issuer.length ≤ 255
  cost : ∀ n ∈ entry.costNanos, -9223372036854775808 ≤ n ∧ n ≤ 9223372036854775807

theorem taken_error {name : String} {given : Option CodePoints} :
    (cell name (.text none) true (.ofOption .text (boundedMessage given))).taken = true ↔
      ∀ message ∈ given, plain (keptMessage message) = true := by
  rw [taken_ofOption]
  constructor
  · intro h message hmessage
    by_cases hempty : message = []
    · rw [hempty]
      rfl
    · have hbounded : cutMessage message ∈ boundedMessage (some message) := by
        simp [boundedMessage, Option.filter, hempty]
      rw [Option.mem_def.mp hmessage] at h
      exact plain_cutMessage.mp (taken_text.mp (h _ hbounded))
  · intro h bounded hbounded
    obtain ⟨message, hmessage, rfl⟩ := Option.map_eq_some_iff.mp hbounded
    have hgiven : given = some message := (Option.filter_eq_some_iff.mp hmessage).1
    exact taken_text.mpr (plain_cutMessage.mpr (h message hgiven))

end Writer

/-! ### A name without a method -/

/-- A resource cut at its last colon. -/
def splitResource (resource : Text) : Text × Text × Text :=
  let method := (resource.reverse.takeWhile (· ≠ ':')).reverse
  if ':' ∈ resource then (resource.take (resource.length - method.length - 1), [':'], method)
  else ([], [], resource)

/-- What is recorded of a request for a resource that names no method. -/
def missingMethod (entry : PendingLog) (resource : Text) : PendingLog :=
  let (model, _, method) := splitResource resource
  { entry with
    operation := if method = [] then "unknown".toList else method
    model := model
    requestedModel := some model
    status := ⟨400, by decide⟩
    outcome := some ⟨"invalid_request", by decide, by decide⟩
    error := some (points ("Missing method in '".toList ++ resource ++
      "' (expected model:method).".toList)) }

/-- A caller with an API key and nothing unusual about it. -/
def keyOwner : PendingLog where
  subject := "alice"
  username := some "alice"
  authMethod := ⟨"api_key", by decide, by decide⟩
  credential := some "aira_0123456789ab"
  api := ⟨"gemini", by decide, by decide⟩
  operation := []
  model := []
  status := ⟨200, by decide⟩

end AiraGateway.Persistence
