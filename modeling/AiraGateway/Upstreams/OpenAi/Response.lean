import AiraGateway.Core.Canonical
import AiraGateway.Library.Dict
import AiraGateway.Library.Except
import AiraGateway.Pipeline.StrictReaders
import Mathlib.Data.List.Sort

/-!
# OpenAI answers, whole and streamed

An answer is the first choice's message. A streamed one comes in deltas: texts and reasoning in
pieces, and each tool call in fragments that carry its index. `StreamedToolCalls` gathers the
fragments by index, and `StreamAssembler` emits the finished calls on the chunk that ends the
message. What `json.loads` makes of a call's arguments and what `int()` makes of a figure are
parameters.

* `streamed_reassembles_iff`: for every way of streaming a message, its chunks put together are the
  whole answer, exactly where the stream says how the message ended and what it used.
* `calls_lost`: a message that ends without a word for it, and its call is in no chunk.
-/

namespace AiraGateway.OpenAi

/-! ### The wire -/

/-- What an answer says, or a piece of it; a reasoning model has one of two spellings for its
thoughts. -/
structure Said where
  content : Option Text := none
  reasoning : Option Text := none
  reasoningContent : Option Text := none

structure AnsweredCall where
  id : Option Text := none
  name : Option Text := none
  arguments : Option Text := none

structure AnsweredMessage extends Said where
  toolCalls : List AnsweredCall := []

structure AnsweredChoice where
  message : AnsweredMessage := {}
  finishReason : Option Text := none

structure Answer where
  choices : List AnsweredChoice := []
  usage : Option Json := none

/-- A piece of a tool call. -/
structure CallFragment extends AnsweredCall where
  index : ℤ := 0

structure Delta extends Said where
  toolCalls : List CallFragment := []

structure StreamedChoice where
  delta : Delta := {}
  finishReason : Option Text := none

structure StreamedPayload where
  choices : List StreamedChoice := []
  usage : Option Json := none
  error : Option Json := none

/-- The upstream's failure: one it sends inside a stream, an answer that is none, or a figure that
is no number. -/
inductive OpenAiFailure
  | inStream (error : Json)
  | upstream (message : Text) (status : ℕ)
  | notANumber
  deriving DecidableEq

/-! ### What an answer says -/

/-- The dialect's words for how a choice ended. -/
def finishReasons : List (Text × FinishReason) :=
  [("stop", .stop), ("length", .maxTokens), ("content_filter", .refusal), ("tool_calls", .toolUse),
    ("function_call", .toolUse)]

/-- How a choice ended. Absent is a normal end, and a word that is not known is no normal one. -/
def finishReason (value : Option Text) : FinishReason :=
  match value with
  | none => .stop
  | some word => (dictGet finishReasons word).getD .other

/-- The chain of thought, where the use case asked for it. -/
def reasoningOf (said : Said) (wanted : Bool) : Text :=
  let thoughts := orText said.reasoning (said.reasoningContent.getD [])
  if wanted then thoughts else []

/-- The answer, and only the answer. -/
def answerOf (said : Said) : Text := said.content.getD []

/-- The fields that make a `usage` block a report. -/
def usageCountFields : List Text := ["prompt_tokens", "completion_tokens", "total_tokens"]

def reportsUsage (payload : Option Json) : Bool :=
  payload.any fun usage => usageCountFields.any fun field => (usage.get field).isSome

section Reading

variable (toInt : Json → Option ℤ) (loads : Text → Option Json)

/-- A figure, zero where there is none. -/
def figure (value : Option Json) : Except OpenAiFailure ℤ :=
  match value.filter Json.truthy with
  | none => .ok 0
  | some value =>
    match toInt value with
    | some n => .ok n
    | none => .error .notANumber

def usageOf (payload : Option Json) : Except OpenAiFailure CanonicalUsage := do
  let counts (field : Text) : Option Json := payload.bind (·.get field)
  let cached ← figure toInt ((counts "prompt_tokens_details").bind (·.get "cached_tokens"))
  let reasoning ←
    figure toInt ((counts "completion_tokens_details").bind (·.get "reasoning_tokens"))
  let prompt ← figure toInt (counts "prompt_tokens")
  let completion ← figure toInt (counts "completion_tokens")
  .ok
    { promptTokens := prompt, completionTokens := completion, reasoningTokens := reasoning
      cachedInputTokens := cached }

/-- The arguments of a call: none where the text is none or is no object. -/
def argumentsOf (raw : Option Text) : List (Text × Json) :=
  match (raw.filter (· ≠ [])).bind loads with
  | some (.obj members) => members
  | _ => []

/-- A call, if it has a name. -/
def toolCallOf (entry : AnsweredCall) (index : ℕ) : Option ToolCallPart :=
  let name := entry.name.getD []
  if name = [] then none
  else some
    { id := orText entry.id (name ++ '-' :: numeral index), name
      arguments := argumentsOf loads entry.arguments }

def toolCallsOf (raw : List AnsweredCall) : List ToolCallPart :=
  raw.zipIdx.filterMap fun (entry, index) => toolCallOf loads entry index

def openaiToCanonical (data : Answer) (model : Text) (includeReasoning : Bool := false) :
    Except OpenAiFailure CanonicalResponse :=
  match data.choices with
  | [] => .error (.upstream "The upstream answered with no choice." 502)
  | first :: _ => do
    let usage ← usageOf toInt data.usage
    .ok
      { model
        text := answerOf first.message.toSaid
        reasoning := reasoningOf first.message.toSaid includeReasoning
        finishReason := finishReason first.finishReason
        usage
        toolCalls := toolCallsOf loads first.message.toolCalls }

/-- One payload's chunk, if it carries anything. -/
def openaiChunkToCanonical (data : StreamedPayload) (includeReasoning : Bool := false) :
    Except OpenAiFailure (Option CanonicalChunk) :=
  match data.error with
  | some error => .error (.inStream error)
  | none => do
    let usage ← if reportsUsage data.usage then (usageOf toInt data.usage).map some else .ok none
    match data.choices with
    | [] => .ok (usage.map fun counts => { textDelta := [], usage := some counts })
    | first :: _ =>
      .ok (some
        { textDelta := answerOf first.delta.toSaid
          reasoningDelta := reasoningOf first.delta.toSaid includeReasoning
          finishReason := (first.finishReason.filter (· ≠ [])).map (finishReason ∘ some)
          usage })

/-! ### Tool calls in pieces -/

/-- A call as far as it has come. -/
structure PendingCall where
  id : Text := []
  name : Text := []
  arguments : Text := []

def PendingCall.add (entry : PendingCall) (fragment : CallFragment) : PendingCall where
  id := orText fragment.id entry.id
  name := orText fragment.name entry.name
  arguments := entry.arguments ++ fragment.arguments.getD []

/-- The calls of a stream by their indexes. -/
structure StreamedToolCalls where
  byIndex : List (ℤ × PendingCall) := []

namespace StreamedToolCalls

def addOne (s : StreamedToolCalls) (fragment : CallFragment) : StreamedToolCalls where
  byIndex := dictSet s.byIndex fragment.index
    (((dictGet s.byIndex fragment.index).getD {}).add fragment)

def add (s : StreamedToolCalls) (fragments : List CallFragment) : StreamedToolCalls :=
  fragments.foldl addOne s

def pending (s : StreamedToolCalls) : Bool := s.byIndex ≠ []

/-- The calls in the order of their indexes. One without a name is dropped. -/
def raw (s : StreamedToolCalls) : List AnsweredCall :=
  ((s.byIndex.insertionSort (·.1 ≤ ·.1)).filter (·.2.name ≠ [])).map fun entry =>
    { id := some entry.2.id, name := some entry.2.name, arguments := some entry.2.arguments }

def finish (s : StreamedToolCalls) : List ToolCallPart × StreamedToolCalls :=
  (toolCallsOf loads s.raw, {})

end StreamedToolCalls

/-- One stream's payloads, with its tool calls assembled across them. -/
structure StreamAssembler where
  calls : StreamedToolCalls := {}
  includeReasoning : Bool := false

namespace StreamAssembler

def feed (a : StreamAssembler) (payload : StreamedPayload) :
    Except OpenAiFailure (Option CanonicalChunk × StreamAssembler) := do
  let fragments := (payload.choices.head?.map (·.delta.toolCalls)).getD []
  let calls := a.calls.add fragments
  let chunk ← openaiChunkToCanonical toInt payload a.includeReasoning
  match chunk with
  | some chunk =>
    if chunk.finishReason.isSome && calls.pending then
      let (made, rest) := calls.finish loads
      .ok (some { chunk with toolCalls := made }, { a with calls := rest })
    else .ok (some chunk, { a with calls })
  | none => .ok (none, { a with calls })

/-- The chunks of a stream. -/
def feedAll (a : StreamAssembler) :
    List StreamedPayload → Except OpenAiFailure (List CanonicalChunk)
  | [] => .ok []
  | payload :: rest => do
    let (chunk, a) ← a.feed toInt loads payload
    let chunks ← a.feedAll rest
    .ok (chunk.toList ++ chunks)

end StreamAssembler

end Reading

/-! ### Streaming a message -/

/-- The two spellings of the reasoning. -/
inductive Spelling
  | reasoning
  | reasoningContent

def Said.thoughts (said : Said) : Spelling → Text
  | .reasoning => said.reasoning.getD []
  | .reasoningContent => said.reasoningContent.getD []

/-- A call with a name and an id. -/
structure NamedCall where
  id : Text
  name : Text
  arguments : Text
  id_ne : id ≠ []
  name_ne : name ≠ []

def NamedCall.answered (call : NamedCall) : AnsweredCall where
  id := some call.id
  name := some call.name
  arguments := some call.arguments

/-- A message of an assistant, and what it used. Its finish reason may be null. -/
structure AssistantMessage where
  content : Option Text := none
  spelling : Spelling := .reasoning
  reasoning : Option Text := none
  calls : List NamedCall := []
  finishReason : Option Text := none
  usage : Json

namespace AssistantMessage

def said (m : AssistantMessage) : Said :=
  match m.spelling with
  | .reasoning => { content := m.content, reasoning := m.reasoning }
  | .reasoningContent => { content := m.content, reasoningContent := m.reasoning }

/-- The message in one answer. -/
def whole (m : AssistantMessage) : Answer where
  choices :=
    [{ message := { toSaid := m.said, toolCalls := m.calls.map NamedCall.answered }
       finishReason := m.finishReason }]
  usage := some m.usage

/-- The message in pieces: its deltas, its end, and what it used. Every payload but the last may
have a `usage` block of other things (`traffic`). -/
def streamed (m : AssistantMessage) (traffic : Option Json) (deltas : List Delta) :
    List StreamedPayload :=
  deltas.map (fun delta => { choices := [{ delta }], usage := traffic }) ++
    [{ choices := [{ finishReason := m.finishReason }], usage := traffic },
      { usage := some m.usage }]

/-- The stream has a word for how the message ended. -/
def Ends (m : AssistantMessage) : Prop := m.finishReason.any (· ≠ []) = true

end AssistantMessage

/-- The fragments of a call: the first carries its id and its name, which the others leave out or
repeat, and together they carry its arguments. -/
structure CutCall (call : NamedCall) (fragments : List CallFragment) : Prop where
  first : ∃ first rest, fragments = first :: rest ∧
    first.id = some call.id ∧ first.name = some call.name
  ids : ∀ fragment ∈ fragments, orText fragment.id call.id = call.id
  names : ∀ fragment ∈ fragments, orText fragment.name call.name = call.name
  arguments : (fragments.map (·.arguments.getD [])).flatten = call.arguments

/-- The deltas of a message: its texts cut anywhere, and the fragments of its calls among them in
any order that keeps those of one call in theirs. -/
structure CutMessage (m : AssistantMessage) (deltas : List Delta) : Prop where
  content : (deltas.map fun delta => answerOf delta.toSaid).flatten = m.content.getD []
  reasoning : (deltas.map fun delta => delta.toSaid.thoughts m.spelling).flatten
    = m.reasoning.getD []
  spelling : ∀ delta ∈ deltas, ∀ spelling ≠ m.spelling, delta.toSaid.thoughts spelling = []
  calls : ∀ (i : ℕ) call, m.calls[i]? = some call →
    CutCall call ((deltas.flatMap (·.toolCalls)).filter (·.index = i))
  indexes : ∀ fragment ∈ deltas.flatMap (·.toolCalls),
    ∃ i < m.calls.length, fragment.index = (i : ℤ)

/-- The chunks of a stream, put together, are the whole answer, and calls come with the end. -/
structure Reassembles (chunks : List CanonicalChunk) (response : CanonicalResponse) : Prop where
  text : (chunks.map (·.textDelta)).flatten = response.text
  reasoning : (chunks.map (·.reasoningDelta)).flatten = response.reasoning
  toolCalls : chunks.flatMap (·.toolCalls) = response.toolCalls
  finishReason : chunks.filterMap (·.finishReason) = [response.finishReason]
  usage : chunks.filterMap (·.usage) = [response.usage]
  withEnd : ∀ chunk ∈ chunks, chunk.finishReason = none → chunk.toolCalls = []

/-! ### Fragments gathered by index -/

namespace StreamedToolCalls

theorem add_cons (s : StreamedToolCalls) (fragment : CallFragment) (rest : List CallFragment) :
    s.add (fragment :: rest) = (s.addOne fragment).add rest := rfl

theorem add_append (s : StreamedToolCalls) (fragments more : List CallFragment) :
    s.add (fragments ++ more) = (s.add fragments).add more := List.foldl_append

/-- What is gathered under an index is what the fragments of that index make. -/
theorem getD_add (s : StreamedToolCalls) (fragments : List CallFragment) (i : ℤ) :
    (dictGet (s.add fragments).byIndex i).getD {}
      = (fragments.filter (·.index = i)).foldl PendingCall.add
          ((dictGet s.byIndex i).getD {}) := by
  induction fragments generalizing s with
  | nil => rfl
  | cons fragment rest ih =>
    rw [add_cons, ih, addOne, dictGet_dictSet]
    by_cases h : i = fragment.index
    · rw [if_pos h, List.filter_cons_of_pos (by simpa using h.symm), List.foldl_cons, h]
      rfl
    · rw [if_neg h, List.filter_cons_of_neg (by simpa using Ne.symm h)]

/-- An index is there once a fragment carries it. -/
theorem isSome_add (s : StreamedToolCalls) (fragments : List CallFragment) (i : ℤ) :
    (dictGet (s.add fragments).byIndex i).isSome = true ↔
      (dictGet s.byIndex i).isSome = true ∨ ∃ fragment ∈ fragments, fragment.index = i := by
  induction fragments generalizing s with
  | nil => simp [add]
  | cons fragment rest ih =>
    rw [add_cons, ih, addOne, dictGet_dictSet]
    by_cases h : i = fragment.index
    · simp [h]
    · simp [h, Ne.symm h]

theorem nodup_add {s : StreamedToolCalls} (h : (s.byIndex.map (·.1)).Nodup)
    (fragments : List CallFragment) : ((s.add fragments).byIndex.map (·.1)).Nodup := by
  induction fragments generalizing s with
  | nil => exact h
  | cons fragment rest ih => exact ih (nodup_keys_dictSet h)

end StreamedToolCalls

/-- A call that is complete. -/
def NamedCall.pendingCall (call : NamedCall) : PendingCall where
  id := call.id
  name := call.name
  arguments := call.arguments

theorem foldl_add_repeats {call : NamedCall} {fragments : List CallFragment}
    (hids : ∀ fragment ∈ fragments, orText fragment.id call.id = call.id)
    (hnames : ∀ fragment ∈ fragments, orText fragment.name call.name = call.name)
    (arguments : Text) :
    fragments.foldl PendingCall.add { call.pendingCall with arguments }
      = { call.pendingCall with
          arguments := arguments ++ (fragments.map (·.arguments.getD [])).flatten } := by
  induction fragments generalizing arguments with
  | nil => simp
  | cons fragment rest ih =>
    have hadd : PendingCall.add { call.pendingCall with arguments } fragment
        = { call.pendingCall with arguments := arguments ++ fragment.arguments.getD [] } := by
      simp only [PendingCall.add, NamedCall.pendingCall]
      rw [hids _ List.mem_cons_self, hnames _ List.mem_cons_self]
    rw [List.foldl_cons, hadd, ih (fun f hf => hids f (List.mem_cons_of_mem _ hf))
      (fun f hf => hnames f (List.mem_cons_of_mem _ hf)), List.map_cons, List.flatten_cons,
      List.append_assoc]

theorem orText_of_ne {text default : Text} (h : text ≠ []) : orText (some text) default = text := by
  cases text with
  | nil => exact absurd rfl h
  | cons c rest => rfl

/-- The fragments of a call make the call. -/
theorem CutCall.foldl_add {call : NamedCall} {fragments : List CallFragment}
    (h : CutCall call fragments) :
    fragments.foldl PendingCall.add {} = call.pendingCall := by
  obtain ⟨first, rest, rfl, hid, hname⟩ := h.first
  have hadd : PendingCall.add {} first
      = { call.pendingCall with arguments := first.arguments.getD [] } := by
    simp only [PendingCall.add, NamedCall.pendingCall]
    rw [hid, hname, orText_of_ne call.id_ne, orText_of_ne call.name_ne, List.nil_append]
  have harguments := h.arguments
  rw [List.map_cons, List.flatten_cons] at harguments
  rw [List.foldl_cons, hadd, foldl_add_repeats
    (fun f hf => h.ids f (List.mem_cons_of_mem _ hf))
    (fun f hf => h.names f (List.mem_cons_of_mem _ hf)), harguments]
  rfl

/-- The calls gathered of a stream's deltas. -/
def gathered (deltas : List Delta) : StreamedToolCalls :=
  ({} : StreamedToolCalls).add (deltas.flatMap (·.toolCalls))

theorem nodup_gathered (deltas : List Delta) : ((gathered deltas).byIndex.map (·.1)).Nodup :=
  @StreamedToolCalls.nodup_add {} List.nodup_nil _

section Gathered

variable {m : AssistantMessage} {deltas : List Delta}

/-- The calls of a message by their indexes. -/
def AssistantMessage.indexed (m : AssistantMessage) : List (ℤ × PendingCall) :=
  m.calls.zipIdx.map fun entry => ((entry.2 : ℤ), entry.1.pendingCall)

theorem mem_indexed_iff {m : AssistantMessage} {entry : ℤ × PendingCall} :
    entry ∈ m.indexed ↔ ∃ (i : ℕ) (call : NamedCall), m.calls[i]? = some call ∧
      entry = ((i : ℤ), call.pendingCall) := by
  rw [AssistantMessage.indexed, List.mem_map]
  constructor
  · rintro ⟨⟨call, i⟩, hmem, rfl⟩
    exact ⟨i, call, List.mk_mem_zipIdx_iff_getElem?.mp hmem, rfl⟩
  · rintro ⟨i, call, hcall, rfl⟩
    exact ⟨(call, i), List.mk_mem_zipIdx_iff_getElem?.mpr hcall, rfl⟩

theorem indexed_sorted (m : AssistantMessage) : m.indexed.Pairwise (·.1 < ·.1) := by
  rw [AssistantMessage.indexed, List.pairwise_map, List.pairwise_iff_getElem]
  intro i j hi hj hij
  simpa using hij

/-- What was gathered of a message's fragments are its calls. -/
theorem mem_gathered_iff (h : CutMessage m deltas) {entry : ℤ × PendingCall} :
    entry ∈ (gathered deltas).byIndex ↔ entry ∈ m.indexed := by
  obtain ⟨k, pending⟩ := entry
  rw [← dictGet_eq_some_iff (nodup_gathered deltas), mem_indexed_iff, gathered]
  have hsome := StreamedToolCalls.isSome_add {} (deltas.flatMap (·.toolCalls)) k
  have hget := StreamedToolCalls.getD_add {} (deltas.flatMap (·.toolCalls)) k
  constructor
  · intro hpending
    rw [hpending] at hsome hget
    obtain hnone | ⟨fragment, hfragment, hindex⟩ := hsome.mp rfl
    · cases hnone
    obtain ⟨i, hi, hindex'⟩ := h.indexes fragment hfragment
    obtain rfl : k = (i : ℤ) := hindex.symm.trans hindex'
    have hcall : m.calls[i]? = some m.calls[i] := List.getElem?_eq_getElem hi
    refine ⟨i, m.calls[i], hcall, Prod.ext rfl ?_⟩
    calc pending = _ := hget
      _ = m.calls[i].pendingCall := (h.calls i _ hcall).foldl_add
  · rintro ⟨i, call, hcall, hentry⟩
    obtain ⟨rfl, rfl⟩ := Prod.mk.inj hentry
    have hcut := h.calls i call hcall
    obtain ⟨first, rest, hfirst, -⟩ := hcut.first
    have hmem : first ∈ (deltas.flatMap (·.toolCalls)).filter (·.index = (i : ℤ)) := by
      rw [hfirst]
      exact List.mem_cons_self
    obtain ⟨hmem, hindex⟩ := List.mem_filter.mp hmem
    obtain ⟨found, hfound⟩ := Option.isSome_iff_exists.mp
      (hsome.mpr (.inr ⟨first, hmem, of_decide_eq_true hindex⟩))
    rw [hfound] at hget ⊢
    congr 1
    exact hget.trans hcut.foldl_add

/-- **The calls are those of the message**, in its order. -/
theorem raw_gathered (h : CutMessage m deltas) :
    (gathered deltas).raw = m.calls.map NamedCall.answered := by
  have hkeys := nodup_gathered deltas
  have hperm : (gathered deltas).byIndex.Perm m.indexed :=
    (List.perm_ext_iff_of_nodup hkeys.of_map
      ((indexed_sorted m).imp fun hlt heq => by simp [heq] at hlt)).mpr
      fun entry => mem_gathered_iff h
  have hsorted : (gathered deltas).byIndex.insertionSort (·.1 ≤ ·.1) = m.indexed := by
    have hapart : ∀ a b, a ∈ (gathered deltas).byIndex.insertionSort (·.1 ≤ ·.1) →
        b ∈ m.indexed → a.1 ≤ b.1 → b.1 ≤ a.1 → a = b := by
      intro a b ha hb hab hba
      exact List.inj_on_of_nodup_map hkeys ((List.mem_insertionSort _).mp ha)
        (hperm.mem_iff.mpr hb) (le_antisymm hab hba)
    exact List.Perm.eq_of_pairwise hapart (List.pairwise_insertionSort _ _)
      ((indexed_sorted m).imp le_of_lt) ((List.perm_insertionSort _ _).trans hperm)
  have hnamed : m.indexed.filter (·.2.name ≠ []) = m.indexed := by
    refine List.filter_eq_self.mpr fun entry hentry => ?_
    obtain ⟨i, call, -, rfl⟩ := mem_indexed_iff.mp hentry
    exact decide_eq_true call.name_ne
  rw [StreamedToolCalls.raw, hsorted, hnamed, AssistantMessage.indexed, List.map_map]
  conv_rhs => rw [← List.zipIdx_map_fst 0 m.calls, List.map_map]
  rfl

end Gathered

/-! ### Feeding a stream -/

section Feeding

variable {toInt : Json → Option ℤ} {loads : Text → Option Json} {wanted : Bool}
  {m : AssistantMessage} {traffic : Option Json} {deltas : List Delta} {model : Text}
  {response : CanonicalResponse}

/-- The chunk of a delta. -/
def pieceChunk (wanted : Bool) (delta : Delta) : CanonicalChunk where
  textDelta := answerOf delta.toSaid
  reasoningDelta := reasoningOf delta.toSaid wanted

theorem feed_piece (htraffic : reportsUsage traffic = false) (a : StreamAssembler)
    (delta : Delta) :
    a.feed toInt loads { choices := [{ delta }], usage := traffic }
      = .ok (some (pieceChunk a.includeReasoning delta),
          { a with calls := a.calls.add delta.toolCalls }) := by
  simp only [StreamAssembler.feed, openaiChunkToCanonical, htraffic]
  rfl

/-- The deltas of a message, one chunk each. -/
theorem feedAll_pieces (htraffic : reportsUsage traffic = false) {a : StreamAssembler}
    {deltas : List Delta} {rest : List StreamedPayload} {chunks : List CanonicalChunk}
    (h : StreamAssembler.feedAll toInt loads
      { a with calls := a.calls.add (deltas.flatMap (·.toolCalls)) } rest = .ok chunks) :
    a.feedAll toInt loads
        (deltas.map (fun delta => { choices := [{ delta }], usage := traffic }) ++ rest)
      = .ok (deltas.map (pieceChunk a.includeReasoning) ++ chunks) := by
  induction deltas generalizing a with
  | nil => exact h
  | cons delta deltas ih =>
    rw [List.flatMap_cons, StreamedToolCalls.add_append] at h
    rw [List.map_cons, List.cons_append, StreamAssembler.feedAll, feed_piece htraffic]
    exact bind_eq_ok_iff.mpr ⟨_, rfl, bind_eq_ok_iff.mpr
      ⟨_, @ih { a with calls := a.calls.add delta.toolCalls } h, rfl⟩⟩

/-- The chunk of the payload that ends a message. -/
def endChunk (loads : Text → Option Json) (m : AssistantMessage) : CanonicalChunk where
  textDelta := []
  finishReason := (m.finishReason.filter (· ≠ [])).map (finishReason ∘ some)
  toolCalls :=
    if m.finishReason.any (· ≠ []) then toolCallsOf loads (m.calls.map NamedCall.answered) else []

/-- The chunk of the payload that says what was used. -/
def usageChunk (usage : Json) (counts : CanonicalUsage) : Option CanonicalChunk :=
  if reportsUsage (some usage) then some { textDelta := [], usage := some counts } else none

theorem feed_usage {a : StreamAssembler} {usage : Json} {counts : CanonicalUsage}
    (h : usageOf toInt (some usage) = .ok counts) :
    ∃ a', a.feed toInt loads { usage := some usage } = .ok (usageChunk usage counts, a') := by
  rw [StreamAssembler.feed, openaiChunkToCanonical, usageChunk]
  cases hreports : reportsUsage (some usage) with
  | false => exact ⟨_, rfl⟩
  | true =>
    simp only [if_true, h]
    exact ⟨_, rfl⟩

theorem chunk_end (htraffic : reportsUsage traffic = false) (reason : Option Text) :
    openaiChunkToCanonical toInt
        { choices := [{ finishReason := reason }], usage := traffic } wanted
      = .ok (some
          { textDelta := []
            finishReason := (reason.filter (· ≠ [])).map (finishReason ∘ some) }) := by
  have hthoughts : reasoningOf {} wanted = [] := by cases wanted <;> rfl
  simp only [openaiChunkToCanonical, htraffic, hthoughts]
  rfl

theorem feed_end (htraffic : reportsUsage traffic = false) (hcut : CutMessage m deltas) :
    ∃ a', StreamAssembler.feed toInt loads
      { calls := gathered deltas, includeReasoning := wanted }
      { choices := [{ finishReason := m.finishReason }], usage := traffic }
        = .ok (some (endChunk loads m), a') := by
  have hadd : (gathered deltas).add [] = gathered deltas := rfl
  rw [StreamAssembler.feed, chunk_end htraffic]
  simp only [List.head?_cons, Option.map_some, Option.getD_some, hadd]
  by_cases hends : ∃ word, m.finishReason.filter (· ≠ []) = some word
  · obtain ⟨word, hword⟩ := hends
    have hany : m.finishReason.any (· ≠ []) = true := by
      rw [Option.any_eq_true]
      exact ⟨word, Option.filter_eq_some_iff.mp hword⟩
    rw [endChunk, hword, if_pos hany, ← raw_gathered hcut]
    by_cases hpending : (gathered deltas).pending = true
    · exact ⟨_, by simp only [hpending]; rfl⟩
    · -- nothing was gathered, so there is nothing to finish
      have hempty : (gathered deltas).byIndex = [] := by
        simpa [StreamedToolCalls.pending] using hpending
      have hraw : (gathered deltas).raw = [] := by
        rw [StreamedToolCalls.raw, hempty]
        rfl
      rw [hraw]
      exact ⟨_, by simp only [eq_false_of_ne_true hpending]; rfl⟩
  · have hnone : m.finishReason.filter (· ≠ []) = none := by
      simpa [← Option.isSome_iff_exists] using hends
    have hany : ¬m.finishReason.any (· ≠ []) = true := by
      rw [Option.any_eq_true]
      exact fun ⟨word, h⟩ => hends ⟨word, Option.filter_eq_some_iff.mpr h⟩
    rw [endChunk, hnone, if_neg hany]
    exact ⟨_, rfl⟩

/-- The chunks of a stream: one for each delta, one for the end, and one for a usage report. -/
theorem feedAll_streamed (htraffic : reportsUsage traffic = false) (hcut : CutMessage m deltas)
    {counts : CanonicalUsage} (hcounts : usageOf toInt (some m.usage) = .ok counts) :
    StreamAssembler.feedAll toInt loads { includeReasoning := wanted }
        (m.streamed traffic deltas)
      = .ok (deltas.map (pieceChunk wanted) ++
          endChunk loads m :: (usageChunk m.usage counts).toList) := by
  obtain ⟨ended, hended⟩ := @feed_end toInt loads wanted m traffic deltas htraffic hcut
  obtain ⟨last, hlast⟩ := @feed_usage toInt loads ended m.usage counts hcounts
  have hrest : StreamAssembler.feedAll toInt loads
      { calls := gathered deltas, includeReasoning := wanted }
      [{ choices := [{ finishReason := m.finishReason }], usage := traffic },
        { usage := some m.usage }]
      = .ok (endChunk loads m :: (usageChunk m.usage counts).toList) := by
    have husage : ended.feedAll toInt loads [{ usage := some m.usage }]
        = .ok (usageChunk m.usage counts).toList := by
      rw [StreamAssembler.feedAll, hlast]
      exact bind_eq_ok_iff.mpr ⟨_, rfl, bind_eq_ok_iff.mpr ⟨[], rfl, by rw [List.append_nil]⟩⟩
    rw [StreamAssembler.feedAll, hended]
    exact bind_eq_ok_iff.mpr ⟨_, rfl, bind_eq_ok_iff.mpr ⟨_, husage, rfl⟩⟩
  exact feedAll_pieces htraffic hrest

theorem orText_of_empty {value : Option Text} (h : value.getD [] = []) (default : Text) :
    orText value default = default := by
  cases value with
  | none => rfl
  | some text =>
    obtain rfl : text = [] := h
    rfl

theorem orText_nil (value : Option Text) : orText value [] = value.getD [] := by
  rcases value with _ | ⟨_ | ⟨c, rest⟩⟩ <;> rfl

/-- Thoughts in one spelling are read in it. -/
theorem reasoningOf_eq_thoughts {said : Said} {spelling : Spelling}
    (h : ∀ other ≠ spelling, said.thoughts other = []) :
    reasoningOf said true = said.thoughts spelling := by
  cases spelling with
  | reasoning =>
    have hother : said.reasoningContent.getD [] = [] := h .reasoningContent (by simp)
    simp only [reasoningOf, hother, orText_nil]
    rfl
  | reasoningContent =>
    have hother : said.reasoning.getD [] = [] := h .reasoning (by simp)
    simp only [reasoningOf, orText_of_empty hother]
    rfl

theorem thoughts_said (m : AssistantMessage) :
    m.said.thoughts m.spelling = m.reasoning.getD [] ∧
      ∀ other ≠ m.spelling, m.said.thoughts other = [] := by
  rw [AssistantMessage.said]
  cases m.spelling with
  | reasoning =>
    refine ⟨rfl, fun other hother => ?_⟩
    cases other with
    | reasoning => exact absurd rfl hother
    | reasoningContent => rfl
  | reasoningContent =>
    refine ⟨rfl, fun other hother => ?_⟩
    cases other with
    | reasoning => rfl
    | reasoningContent => exact absurd rfl hother

theorem reasoningOf_pieces (hcut : CutMessage m deltas) :
    (deltas.map fun delta => reasoningOf delta.toSaid wanted).flatten
      = reasoningOf m.said wanted := by
  cases wanted with
  | false =>
    have hnone : ∀ said : Said, reasoningOf said false = [] := fun said => rfl
    simp [hnone]
  | true =>
    obtain ⟨hthoughts, hother⟩ := thoughts_said m
    have hpieces : (deltas.map fun delta => reasoningOf delta.toSaid true)
        = deltas.map fun delta => delta.toSaid.thoughts m.spelling :=
      List.map_congr_left fun delta hdelta => reasoningOf_eq_thoughts (hcut.spelling delta hdelta)
    rw [hpieces, hcut.reasoning, reasoningOf_eq_thoughts hother, hthoughts]

theorem answerOf_said (m : AssistantMessage) : answerOf m.said = m.content.getD [] := by
  rw [AssistantMessage.said]
  cases m.spelling <;> rfl

section Put

variable {counts : CanonicalUsage}

/-- What the chunks of a stream come to: its texts always, and the rest where the stream has a word
for its end and a report. -/
theorem finishReasons_chunks :
    (deltas.map (pieceChunk wanted) ++
        endChunk loads m :: (usageChunk m.usage counts).toList).filterMap (·.finishReason)
      = (endChunk loads m).finishReason.toList := by
  have hpieces : (deltas.map (pieceChunk wanted)).filterMap (·.finishReason) = [] := by
    simp [pieceChunk]
  have husage : (usageChunk m.usage counts).toList.filterMap (·.finishReason) = [] := by
    rw [usageChunk]
    split <;> simp
  rw [List.filterMap_append, hpieces, List.nil_append, List.filterMap_cons, husage]
  cases (endChunk loads m).finishReason <;> rfl

theorem usages_chunks :
    (deltas.map (pieceChunk wanted) ++
        endChunk loads m :: (usageChunk m.usage counts).toList).filterMap (·.usage)
      = if reportsUsage (some m.usage) then [counts] else [] := by
  have hpieces : (deltas.map (pieceChunk wanted)).filterMap (·.usage) = [] := by
    simp [pieceChunk]
  have hend : (endChunk loads m).usage = none := rfl
  rw [List.filterMap_append, hpieces, List.nil_append, List.filterMap_cons_none hend, usageChunk]
  split <;> rfl

end Put

/-- **A streamed message is the whole one** exactly where the stream says how the message ended and
what it used. -/
theorem streamed_reassembles_iff (htraffic : reportsUsage traffic = false)
    (hcut : CutMessage m deltas)
    (hwhole : openaiToCanonical toInt loads m.whole model wanted = .ok response) :
    (∃ chunks, StreamAssembler.feedAll toInt loads { includeReasoning := wanted }
        (m.streamed traffic deltas) = .ok chunks ∧ Reassembles chunks response) ↔
      m.Ends ∧ reportsUsage (some m.usage) = true := by
  obtain ⟨counts, hcounts, hresponse⟩ := bind_eq_ok_iff.mp hwhole
  obtain rfl := Except.ok.inj hresponse
  rw [feedAll_streamed htraffic hcut hcounts]
  have hword : m.Ends ↔ ∃ word, m.finishReason.filter (· ≠ []) = some word := by
    simp only [AssistantMessage.Ends, Option.any_eq_true, Option.filter_eq_some_iff]
  constructor
  · rintro ⟨chunks, hchunks, hreassembles⟩
    obtain rfl := Except.ok.inj hchunks
    have hfinish := finishReasons_chunks.symm.trans hreassembles.finishReason
    have husage := usages_chunks.symm.trans hreassembles.usage
    refine ⟨hword.mpr ?_, ?_⟩
    · by_contra hnone
      have hfilter : m.finishReason.filter (· ≠ []) = none := by
        simpa [← Option.isSome_iff_exists] using hnone
      rw [endChunk, hfilter] at hfinish
      cases hfinish
    · by_contra hnone
      rw [if_neg hnone] at husage
      cases husage
  · rintro ⟨hends, hreports⟩
    obtain ⟨word, hfilter⟩ := hword.mp hends
    have hreason : m.finishReason = some word := (Option.filter_eq_some_iff.mp hfilter).1
    have husage : usageChunk m.usage counts = some { textDelta := [], usage := some counts } :=
      if_pos hreports
    refine ⟨_, rfl, ?_, ?_, ?_, ?_, ?_, ?_⟩
    · have htexts := hcut.content
      rw [husage]
      simp [pieceChunk, endChunk, Function.comp_def, htexts, answerOf_said]
    · have hthoughts := @reasoningOf_pieces wanted m deltas hcut
      rw [husage]
      simp [pieceChunk, endChunk, Function.comp_def, hthoughts]
    · have hcalls : (endChunk loads m).toolCalls
          = toolCallsOf loads (m.calls.map NamedCall.answered) := if_pos hends
      rw [husage]
      simp [pieceChunk, hcalls]
    · rw [finishReasons_chunks, endChunk, hfilter, hreason]
      rfl
    · rw [usages_chunks, if_pos hreports]
    · intro chunk hchunk hnone
      rw [husage] at hchunk
      obtain hpiece | hrest := List.mem_append.mp hchunk
      · obtain ⟨delta, -, rfl⟩ := List.mem_map.mp hpiece
        rfl
      · obtain rfl | hlast := List.mem_cons.mp hrest
        · rw [endChunk, hfilter] at hnone
          cases hnone
        · obtain rfl := List.mem_singleton.mp hlast
          rfl

end Feeding

/-- A message that calls one function, under a word for its end or none. -/
def nowMessage (finishReason : Option Text) : AssistantMessage where
  calls := [{ id := "c1", name := "now", arguments := "\x7b\x7d", id_ne := by decide
              name_ne := by decide }]
  finishReason
  usage := .obj [("prompt_tokens", .int 3), ("completion_tokens", .int 2)]

/-- The call in two fragments. -/
def nowDeltas : List Delta :=
  [{ toolCalls := [{ index := 0, id := some "c1", name := some "now", arguments := some "\x7b" }] },
    { toolCalls := [{ index := 0, arguments := some "\x7d" }] }]

/-- A whole number as it is. -/
def wholeNumber : Json → Option ℤ
  | .int n => some n
  | _ => none

/-- The one object without members. -/
def emptyObject (text : Text) : Option Json :=
  if text = "\x7b\x7d" then some (.obj []) else none

theorem nowDeltas_cut (finishReason : Option Text) :
    CutMessage (nowMessage finishReason) nowDeltas where
  content := rfl
  reasoning := rfl
  spelling := by
    intro delta hdelta spelling _
    simp only [nowDeltas, List.mem_cons, List.not_mem_nil, or_false] at hdelta
    obtain rfl | rfl := hdelta <;> cases spelling <;> rfl
  calls := by
    intro i call hcall
    obtain ⟨hlt, rfl⟩ := List.getElem?_eq_some_iff.mp hcall
    obtain rfl : i = 0 := by simpa [nowMessage] using hlt
    refine ⟨⟨_, _, rfl, rfl, rfl⟩, ?_, ?_, rfl⟩
    all_goals
      intro fragment hfragment
      simp [nowDeltas] at hfragment
      obtain rfl | rfl := hfragment <;> rfl
  indexes := by
    intro fragment hfragment
    simp [nowDeltas] at hfragment
    refine ⟨0, by simp [nowMessage], ?_⟩
    obtain rfl | rfl := hfragment <;> rfl

/-- The call with its end told. -/
theorem streamed_reassembles_now : ∃ response,
    openaiToCanonical wholeNumber emptyObject (nowMessage (some "tool_calls")).whole "m"
      = .ok response ∧
    ((∃ chunks, StreamAssembler.feedAll wholeNumber emptyObject { includeReasoning := false }
        ((nowMessage (some "tool_calls")).streamed none nowDeltas) = .ok chunks ∧
          Reassembles chunks response) ↔
      (nowMessage (some "tool_calls")).Ends ∧
        reportsUsage (some (nowMessage (some "tool_calls")).usage) = true) :=
  ⟨_, rfl, streamed_reassembles_iff rfl (nowDeltas_cut _) rfl⟩

/-- The whole message has a call and its stream has none. -/
def LosesItsCall (finishReason : Option Text) : Prop :=
  CutMessage (nowMessage finishReason) nowDeltas ∧
    ∃ response chunks,
      openaiToCanonical wholeNumber emptyObject (nowMessage finishReason).whole "m"
        = .ok response ∧
      StreamAssembler.feedAll wholeNumber emptyObject {}
        ((nowMessage finishReason).streamed none nowDeltas) = .ok chunks ∧
      response.toolCalls.length = 1 ∧ chunks.flatMap (·.toolCalls) = [] ∧
      ¬Reassembles chunks response

/-- **A call that is lost**: the stream of a message whose finish reason is null, or empty, has no
chunk with its call, which the whole answer has. -/
theorem calls_lost : LosesItsCall none ∧ LosesItsCall (some []) := by
  constructor
  all_goals
    refine ⟨nowDeltas_cut _, _, _, rfl, rfl, rfl, rfl, fun h => ?_⟩
    have hfinish := h.finishReason
    cases hfinish

end AiraGateway.OpenAi
