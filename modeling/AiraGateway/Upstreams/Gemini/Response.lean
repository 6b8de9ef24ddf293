import AiraGateway.Core.Canonical
import AiraGateway.Library.Bytes

/-!
# Gemini answers, whole and streamed

An answer is one candidate with a list of parts. Thoughts are text parts of the same list, and a
function call has an id made up for it where Google sends none. A streamed answer comes in chunks
that are answers themselves; `GeminiStreamAssembler` counts their parts, so that a made-up id is not
used twice. What a text in capitals is (`upper`) is a parameter here: both readings ask the same.

* `stream_reads_as_whole_iff`: for every way of streaming an answer, its chunks read as the whole
  answer does, exactly where the last chunk says how the answer ended and what it used, and has a
  call if the answer ends on `STOP` with calls.
* `calls_before_stop`: a call before the last chunk, and the streamed answer does not end on it.
-/

namespace AiraGateway.Gemini

/-! ### The wire -/

/-- Bytes as Base64 has them. -/
structure Base64 where
  text : Text
  bytes : List UInt8
  decodes : b64decode text = some bytes

structure AnsweredMedia where
  mimeType : Option Text := none
  data : Option Base64 := none

structure AnsweredCall where
  id : Option Text := none
  name : Option Text := none
  args : Option Json := none

structure AnswerPart where
  text : Option Text := none
  thought : Bool := false
  functionCall : Option AnsweredCall := none
  thoughtSignature : Option Text := none
  inlineData : Option AnsweredMedia := none

/-- A candidate. One without content has no parts. -/
structure Candidate where
  parts : List AnswerPart := []
  finishReason : Option Text := none

structure UsageMetadata where
  promptTokenCount : Option ℤ := none
  candidatesTokenCount : Option ℤ := none
  totalTokenCount : Option ℤ := none
  thoughtsTokenCount : Option ℤ := none
  cachedContentTokenCount : Option ℤ := none

/-- A `GenerateContentResponse`, or a chunk of one; `blockReason` is the prompt feedback's. -/
structure Answer where
  candidates : List Candidate := []
  usageMetadata : Option UsageMetadata := none
  blockReason : Option Text := none
  error : Option Json := none

/-! ### What an answer says -/

/-- The answer, without the reasoning. -/
def textOf (candidate : Candidate) : Text :=
  ((candidate.parts.filter (!·.thought)).map (·.text.getD [])).flatten

/-- What the model thought. -/
def reasoningOf (candidate : Candidate) : Text :=
  ((candidate.parts.filter (·.thought)).map (·.text.getD [])).flatten

/-- A part of what was spoken, decoded. -/
def audioPiece (part : AnswerPart) : Option DataPart :=
  let inline := part.inlineData.getD {}
  let mime := inline.mimeType.getD []
  if ("audio/" : Text).isPrefixOf mime then
    some { mediaType := mime, data := (inline.data.map (·.bytes)).getD [] }
  else none

/-- One more piece: the first media type stays. -/
def joinAudio (held piece : DataPart) : DataPart where
  mediaType := orText (some held.mediaType) piece.mediaType
  data := held.data ++ piece.data

/-- Every audio part, joined in order. -/
def audioOf (candidate : Candidate) : Option DataPart :=
  let pieces := candidate.parts.filterMap audioPiece
  if pieces = [] then none else some (pieces.foldl joinAudio ⟨[], []⟩)

/-- Whether a chunk says how many tokens were used. -/
def reportsUsage (data : Answer) : Bool :=
  data.usageMetadata.any fun counts =>
    counts.promptTokenCount.isSome || counts.candidatesTokenCount.isSome ||
      counts.totalTokenCount.isSome

/-- Thinking is output, and counted with it. -/
def usageOf (data : Answer) : CanonicalUsage :=
  let counts := data.usageMetadata.getD {}
  let thoughts := counts.thoughtsTokenCount.getD 0
  { promptTokens := counts.promptTokenCount.getD 0
    completionTokens := counts.candidatesTokenCount.getD 0 + thoughts
    reasoningTokens := thoughts
    cachedInputTokens := counts.cachedContentTokenCount.getD 0 }

/-- The id of a call that Google sends none for. -/
def madeUpId (name : Text) (index : ℕ) : Text := name ++ '-' :: Nat.toDigits 10 index

/-- The call a part makes, if it names a function. -/
def callOf (part : AnswerPart) (index : ℕ) : Option ToolCallPart :=
  part.functionCall.bind fun call =>
    let name := call.name.getD []
    if name = [] then none
    else some
      { id := orText call.id (madeUpId name index)
        name
        arguments := match call.args with
          | some (.obj members) => members
          | _ => []
        signature := part.thoughtSignature.filter (· ≠ []) }

/-- The function calls in one candidate, in order; positions count from `first`. -/
def callsOf (candidate : Candidate) (first : ℕ := 0) : List ToolCallPart :=
  (candidate.parts.zipIdx first).filterMap fun (part, index) => callOf part index

/-- Google's words for how a candidate ended. -/
def finishReasons : List (Text × FinishReason) :=
  [("STOP", .stop), ("MAX_TOKENS", .maxTokens), ("SAFETY", .refusal), ("RECITATION", .refusal),
    ("BLOCKLIST", .refusal), ("PROHIBITED_CONTENT", .refusal), ("SPII", .refusal),
    ("IMAGE_SAFETY", .refusal), ("IMAGE_PROHIBITED_CONTENT", .refusal),
    ("IMAGE_RECITATION", .refusal), ("MODEL_ARMOR", .refusal)]

section Reading

variable (upper : Text → Text)

def reasonOf (raw : Text) : FinishReason := (dictGet finishReasons (upper raw)).getD .other

/-- How a candidate ended: on `STOP` with calls, the calls are the end. -/
def finishOf (raw : Text) (calls : List ToolCallPart) : FinishReason :=
  let reason := reasonOf upper raw
  if reason = .stop ∧ calls ≠ [] then .toolUse else reason

/-- Whether Google refused the prompt. -/
def blocked (data : Answer) : Bool := data.blockReason.any (· ≠ [])

/-- The upstream's failure: one it sends inside a stream, or an answer that is none. -/
inductive GeminiFailure
  | inStream (error : Json)
  | upstream (message : Text) (status : ℕ)
  deriving DecidableEq

def noCandidate : GeminiFailure :=
  .upstream "The upstream answered with no candidate and no reason." 502

def geminiResponseToCanonical (data : Answer) (model : Text) :
    Except GeminiFailure CanonicalResponse :=
  match data.candidates with
  | [] =>
    if blocked data then
      .ok { model, text := [], finishReason := .refusal, usage := usageOf data }
    else .error noCandidate
  | candidate :: _ =>
    let calls := callsOf candidate
    .ok
      { model
        text := textOf candidate
        reasoning := reasoningOf candidate
        finishReason := finishOf upper (candidate.finishReason.getD "STOP") calls
        usage := usageOf data
        toolCalls := calls
        audio := audioOf candidate }

def geminiChunkToCanonical (data : Answer) (firstCall : ℕ := 0) :
    Except GeminiFailure CanonicalChunk :=
  match data.error with
  | some error => .error (.inStream error)
  | none =>
    let usage := if reportsUsage data then some (usageOf data) else none
    match data.candidates with
    | [] => .ok
      { textDelta := [], finishReason := if blocked data then some .refusal else none, usage }
    | candidate :: _ =>
      let calls := callsOf candidate firstCall
      .ok
        { textDelta := textOf candidate
          reasoningDelta := reasoningOf candidate
          finishReason :=
            (candidate.finishReason.filter (· ≠ [])).map fun finish => finishOf upper finish calls
          usage
          toolCalls := calls
          audioDelta := audioOf candidate }

/-- One stream's chunks, numbering the calls that carry no id. -/
structure GeminiStreamAssembler where
  partsSeen : ℕ := 0

namespace GeminiStreamAssembler

def feed (a : GeminiStreamAssembler) (data : Answer) :
    Except GeminiFailure (GeminiStreamAssembler × CanonicalChunk) := do
  let chunk ← geminiChunkToCanonical upper data a.partsSeen
  match data.candidates with
  | [] => .ok (a, chunk)
  | candidate :: _ => .ok ({ a with partsSeen := a.partsSeen + candidate.parts.length }, chunk)

/-- The chunks of a stream. -/
def feedAll (a : GeminiStreamAssembler) : List Answer → Except GeminiFailure (List CanonicalChunk)
  | [] => .ok []
  | data :: rest => do
    let (a, chunk) ← a.feed upper data
    let chunks ← a.feedAll rest
    .ok (chunk :: chunks)

end GeminiStreamAssembler

end Reading

/-! ### What the accounting of a stream reads -/

/-- What is gathered of the chunks of a stream. `audio` is the digest's media type and what its hash
has been given. -/
structure StreamReading where
  usage : Option CanonicalUsage := none
  finishReason : Option FinishReason := none
  calls : List ToolCallPart := []
  answer : List Text := []
  reasoning : List Text := []
  audio : DataPart := ⟨[], []⟩

namespace StreamReading

/-- What the vendor sent, as it is read. -/
def observe (r : StreamReading) (chunk : CanonicalChunk) : StreamReading :=
  { r with
    usage := chunk.usage.or r.usage
    finishReason := chunk.finishReason.or r.finishReason
    calls := r.calls ++ chunk.toolCalls
    answer := r.answer ++ [chunk.textDelta] }

/-- What of a chunk is kept besides, where the surface shows the reasoning. -/
def take (r : StreamReading) (chunk : CanonicalChunk) : StreamReading :=
  { r with
    reasoning :=
      if chunk.reasoningDelta = [] then r.reasoning else r.reasoning ++ [chunk.reasoningDelta]
    audio := match chunk.audioDelta with
      | some part => joinAudio r.audio part
      | none => r.audio }

def readAll (r : StreamReading) (chunks : List CanonicalChunk) : StreamReading :=
  chunks.foldl (fun r chunk => (r.observe chunk).take chunk) r

/-- The audio of the stream, if there is any. -/
def spoken (r : StreamReading) : Option DataPart :=
  if r.audio.mediaType = [] then none else some r.audio

end StreamReading

/-! ### Streaming an answer -/

namespace AnswerPart

/-- Whether a part makes a call. -/
def makesCall (part : AnswerPart) : Bool := (part.functionCall.bind (·.name)).any (· ≠ [])

/-- The id a part states for its call. -/
def statedId (part : AnswerPart) : Option Text :=
  (part.functionCall.bind (·.id)).filter (· ≠ [])

/-- Text, or a thought. -/
def plain (part : AnswerPart) : Prop := part.functionCall = none ∧ part.inlineData = none

/-- A call without the id that was made up for it. -/
def unmade (part : AnswerPart) (call : ToolCallPart) : ToolCallPart :=
  if part.statedId.isSome then call else { call with id := [] }

end AnswerPart

/-- The parts of an answer as a stream has them: in order, with texts cut further. -/
inductive Cut : List AnswerPart → List AnswerPart → Prop
  | nil : Cut [] []
  | keep (part : AnswerPart) {parts pieces : List AnswerPart} (rest : Cut parts pieces) :
      Cut (part :: parts) (part :: pieces)
  | text {part : AnswerPart} (hplain : part.plain) {texts : List Text}
      (htexts : texts.flatten = part.text.getD []) {parts pieces : List AnswerPart}
      (rest : Cut parts pieces) :
      Cut (part :: parts) (texts.map (fun t => { part with text := some t }) ++ pieces)

/-- A chunk before the last. -/
structure EarlierChunk where
  parts : List AnswerPart
  usageMetadata : Option UsageMetadata := none

def EarlierChunk.answer (chunk : EarlierChunk) : Answer :=
  { candidates := [{ parts := chunk.parts }], usageMetadata := chunk.usageMetadata }

/-- An answer with one candidate, and a way of streaming it. -/
structure GeminiStream where
  parts : List AnswerPart
  finishReason : Option Text
  usageMetadata : Option UsageMetadata
  earlier : List EarlierChunk
  last : List AnswerPart
  cut : Cut parts ((earlier.map (·.parts)).flatten ++ last)
  unreported : ∀ chunk ∈ earlier, reportsUsage chunk.answer = false

namespace GeminiStream

def whole (s : GeminiStream) : Answer :=
  { candidates := [{ parts := s.parts, finishReason := s.finishReason }]
    usageMetadata := s.usageMetadata }

def lastChunk (s : GeminiStream) : Answer :=
  { candidates := [{ parts := s.last, finishReason := s.finishReason }]
    usageMetadata := s.usageMetadata }

def chunks (s : GeminiStream) : List Answer := s.earlier.map (·.answer) ++ [s.lastChunk]

end GeminiStream

/-- Reading the stream gives the answer. A call's id may differ where it was made up; where all are,
no two are one. -/
structure Reassembles (parts : List AnswerPart) (r : StreamReading)
    (response : CanonicalResponse) : Prop where
  text : r.answer.flatten = response.text
  reasoning : r.reasoning.flatten = response.reasoning
  audio : r.spoken = response.audio
  finishReason : r.finishReason = some response.finishReason
  usage : r.usage = some response.usage
  length : r.calls.length = response.toolCalls.length
  calls : (parts.filter (·.makesCall)).zipWith AnswerPart.unmade r.calls
    = (parts.filter (·.makesCall)).zipWith AnswerPart.unmade response.toolCalls
  distinct : (∀ part ∈ parts, part.statedId = none) → (r.calls.map (·.id)).Nodup

/-! ### Calls and their ids -/

section Calls

variable {part : AnswerPart} {parts more : List AnswerPart} {call : ToolCallPart} {i j n : ℕ}

/-- The call of a part, but for the id that is made up for it. -/
theorem callOf_eq_some (h : callOf part i = some call) :
    part.makesCall = true ∧ call.id = part.statedId.getD (madeUpId call.name i) ∧
      ∀ j, callOf part j = some
        { call with id := part.statedId.getD (madeUpId call.name j) } := by
  obtain ⟨answered, hanswered, hcall⟩ := Option.bind_eq_some_iff.mp h
  simp only at hcall
  split_ifs at hcall with hname
  obtain ⟨id, name, args⟩ := answered
  obtain rfl := Option.some.inj hcall
  have hsome : ∃ c t, name = some (c :: t) := by
    rcases name with _ | _ | ⟨c, t⟩
    · exact absurd rfl hname
    · exact absurd rfl hname
    · exact ⟨c, t, rfl⟩
  obtain ⟨c, t, rfl⟩ := hsome
  have hid : ∀ default, orText id default = part.statedId.getD default := by
    intro default
    rcases id with _ | _ | ⟨c, t⟩
    all_goals simp [AnswerPart.statedId, hanswered, orText, Option.filter]
  refine ⟨by simp [AnswerPart.makesCall, hanswered], hid _, fun j => ?_⟩
  simp [callOf, hanswered, hid]

theorem isSome_callOf : (callOf part i).isSome = part.makesCall := by
  rcases hcall : callOf part i with _ | call
  · rcases hf : part.functionCall with _ | ⟨id, name, args⟩
    · simp [AnswerPart.makesCall, hf]
    · rcases name with _ | _ | ⟨c, t⟩
      · simp [AnswerPart.makesCall, hf]
      · simp [AnswerPart.makesCall, hf]
      · simp [callOf, hf] at hcall
  · exact (callOf_eq_some hcall).1.symm

theorem callsOf_cons : callsOf { parts := part :: parts } n =
    (callOf part n).toList ++ callsOf { parts := parts } (n + 1) := by
  rw [callsOf, callsOf, List.zipIdx_cons, List.filterMap_cons]
  rcases hcall : callOf part n with _ | call <;> simp only [hcall] <;> rfl

theorem callsOf_append : callsOf { parts := parts ++ more } n =
    callsOf { parts := parts } n ++ callsOf { parts := more } (n + parts.length) := by
  simp [callsOf, List.zipIdx_append]

theorem callsOf_ne_nil : callsOf { parts := parts } n ≠ [] ↔ ∃ part ∈ parts, part.makesCall := by
  induction parts generalizing n with
  | nil => simp [callsOf]
  | cons part parts ih =>
    have hcall : (callOf part n).isSome = part.makesCall := isSome_callOf
    rw [callsOf_cons, List.exists_mem_cons_iff, ← ih (n := n + 1), ← hcall]
    rcases callOf part n with _ | call <;> simp

/-- What a call is, but for a made-up id, does not depend on its position. -/
theorem unmade_callOf (h : callOf part i = some call) (j : ℕ) :
    ∃ call', callOf part j = some call' ∧ part.unmade call' = part.unmade call := by
  obtain ⟨-, hid, hall⟩ := callOf_eq_some h
  refine ⟨_, hall j, ?_⟩
  obtain ⟨id, name, arguments, signature⟩ := call
  rcases hstated : part.statedId with _ | stated
  · simp [AnswerPart.unmade, hstated]
  · obtain rfl : id = stated := by simpa [hstated] using hid
    simp [AnswerPart.unmade, hstated]

/-- The made-up ids of two positions differ. -/
theorem madeUpId_inj {name name' : Text} (h : madeUpId name i = madeUpId name' j) : i = j := by
  have hdash : ∀ k, '-' ∉ (Nat.toDigits 10 k).reverse := by
    intro k hmem
    have hdigit := Nat.isDigit_of_mem_toDigits (by decide) (by decide) (List.mem_reverse.mp hmem)
    exact absurd hdigit (by decide)
  have hreverse := congrArg List.reverse h
  simp only [madeUpId, List.reverse_append, List.reverse_cons, List.append_assoc,
    List.cons_append, List.nil_append] at hreverse
  have hdigits := (separator_inj (hdash i) (hdash j) hreverse).1
  have hsame := List.reverse_injective hdigits
  rw [← Nat.ofDigitChars_ten_toDigits (n := i), hsame, Nat.ofDigitChars_ten_toDigits]

/-- Where no part states an id, the ids are made up of the positions. -/
theorem madeUp_of_mem (hnone : ∀ part ∈ parts, part.statedId = none)
    (h : call ∈ callsOf { parts := parts } n) :
    ∃ i, n ≤ i ∧ call.id = madeUpId call.name i := by
  induction parts generalizing n with
  | nil => simp [callsOf] at h
  | cons part parts ih =>
    obtain ⟨hpart, hparts⟩ := List.forall_mem_cons.mp hnone
    rw [callsOf_cons, List.mem_append, Option.mem_toList] at h
    rcases h with h | h
    · have hid := (callOf_eq_some h).2.1
      rw [hpart] at hid
      exact ⟨n, le_refl n, hid⟩
    · obtain ⟨i, hle, hid⟩ := ih hparts h
      exact ⟨i, Nat.le_of_succ_le hle, hid⟩

/-- **No made-up id is used twice.** -/
theorem nodup_ids (hnone : ∀ part ∈ parts, part.statedId = none) :
    ((callsOf { parts := parts } n).map (·.id)).Nodup := by
  induction parts generalizing n with
  | nil => simp [callsOf]
  | cons part parts ih =>
    obtain ⟨hpart, hparts⟩ := List.forall_mem_cons.mp hnone
    rw [callsOf_cons]
    rcases hcall : callOf part n with _ | call
    · exact ih hparts
    · have hid := (callOf_eq_some hcall).2.1
      rw [hpart] at hid
      refine List.nodup_cons.mpr ⟨?_, ih hparts⟩
      intro hmem
      obtain ⟨call', hcall', hsame⟩ := List.mem_map.mp hmem
      obtain ⟨i, hle, hid'⟩ := madeUp_of_mem hparts hcall'
      have hpos : i = n := madeUpId_inj (hid'.symm.trans (hsame.trans hid))
      omega

end Calls

/-! ### Audio -/

section Audio

variable {part : AnswerPart} {a b c piece : DataPart} {pieces : List DataPart}

theorem joinAudio_assoc : joinAudio (joinAudio a b) c = joinAudio a (joinAudio b c) := by
  obtain ⟨ta, da⟩ := a
  rcases ta with _ | ⟨x, ta⟩ <;> simp [joinAudio, orText]

theorem joinAudio_empty : joinAudio a ⟨[], []⟩ = a := by
  obtain ⟨ta, da⟩ := a
  rcases ta with _ | ⟨x, ta⟩ <;> simp [joinAudio, orText]

theorem empty_joinAudio : joinAudio ⟨[], []⟩ a = a := by simp [joinAudio, orText]

/-- Pieces joined one after the other are the pieces joined. -/
theorem foldl_joinAudio (pieces : List DataPart) (a : DataPart) :
    pieces.foldl joinAudio a = joinAudio a (pieces.foldl joinAudio ⟨[], []⟩) := by
  induction pieces generalizing a with
  | nil => exact joinAudio_empty.symm
  | cons piece pieces ih =>
    rw [List.foldl_cons, List.foldl_cons, ih, ih (joinAudio _ piece), joinAudio_assoc,
      empty_joinAudio]

/-- A piece says what it is. -/
theorem mediaType_ne_nil (h : audioPiece part = some piece) : piece.mediaType ≠ [] := by
  unfold audioPiece at h
  simp only at h
  split_ifs at h with haudio
  obtain rfl := Option.some.inj h
  rintro (hnil : (part.inlineData.getD {}).mimeType.getD [] = [])
  rw [hnil] at haudio
  exact absurd haudio (by decide)

theorem mediaType_foldl (hpieces : ∀ piece ∈ pieces, piece.mediaType ≠ []) :
    (pieces.foldl joinAudio ⟨[], []⟩).mediaType = [] ↔ pieces = [] := by
  rcases pieces with _ | ⟨piece, pieces⟩
  · exact ⟨fun _ => rfl, fun _ => rfl⟩
  · have hne := hpieces piece List.mem_cons_self
    rw [List.foldl_cons, foldl_joinAudio, empty_joinAudio]
    obtain ⟨t, d⟩ := piece
    rcases t with _ | ⟨x, t⟩
    · exact absurd rfl hne
    · simp [joinAudio, orText]

end Audio

/-! ### Cutting changes nothing -/

section Cutting

variable {parts pieces : List AnswerPart}

/-- What is read of the parts one by one is read of their pieces. -/
theorem Cut.flatMap_eq {β : Type} {f : AnswerPart → List β}
    (htext : ∀ (part : AnswerPart) (texts : List Text), part.plain →
      texts.flatten = part.text.getD [] →
        texts.flatMap (fun t => f { part with text := some t }) = f part)
    (h : Cut parts pieces) : pieces.flatMap f = parts.flatMap f := by
  induction h with
  | nil => rfl
  | keep part rest ih => rw [List.flatMap_cons, List.flatMap_cons, ih]
  | text hplain htexts rest ih =>
    rw [List.flatMap_append, List.flatMap_map, List.flatMap_cons, htext _ _ hplain htexts, ih]

/-- What reads the text of a part reads it of its pieces. -/
theorem flatMap_text (keep : Bool) {texts : List Text} {t : Text} (h : texts.flatten = t) :
    (texts.flatMap fun t => if keep then t else []) = if keep then t else [] := by
  rw [← h]
  rcases keep with _ | _
  · simp
  · simp [List.flatMap_id']

theorem textOf_eq : textOf { parts := parts } =
    parts.flatMap fun part => if !part.thought then part.text.getD [] else [] := by
  induction parts with
  | nil => rfl
  | cons part parts ih =>
    rw [List.flatMap_cons, ← ih, textOf, textOf, List.filter_cons]
    split_ifs <;> simp

theorem reasoningOf_eq : reasoningOf { parts := parts } =
    parts.flatMap fun part => if part.thought then part.text.getD [] else [] := by
  induction parts with
  | nil => rfl
  | cons part parts ih =>
    rw [List.flatMap_cons, ← ih, reasoningOf, reasoningOf, List.filter_cons]
    split_ifs <;> simp

theorem Cut.textOf_eq (h : Cut parts pieces) :
    textOf { parts := pieces } = textOf { parts := parts } := by
  rw [Gemini.textOf_eq, Gemini.textOf_eq]
  exact h.flatMap_eq fun part texts _ htexts => flatMap_text (!part.thought) htexts

theorem Cut.reasoningOf_eq (h : Cut parts pieces) :
    reasoningOf { parts := pieces } = reasoningOf { parts := parts } := by
  rw [Gemini.reasoningOf_eq, Gemini.reasoningOf_eq]
  exact h.flatMap_eq fun part texts _ htexts => flatMap_text part.thought htexts

theorem Cut.audioPieces_eq (h : Cut parts pieces) :
    pieces.filterMap audioPiece = parts.filterMap audioPiece := by
  rw [List.filterMap_eq_flatMap_toList, List.filterMap_eq_flatMap_toList]
  refine h.flatMap_eq fun part texts hplain _ => ?_
  have hnone : ∀ t, audioPiece { part with text := some t } = none := by
    intro t
    simp [audioPiece, hplain.2]
  have hpart : audioPiece part = none := by simp [audioPiece, hplain.2]
  simp [hnone, hpart]

/-- A text that is cut makes no call. -/
theorem callOf_of_plain {part : AnswerPart} (h : part.plain) (n : ℕ) : callOf part n = none := by
  rw [callOf, h.1]
  rfl

theorem callsOf_texts {part : AnswerPart} (hplain : part.plain) (texts : List Text) (n : ℕ) :
    callsOf { parts := texts.map fun t => { part with text := some t } } n = [] := by
  rw [callsOf, List.filterMap_eq_nil_iff]
  rintro ⟨piece, i⟩ hmem
  obtain ⟨t, -, rfl⟩ := List.mem_map.mp (List.fst_mem_of_mem_zipIdx hmem)
  exact callOf_of_plain hplain i

/-- The calls are the same, but for the ids that are made up. -/
theorem Cut.calls_eq (h : Cut parts pieces) (i j : ℕ) :
    (callsOf { parts := pieces } i).length = (callsOf { parts := parts } j).length ∧
      (parts.filter (·.makesCall)).zipWith AnswerPart.unmade (callsOf { parts := pieces } i)
        = (parts.filter (·.makesCall)).zipWith AnswerPart.unmade (callsOf { parts := parts } j) := by
  induction h generalizing i j with
  | nil => exact ⟨rfl, rfl⟩
  | @keep part parts pieces rest ih =>
    obtain ⟨hlength, hcalls⟩ := ih (i + 1) (j + 1)
    rw [callsOf_cons, callsOf_cons, List.filter_cons, ← isSome_callOf (i := i)]
    rcases hcall : callOf part i with _ | call
    · have hcall' : callOf part j = none := by
        rw [← Option.not_isSome_iff_eq_none, isSome_callOf, ← isSome_callOf (i := i), hcall]
        simp
      rw [hcall']
      exact ⟨hlength, hcalls⟩
    · obtain ⟨call', hcall', hsame⟩ := unmade_callOf hcall j
      rw [hcall']
      simp [hlength, hcalls, hsame]
  | @text part hplain texts htexts parts pieces rest ih =>
    obtain ⟨hlength, hcalls⟩ := ih (i + (texts.map fun t => { part with text := some t }).length)
      (j + 1)
    have hquiet : part.makesCall = false := by simp [AnswerPart.makesCall, hplain.1]
    rw [callsOf_append, callsOf_texts hplain, callsOf_cons, callOf_of_plain hplain,
      List.filter_cons_of_neg (by simp [hquiet])]
    exact ⟨hlength, hcalls⟩

/-- No id is stated by the pieces that is not by the parts. -/
theorem Cut.statedId_eq_none (h : Cut parts pieces)
    (hnone : ∀ part ∈ parts, part.statedId = none) : ∀ piece ∈ pieces, piece.statedId = none := by
  induction h with
  | nil => exact hnone
  | keep part rest ih =>
    obtain ⟨hpart, hrest⟩ := List.forall_mem_cons.mp hnone
    exact List.forall_mem_cons.mpr ⟨hpart, ih hrest⟩
  | text hplain htexts rest ih =>
    obtain ⟨hpart, hrest⟩ := List.forall_mem_cons.mp hnone
    intro piece hpiece
    rcases List.mem_append.mp hpiece with hpiece | hpiece
    · obtain ⟨t, -, rfl⟩ := List.mem_map.mp hpiece
      exact hpart
    · exact ih hrest piece hpiece

end Cutting

section Reassembly

variable (upper : Text → Text)

/-- The stream, read, is the answer. -/
def GeminiStream.ReadsAsWhole (s : GeminiStream) (model : Text) : Prop :=
  ∃ chunks response, ({} : GeminiStreamAssembler).feedAll upper s.chunks = .ok chunks ∧
    geminiResponseToCanonical upper s.whole model = .ok response ∧
    Reassembles s.parts (({} : StreamReading).readAll chunks) response

/-- The last chunk says how the answer ended and what it used, and if the answer ends on `STOP`
with calls, the last chunk has one. -/
structure GeminiStream.EndStated (s : GeminiStream) : Prop where
  reported : reportsUsage s.lastChunk = true
  finished : ∃ reason, s.finishReason = some reason ∧ reason ≠ [] ∧
    (reasonOf upper reason = .stop → (∃ chunk ∈ s.earlier, ∃ part ∈ chunk.parts, part.makesCall) →
      ∃ part ∈ s.last, part.makesCall)

/-! ### Reading a stream -/

/-- What reading the chunks of some parts gathers. -/
structure Gathered (r : StreamReading) (parts : List AnswerPart) : Prop where
  answer : r.answer.flatten = textOf { parts := parts }
  reasoning : r.reasoning.flatten = reasoningOf { parts := parts }
  calls : r.calls = callsOf { parts := parts }
  audio : r.audio = (parts.filterMap audioPiece).foldl joinAudio ⟨[], []⟩

variable {upper} {r : StreamReading} {parts more : List AnswerPart}

/-- One more chunk. -/
theorem Gathered.read (h : Gathered r parts) {chunk : CanonicalChunk}
    (htext : chunk.textDelta = textOf { parts := more })
    (hreasoning : chunk.reasoningDelta = reasoningOf { parts := more })
    (hcalls : chunk.toolCalls = callsOf { parts := more } parts.length)
    (haudio : chunk.audioDelta = audioOf { parts := more }) :
    Gathered ((r.observe chunk).take chunk) (parts ++ more) where
  answer := by simp [StreamReading.observe, StreamReading.take, h.answer, htext, textOf]
  reasoning := by
    have happend : reasoningOf { parts := parts ++ more }
        = reasoningOf { parts := parts } ++ reasoningOf { parts := more } := by simp [reasoningOf]
    rw [happend, ← h.reasoning, ← hreasoning]
    unfold StreamReading.take StreamReading.observe
    split_ifs with hnil <;> simp [hnil]
  calls := by
    rw [callsOf_append, ← h.calls, Nat.zero_add, ← hcalls]
    rfl
  audio := by
    rw [List.filterMap_append, List.foldl_append, ← h.audio, foldl_joinAudio]
    unfold StreamReading.take
    simp only [haudio, audioOf]
    split_ifs with hnil
    · rw [hnil]
      exact joinAudio_empty.symm
    · rfl

variable (upper) in
/-- The chunk of an answer with one candidate. -/
theorem feed_candidate (a : GeminiStreamAssembler) (candidate : Candidate)
    (counts : Option UsageMetadata) :
    ∃ chunk, a.feed upper { candidates := [candidate], usageMetadata := counts }
        = .ok ({ partsSeen := a.partsSeen + candidate.parts.length }, chunk) ∧
      (∀ {r parts}, Gathered r parts → a.partsSeen = parts.length →
        Gathered ((r.observe chunk).take chunk) (parts ++ candidate.parts)) ∧
      chunk.finishReason = (candidate.finishReason.filter (· ≠ [])).map
        (finishOf upper · (callsOf candidate a.partsSeen)) ∧
      chunk.usage = if reportsUsage { usageMetadata := counts } then
        some (usageOf { usageMetadata := counts }) else none := by
  refine ⟨_, rfl, fun h hseen => ?_, rfl, rfl⟩
  exact h.read rfl rfl (by rw [← hseen]; rfl) rfl

variable (upper) in
/-- The chunks before the last gather their parts, and say nothing of the end. -/
theorem feedAll_earlier (earlier : List EarlierChunk)
    (hunreported : ∀ chunk ∈ earlier, reportsUsage chunk.answer = false)
    {a : GeminiStreamAssembler} (h : Gathered r parts) (hseen : a.partsSeen = parts.length) :
    ∃ (front : List CanonicalChunk) (a' : GeminiStreamAssembler),
      (∀ rest, a.feedAll upper (earlier.map (·.answer) ++ rest)
        = (a'.feedAll upper rest).map (front ++ ·)) ∧
      a'.partsSeen = (parts ++ (earlier.map (·.parts)).flatten).length ∧
      Gathered (r.readAll front) (parts ++ (earlier.map (·.parts)).flatten) ∧
      (r.readAll front).finishReason = r.finishReason ∧ (r.readAll front).usage = r.usage := by
  induction earlier generalizing a r parts with
  | nil =>
    refine ⟨[], a, fun rest => ?_, by simpa using hseen,
      by simpa [StreamReading.readAll] using h, rfl, rfl⟩
    simp only [List.map_nil, List.nil_append]
    rcases a.feedAll upper rest with _ | _ <;> rfl
  | cons first earlier ih =>
    obtain ⟨hfirst, hrest⟩ := List.forall_mem_cons.mp hunreported
    obtain ⟨chunk, hfeed, hgather, hfinish, husage⟩ :=
      feed_candidate upper a { parts := first.parts } first.usageMetadata
    rw [show reportsUsage { usageMetadata := first.usageMetadata } = false from hfirst] at husage
    obtain ⟨front, a', hall, hseen', hgathered, hfinish', husage'⟩ :=
      ih hrest (hgather h hseen) (a := { partsSeen := a.partsSeen + first.parts.length })
        (by simp [hseen])
    refine ⟨chunk :: front, a', fun rest => ?_, by simpa using hseen',
      by simpa [StreamReading.readAll] using hgathered, ?_, ?_⟩
    · have hstep : a.feed upper first.answer = _ := hfeed
      rw [List.map_cons, List.cons_append, GeminiStreamAssembler.feedAll, hstep]
      have hcons := hall rest
      simp only [bind, Except.bind]
      rw [hcons]
      rcases a'.feedAll upper rest with _ | _ <;> rfl
    · refine hfinish'.trans ?_
      change chunk.finishReason.or r.finishReason = r.finishReason
      rw [hfinish]
      rfl
    · refine husage'.trans ?_
      change chunk.usage.or r.usage = r.usage
      rw [husage]
      rfl

variable (upper) in
/-- What a stream reads as. -/
theorem feedAll_chunks (s : GeminiStream) :
    ∃ chunks, ({} : GeminiStreamAssembler).feedAll upper s.chunks = .ok chunks ∧
      Gathered (({} : StreamReading).readAll chunks)
        ((s.earlier.map (·.parts)).flatten ++ s.last) ∧
      (({} : StreamReading).readAll chunks).finishReason = (s.finishReason.filter (· ≠ [])).map
        (finishOf upper · (callsOf { parts := s.last }
          (s.earlier.map (·.parts)).flatten.length)) ∧
      (({} : StreamReading).readAll chunks).usage =
        if reportsUsage s.lastChunk then some (usageOf s.lastChunk) else none := by
  have hstart : Gathered {} [] := ⟨rfl, rfl, rfl, rfl⟩
  obtain ⟨front, a, hall, hseen, hgathered, hfinish, husage⟩ :=
    feedAll_earlier upper s.earlier s.unreported hstart (a := {}) rfl
  obtain ⟨chunk, hfeed, hgather, hfinish', husage'⟩ := feed_candidate upper a
    { parts := s.last, finishReason := s.finishReason } s.usageMetadata
  have hlast : a.feedAll upper [s.lastChunk] = .ok [chunk] := by
    have hstep : a.feed upper s.lastChunk = _ := hfeed
    rw [GeminiStreamAssembler.feedAll, hstep]
    rfl
  refine ⟨front ++ [chunk], ?_, ?_, ?_, ?_⟩
  · rw [GeminiStream.chunks, hall, hlast]
    rfl
  · have hread := hgather hgathered hseen
    simpa [StreamReading.readAll] using hread
  · have hread : (({} : StreamReading).readAll (front ++ [chunk])).finishReason =
        chunk.finishReason.or (({} : StreamReading).readAll front).finishReason := by
      simp [StreamReading.readAll, StreamReading.observe, StreamReading.take]
    rw [hread, hfinish, hfinish', hseen, List.nil_append, Option.or_none]
    rfl
  · have hread : (({} : StreamReading).readAll (front ++ [chunk])).usage =
        chunk.usage.or (({} : StreamReading).readAll front).usage := by
      simp [StreamReading.readAll, StreamReading.observe, StreamReading.take]
    rw [hread, husage, husage', Option.or_none]
    rfl

/-- The end is the same with the calls of the last chunk as with all. -/
theorem finishOf_eq_iff {reason : Text} {calls last : List ToolCallPart}
    (hsub : last ≠ [] → calls ≠ []) :
    finishOf upper reason last = finishOf upper reason calls ↔
      (reasonOf upper reason = .stop → calls ≠ [] → last ≠ []) := by
  unfold finishOf
  by_cases hstop : reasonOf upper reason = .stop
  · by_cases hlast : last = []
    · by_cases hcalls : calls = [] <;> simp [hstop, hlast, hcalls]
    · simp [hstop, hlast, hsub hlast]
  · simp [hstop]

/-- An answer calls where a chunk does. -/
theorem GeminiStream.calls_iff (s : GeminiStream) : callsOf { parts := s.parts } ≠ [] ↔
    (∃ chunk ∈ s.earlier, ∃ part ∈ chunk.parts, part.makesCall) ∨
      ∃ part ∈ s.last, part.makesCall := by
  have hlength := (s.cut.calls_eq 0 0).1
  rw [← List.length_pos_iff, ← hlength, List.length_pos_iff, callsOf_ne_nil]
  constructor
  · rintro ⟨part, hpart, hcall⟩
    rcases List.mem_append.mp hpart with hpart | hpart
    · obtain ⟨parts, hparts, hpart⟩ := List.mem_flatten.mp hpart
      obtain ⟨chunk, hchunk, rfl⟩ := List.mem_map.mp hparts
      exact .inl ⟨chunk, hchunk, part, hpart, hcall⟩
    · exact .inr ⟨part, hpart, hcall⟩
  · rintro (⟨chunk, hchunk, part, hpart, hcall⟩ | ⟨part, hpart, hcall⟩)
    · refine ⟨part, List.mem_append_left _ (List.mem_flatten.mpr ⟨chunk.parts, ?_, hpart⟩), hcall⟩
      exact List.mem_map_of_mem hchunk
    · exact ⟨part, List.mem_append_right _ hpart, hcall⟩

/-- The audio of a stream is the audio of its parts. -/
theorem Gathered.spoken (h : Gathered r parts) : r.spoken = audioOf { parts := parts } := by
  have hpieces : ∀ piece ∈ parts.filterMap audioPiece, piece.mediaType ≠ [] := by
    intro piece hpiece
    obtain ⟨part, -, hpart⟩ := List.mem_filterMap.mp hpiece
    exact mediaType_ne_nil hpart
  rw [StreamReading.spoken, h.audio]
  unfold audioOf
  simp only [mediaType_foldl hpieces]

/-- But for its end, a stream always reads as the answer. -/
theorem Gathered.reassembles_iff {pieces : List AnswerPart} (h : Gathered r pieces)
    (hcut : Cut parts pieces) (model : Text) {finish : FinishReason} {usage : CanonicalUsage} :
    Reassembles parts r
        { model
          text := textOf { parts := parts }
          reasoning := reasoningOf { parts := parts }
          finishReason := finish
          usage
          toolCalls := callsOf { parts := parts }
          audio := audioOf { parts := parts } } ↔
      r.finishReason = some finish ∧ r.usage = some usage := by
  constructor
  · intro hr
    exact ⟨hr.finishReason, hr.usage⟩
  · rintro ⟨hfinish, husage⟩
    have hcalls := hcut.calls_eq 0 0
    have haudio : audioOf { parts := pieces } = audioOf { parts := parts } := by
      unfold audioOf
      rw [hcut.audioPieces_eq]
    exact {
      text := h.answer.trans hcut.textOf_eq
      reasoning := h.reasoning.trans hcut.reasoningOf_eq
      audio := h.spoken.trans haudio
      finishReason := hfinish
      usage := husage
      length := by rw [h.calls]; exact hcalls.1
      calls := by rw [h.calls]; exact hcalls.2
      distinct := fun hnone => by
        rw [h.calls]
        exact nodup_ids (hcut.statedId_eq_none hnone) }

/-- **A streamed answer reads as the whole one exactly where the last chunk says how it ended.**
Texts, reasoning, audio and calls are always those of the answer, and made-up ids are distinct. -/
theorem stream_reads_as_whole_iff (s : GeminiStream) (model : Text) :
    s.ReadsAsWhole upper model ↔ s.EndStated upper := by
  obtain ⟨chunks, hchunks, hgathered, hfinish, husage⟩ := feedAll_chunks upper s
  set last := callsOf { parts := s.last } (s.earlier.map (·.parts)).flatten.length with hlast
  have hlast_iff : last ≠ [] ↔ ∃ part ∈ s.last, part.makesCall := callsOf_ne_nil
  have hsub : last ≠ [] → callsOf { parts := s.parts } ≠ [] := fun hne =>
    s.calls_iff.mpr (.inr (hlast_iff.mp hne))
  have hsame : s.ReadsAsWhole upper model ↔
      (({} : StreamReading).readAll chunks).finishReason = some (finishOf upper
          (s.finishReason.getD "STOP") (callsOf { parts := s.parts })) ∧
        (({} : StreamReading).readAll chunks).usage = some (usageOf s.lastChunk) := by
    rw [← hgathered.reassembles_iff s.cut model]
    constructor
    · rintro ⟨chunks', response, hchunks', hresponse, hr⟩
      obtain rfl := Except.ok.inj (hchunks.symm.trans hchunks')
      obtain rfl := Except.ok.inj hresponse
      exact hr
    · intro hr
      exact ⟨chunks, _, hchunks, rfl, hr⟩
  rw [hsame, hfinish, husage]
  constructor
  · rintro ⟨hends, hreports⟩
    obtain ⟨reason, hreason, heq⟩ := Option.map_eq_some_iff.mp hends
    obtain ⟨hstated, hne⟩ := Option.filter_eq_some_iff.mp hreason
    rw [hstated, Option.getD_some, finishOf_eq_iff hsub, s.calls_iff, hlast_iff] at heq
    refine ⟨?_, reason, hstated, by simpa using hne, fun hstop hearlier =>
      heq hstop (.inl hearlier)⟩
    by_contra hnot
    rw [if_neg hnot] at hreports
    cases hreports
  · rintro ⟨hreports, reason, hstated, hne, hends⟩
    refine ⟨?_, if_pos hreports⟩
    have hfilter : s.finishReason.filter (· ≠ []) = some reason :=
      Option.filter_eq_some_iff.mpr ⟨hstated, by simpa using hne⟩
    rw [hfilter, hstated, Option.map_some, Option.getD_some, Option.some.injEq,
      finishOf_eq_iff hsub, s.calls_iff, hlast_iff]
    rintro hstop (hearlier | hlate)
    · exact hends hstop hearlier
    · exact hlate

end Reassembly

/-- A call, and then a last chunk with the end and the usage alone. -/
def callThenStop : GeminiStream :=
  let call : AnswerPart := { functionCall := some { name := some "lookup" } }
  { parts := [call]
    finishReason := some "STOP"
    usageMetadata := some { promptTokenCount := some 5, candidatesTokenCount := some 2 }
    earlier := [{ parts := [call] }]
    last := []
    cut := .keep call .nil
    unreported := by simp [reportsUsage, EarlierChunk.answer] }

/-- **The turn is over for who streams**, and a function is to be run for who does not. -/
theorem calls_before_stop : ¬ callThenStop.ReadsAsWhole id [] := by
  rintro ⟨chunks, response, hchunks, hresponse, h⟩
  have hstop : (({} : GeminiStreamAssembler).feedAll id callThenStop.chunks).map
      (fun chunks => (({} : StreamReading).readAll chunks).finishReason) = .ok (some .stop) := rfl
  have hcalls : (geminiResponseToCanonical id callThenStop.whole []).map (·.finishReason)
      = .ok .toolUse := rfl
  rw [hchunks] at hstop
  rw [hresponse] at hcalls
  have hread : some response.finishReason = some .stop :=
    h.finishReason.symm.trans (Except.ok.inj hstop)
  have hwhole : response.finishReason = .toolUse := Except.ok.inj hcalls
  rw [hwhole] at hread
  cases hread

end AiraGateway.Gemini
