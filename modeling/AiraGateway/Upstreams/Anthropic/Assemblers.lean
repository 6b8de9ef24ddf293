import AiraGateway.Upstreams.Anthropic.Response

/-!
# Two readings of one stream

The chunks of a stream and the message put together from it are two state machines over the same
events. On a well-formed stream (`AnthropicStream`) they are followed side by side:

* **One block** (`StreamAssembler.feedAll_block`, `MessageAssembler.feedAll_block`): what each
  machine makes of a block's start, its deltas and its stop.
* **All blocks**, by induction over them, and then the events around them.
* **The two readings** (`assemblers_agree_iff`): texts, reasoning, calls, envelope and usage always
  agree; the finish reason exactly where the last `message_delta` states a stop reason or the last
  one stated before is a normal end.
-/

namespace AiraGateway

/-! ### Well-formed streams -/

/-- Whether a delta is one of a kind of block. A type of delta that is not read may be on any. -/
def Delta.of : Delta → BlockKind → Prop
  | .text _, kind => kind = .text
  | .thinking _, kind => kind = .thinking
  | .signature _, kind => kind = .thinking
  | .inputJson _, kind => kind = .toolUse
  | .other, _ => True

namespace Delta

def text? : Delta → Option Text
  | text t => some (t.getD [])
  | _ => none

def thought? : Delta → Option Text
  | thinking t => some (t.getD [])
  | _ => none

def fragment? : Delta → Option Text
  | inputJson t => some (t.getD [])
  | _ => none

end Delta

/-- One block of a stream: how it starts and what is added to it before it stops. Texts and
thinking start empty, a call starts with an id and with no arguments. -/
structure StreamedBlock where
  index : ℤ
  start : Block
  deltas : List Delta
  known : start.kind ≠ .other
  own : ∀ delta ∈ deltas, delta.of start.kind
  text_empty : start.kind = .text → start.text.getD [] = []
  thinking_empty : start.kind = .thinking → start.thinking.getD [] = []
  id_ne : start.kind = .toolUse → start.id.getD [] ≠ []
  input_empty : start.kind = .toolUse → start.input = some (.obj [])

namespace StreamedBlock

def events (b : StreamedBlock) : List StreamEvent :=
  .contentBlockStart (some b.index) b.start ::
    (b.deltas.map (.contentBlockDelta (some b.index)) ++ [.contentBlockStop (some b.index)])

/-- The block with its deltas. -/
def held (b : StreamedBlock) : Block := b.deltas.foldl Block.add b.start

/-- The text of the arguments. -/
def fragments (b : StreamedBlock) : Text := (b.deltas.filterMap Delta.fragment?).flatten

/-- The text that was added. -/
def said (b : StreamedBlock) : Text := (b.deltas.filterMap Delta.text?).flatten

/-- The thinking that was added. -/
def thought (b : StreamedBlock) : Text := (b.deltas.filterMap Delta.thought?).flatten

/-- The call a block makes, if it makes one. -/
def call? (b : StreamedBlock) : Option ToolCallPart :=
  if b.start.kind ≠ .toolUse ∨ b.start.name.getD [] = [] then none
  else some
    { id := b.start.id.getD []
      name := b.start.name.getD []
      arguments := readArguments b.fragments }

end StreamedBlock

/-- A well-formed stream: a message that starts, its blocks one after the other, and what is said
of the message before it stops. -/
structure AnthropicStream where
  start : MessageStart
  blocks : List StreamedBlock
  increasing : blocks.Pairwise fun b b' => b.index < b'.index
  deltas : List MessageDelta

def AnthropicStream.events (s : AnthropicStream) : List StreamEvent :=
  .messageStart s.start ::
    (s.blocks.flatMap StreamedBlock.events ++ (s.deltas.map .messageDelta ++ [.messageStop]))

/-! ### The chunks, block by block -/

/-- The texts of chunks, concatenated. -/
def textOf (chunks : List CanonicalChunk) : Text := (chunks.map (·.textDelta)).flatten

/-- The reasoning of chunks, concatenated. -/
def reasoningOf (chunks : List CanonicalChunk) : Text := (chunks.map (·.reasoningDelta)).flatten

@[simp]
theorem textOf_append (chunks chunks' : List CanonicalChunk) :
    textOf (chunks ++ chunks') = textOf chunks ++ textOf chunks' := by
  simp [textOf]

@[simp]
theorem reasoningOf_append (chunks chunks' : List CanonicalChunk) :
    reasoningOf (chunks ++ chunks') = reasoningOf chunks ++ reasoningOf chunks' := by
  simp [reasoningOf]

namespace StreamAssembler

variable {a a' a'' : StreamAssembler} {event : StreamEvent} {events events' : List StreamEvent}
  {chunk : Option CanonicalChunk} {chunks chunks' : List CanonicalChunk}

theorem feedAll_cons (h : a.feed event = .ok (a', chunk))
    (h' : a'.feedAll events = .ok (a'', chunks)) :
    a.feedAll (event :: events) = .ok (a'', chunk.toList ++ chunks) := by
  simp [feedAll, h, h', bind, Except.bind]

theorem feedAll_append (h : a.feedAll events = .ok (a', chunks))
    (h' : a'.feedAll events' = .ok (a'', chunks')) :
    a.feedAll (events ++ events') = .ok (a'', chunks ++ chunks') := by
  induction events generalizing a chunks with
  | nil =>
    obtain ⟨rfl, rfl⟩ : a = a' ∧ [] = chunks := by simpa [feedAll] using h
    exact h'
  | cons event events ih =>
    rw [feedAll] at h
    cases hfeed : a.feed event with
    | error failure => simp [hfeed, bind, Except.bind] at h
    | ok r =>
      cases hrest : r.1.feedAll events with
      | error failure => simp [hfeed, hrest, bind, Except.bind] at h
      | ok r' =>
        obtain ⟨rfl, rfl⟩ : r'.1 = a' ∧ r.2.toList ++ r'.2 = chunks := by
          simpa [hfeed, hrest, bind, Except.bind] using h
        rw [List.append_assoc]
        exact feedAll_cons hfeed (ih hrest)

/-- The open call with a fragment added. -/
private def spell (call : Option OpenCall) (fragment : Text) : Option OpenCall :=
  call.map fun call => { call with arguments := call.arguments ++ fragment }

private theorem spell_nil (call : Option OpenCall) : spell call [] = call := by
  cases call <;> simp [spell]

private theorem spell_append (call : Option OpenCall) (t t' : Text) :
    spell (spell call t) t' = spell call (t ++ t') := by
  cases call <;> simp [spell]

private theorem feedDelta_state (a : StreamAssembler) (delta : Delta) :
    (a.feedDelta delta).1 = { a with openCall := spell a.openCall (delta.fragment?.getD []) } := by
  have hsame := congrArg (fun call => { a with openCall := call }) (spell_nil a.openCall).symm
  cases delta with
  | inputJson t => rfl
  | _ => exact hsame

/-- A delta says its text and, where that is returned, its thinking. -/
private theorem feedDelta_chunk (a : StreamAssembler) (delta : Delta) :
    textOf (a.feedDelta delta).2.toList = delta.text?.getD [] ∧
      reasoningOf (a.feedDelta delta).2.toList =
        if a.includeReasoning then delta.thought?.getD [] else [] := by
  cases delta with
  | text t =>
    by_cases ht : t.getD [] = [] <;>
      simp [feedDelta, Delta.text?, Delta.thought?, textOf, reasoningOf, ht]
  | thinking t =>
    by_cases hwanted : a.includeReasoning = true <;> by_cases ht : t.getD [] = [] <;>
      simp [feedDelta, Delta.text?, Delta.thought?, textOf, reasoningOf, ht, hwanted]
  | _ => simp [feedDelta, Delta.text?, Delta.thought?, textOf, reasoningOf]

private theorem held_last {dict : List (ℤ × Block)} {i : ℤ} {block : Block} {delta : Delta}
    (hblocks : a.blocks = dict ++ [(i, block)]) (hfresh : Fresh dict i) :
    a.held (some i) delta = { a with blocks := dict ++ [(i, block.add delta)] } := by
  simp [held, hblocks, dictGet_last hfresh, dictSet_last hfresh]

/-- The deltas of the last block: it has them all, and their texts are the chunks'. -/
private theorem feedAll_deltas {dict : List (ℤ × Block)} {i : ℤ} (hfresh : Fresh dict i)
    (deltas : List Delta) {a : StreamAssembler} {block : Block}
    (hblocks : a.blocks = dict ++ [(i, block)]) :
    ∃ chunks, a.feedAll (deltas.map (.contentBlockDelta (some i))) =
        .ok ({ a with
          blocks := dict ++ [(i, deltas.foldl Block.add block)]
          openCall := spell a.openCall (deltas.filterMap Delta.fragment?).flatten }, chunks) ∧
      textOf chunks = (deltas.filterMap Delta.text?).flatten ∧
      reasoningOf chunks =
        if a.includeReasoning then (deltas.filterMap Delta.thought?).flatten else [] := by
  induction deltas generalizing a block with
  | nil =>
    refine ⟨[], ?_, rfl, by simp [reasoningOf]⟩
    have hsame : spell a.openCall ([].filterMap Delta.fragment?).flatten = a.openCall :=
      spell_nil a.openCall
    rw [hsame, List.foldl_nil, ← hblocks]
    rfl
  | cons delta deltas ih =>
    obtain ⟨a', ha'⟩ : ∃ a', a' = { a with blocks := dict ++ [(i, block.add delta)] } := ⟨_, rfl⟩
    have hheld : a.held (some i) delta = a' := by rw [ha', held_last hblocks hfresh]
    have hfeed : a.feed (.contentBlockDelta (some i) delta) =
        .ok ((a'.feedDelta delta).1, (a'.feedDelta delta).2) := by rw [feed, hheld]
    have hstate := feedDelta_state a' delta
    have hblocks' : (a'.feedDelta delta).1.blocks = dict ++ [(i, block.add delta)] := by
      rw [hstate, ha']
    obtain ⟨chunks, hrest, htext, hreasoning⟩ := ih hblocks'
    obtain ⟨htext', hreasoning'⟩ := feedDelta_chunk a' delta
    refine ⟨(a'.feedDelta delta).2.toList ++ chunks, ?_, ?_, ?_⟩
    · rw [List.map_cons, feedAll_cons hfeed hrest, hstate, ha']
      simp only [spell_append]
      cases hfragment : delta.fragment? <;> simp [hfragment]
    · rw [textOf_append, htext, htext']
      cases hsaid : delta.text? <;> simp [hsaid]
    · have hwanted : (a'.feedDelta delta).1.includeReasoning = a.includeReasoning := by
        rw [hstate, ha']
      have hwanted' : a'.includeReasoning = a.includeReasoning := by rw [ha']
      rw [reasoningOf_append, hreasoning, hreasoning', hwanted, hwanted']
      cases hthought : delta.thought? <;> split <;> simp [hthought]

/-- **One block of a stream, as chunks**: the block is held with its deltas, the call it makes is
added, and its text and thinking are what the chunks say. -/
theorem feedAll_block (b : StreamedBlock) (hopen : a.openCall = none)
    (hfresh : Fresh a.blocks b.index) :
    ∃ chunks, a.feedAll b.events =
        .ok ({ a with
          blocks := a.blocks ++ [(b.index, b.held)]
          calls := a.calls ++ b.call?.toList }, chunks) ∧
      textOf chunks = b.said ∧
      reasoningOf chunks = if a.includeReasoning then b.thought else [] := by
  obtain ⟨call, hcall⟩ : ∃ call : Option OpenCall, call =
      if b.start.kind = .toolUse then some ⟨b.start.id.getD [], b.start.name.getD [], []⟩
      else none := ⟨_, rfl⟩
  obtain ⟨a', ha'⟩ : ∃ a', a' = { a with
      blocks := a.blocks ++ [(b.index, b.start)], openCall := call } := ⟨_, rfl⟩
  have hstart : a.feed (.contentBlockStart (some b.index) b.start) = .ok (a', none) := by
    by_cases hkind : b.start.kind = .toolUse <;>
      simp [feed, dictSet_of_fresh hfresh, ha', hcall, hkind, hopen]
  obtain ⟨chunks, hdeltas, htext, hreasoning⟩ :=
    feedAll_deltas hfresh b.deltas (show a'.blocks = _ by rw [ha'])
  obtain ⟨a'', ha''⟩ : ∃ a'', a'' = { a with
      blocks := a.blocks ++ [(b.index, b.held)]
      openCall := spell call b.fragments } := ⟨_, rfl⟩
  have hdeltas' : a'.feedAll (b.deltas.map (.contentBlockDelta (some b.index))) =
      .ok (a'', chunks) := by
    rw [hdeltas, ha', ha'']
    rfl
  have hfinish : a''.finishCall = { a with
      blocks := a.blocks ++ [(b.index, b.held)]
      calls := a.calls ++ b.call?.toList } := by
    by_cases hkind : b.start.kind = .toolUse
    · obtain ⟨c, t, hid⟩ := List.exists_cons_of_ne_nil (b.id_ne hkind)
      by_cases hname : b.start.name.getD [] = [] <;>
        simp [finishCall, ha'', hcall, hkind, spell, StreamedBlock.call?, hname, hopen, hid, orText]
    · simp [finishCall, ha'', hcall, hkind, spell, StreamedBlock.call?, hopen]
  have hstop : a''.feedAll [.contentBlockStop (some b.index)] = .ok (a''.finishCall, []) := rfl
  refine ⟨chunks, ?_, htext, ?_⟩
  · rw [StreamedBlock.events, feedAll_cons hstart (feedAll_append hdeltas' hstop), hfinish]
    simp
  · rw [hreasoning, ha']
    rfl

/-- The blocks of a stream, one after the other. -/
theorem feedAll_blocks (blocks : List StreamedBlock) {a : StreamAssembler}
    (hopen : a.openCall = none) (hincreasing : blocks.Pairwise fun b b' => b.index < b'.index)
    (hfresh : ∀ b ∈ blocks, Fresh a.blocks b.index) :
    ∃ chunks, a.feedAll (blocks.flatMap StreamedBlock.events) =
        .ok ({ a with
          blocks := a.blocks ++ blocks.map fun b => (b.index, b.held)
          calls := a.calls ++ blocks.filterMap StreamedBlock.call? }, chunks) ∧
      textOf chunks = (blocks.map StreamedBlock.said).flatten ∧
      reasoningOf chunks =
        if a.includeReasoning then (blocks.map StreamedBlock.thought).flatten else [] := by
  induction blocks generalizing a with
  | nil => exact ⟨[], by simp [feedAll], rfl, by simp [reasoningOf]⟩
  | cons b blocks ih =>
    obtain ⟨hlt, hincreasing⟩ := List.pairwise_cons.mp hincreasing
    obtain ⟨chunks, hblock, htext, hreasoning⟩ :=
      feedAll_block b hopen (hfresh b List.mem_cons_self)
    obtain ⟨a', ha'⟩ : ∃ a', a' = { a with
        blocks := a.blocks ++ [(b.index, b.held)]
        calls := a.calls ++ b.call?.toList } := ⟨_, rfl⟩
    rw [← ha'] at hblock
    have hfresh' : ∀ b' ∈ blocks, Fresh a'.blocks b'.index := by
      intro b' hb' entry hentry
      rw [ha', List.mem_append, List.mem_singleton] at hentry
      rcases hentry with hentry | rfl
      · exact hfresh b' (List.mem_cons_of_mem b hb') entry hentry
      · exact (hlt b' hb').ne
    obtain ⟨chunks', hrest, htext', hreasoning'⟩ := ih (by rw [ha', hopen]) hincreasing hfresh'
    refine ⟨chunks ++ chunks', ?_, ?_, ?_⟩
    · rw [List.flatMap_cons, feedAll_append hblock hrest, ha']
      cases hcall : b.call? <;> simp [hcall]
    · rw [textOf_append, htext, htext', List.map_cons, List.flatten_cons]
    · rw [reasoningOf_append, hreasoning, hreasoning', ha']
      split <;> simp

end StreamAssembler

/-! ### The message, block by block -/

namespace StreamedBlock

/-- The block as the message has it: with the arguments its fragments spell, where there are
any. -/
def whole (b : StreamedBlock) : Block :=
  if b.deltas.filterMap Delta.fragment? = [] then b.held
  else { b.held with input := some (.obj (readArguments b.fragments)) }

end StreamedBlock

namespace MessageAssembler

variable {a a' a'' : MessageAssembler} {event : StreamEvent} {events events' : List StreamEvent}

theorem feedAll_cons (h : a.feed event = .ok a') :
    a.feedAll (event :: events) = a'.feedAll events := by
  simp [feedAll, h, bind, Except.bind]

theorem feedAll_append (h : a.feedAll events = .ok a') :
    a.feedAll (events ++ events') = a'.feedAll events' := by
  induction events generalizing a with
  | nil =>
    obtain rfl : a = a' := by simpa [feedAll] using h
    rfl
  | cons event events ih =>
    rw [feedAll] at h
    cases hfeed : a.feed event with
    | error failure => simp [hfeed, bind, Except.bind] at h
    | ok b =>
      rw [hfeed] at h
      rw [List.cons_append, feedAll_cons hfeed, ih h]

/-- The fragments held of a block after one more delta. -/
private def hold (fragments : Option Text) (delta : Delta) : Option Text :=
  match delta.fragment? with
  | none => fragments
  | some t => some (fragments.getD [] ++ t)

private theorem foldl_hold (deltas : List Delta) (fragments : Option Text) :
    deltas.foldl hold fragments =
      if deltas.filterMap Delta.fragment? = [] then fragments
      else some (fragments.getD [] ++ (deltas.filterMap Delta.fragment?).flatten) := by
  induction deltas generalizing fragments with
  | nil => rfl
  | cons delta deltas ih =>
    rw [List.foldl_cons, ih]
    cases hfragment : delta.fragment? with
    | none => simp [hold, hfragment]
    | some t =>
      by_cases hrest : deltas.filterMap Delta.fragment? = [] <;>
        simp [hold, hfragment, hrest]

/-- One delta of the last block. -/
private theorem delta_last {dict : List (ℤ × Block)} {args : List (ℤ × Text)} {i : ℤ}
    {block : Block} {fragments : Option Text} (delta : Delta)
    (hblocks : a.blocks = dict ++ [(i, block)])
    (harguments : a.arguments = args ++ (fragments.map (i, ·)).toList)
    (hfresh : Fresh dict i) (hfresh' : Fresh args i) :
    a.delta i delta = { a with
      blocks := dict ++ [(i, block.add delta)]
      arguments := args ++ ((hold fragments delta).map (i, ·)).toList } := by
  have hset : dictSet a.blocks i (((dictGet a.blocks i).getD emptyBlock).add delta) =
      dict ++ [(i, block.add delta)] := by
    rw [hblocks, dictGet_last hfresh, Option.getD_some, dictSet_last hfresh]
  cases delta with
  | inputJson t =>
    have hargs : dictSet a.arguments i ((dictGet a.arguments i).getD [] ++ t.getD []) =
        args ++ [(i, fragments.getD [] ++ t.getD [])] := by
      cases fragments with
      | none =>
        obtain harguments : a.arguments = args := by simpa using harguments
        rw [harguments, dictGet_of_fresh hfresh', dictSet_of_fresh hfresh']
      | some held =>
        obtain harguments : a.arguments = args ++ [(i, held)] := by simpa using harguments
        rw [harguments, dictGet_last hfresh', Option.getD_some, dictSet_last hfresh']
    simp [MessageAssembler.delta, hset, hargs, hold, Delta.fragment?]
  | _ => simp [MessageAssembler.delta, hset, hold, Delta.fragment?, harguments]

private theorem feedAll_deltas {dict : List (ℤ × Block)} {args : List (ℤ × Text)} {i : ℤ}
    (hfresh : Fresh dict i) (hfresh' : Fresh args i) (deltas : List Delta)
    {a : MessageAssembler} {block : Block} (fragments : Option Text)
    (hblocks : a.blocks = dict ++ [(i, block)])
    (harguments : a.arguments = args ++ (fragments.map (i, ·)).toList) :
    a.feedAll (deltas.map (.contentBlockDelta (some i))) = .ok { a with
      blocks := dict ++ [(i, deltas.foldl Block.add block)]
      arguments := args ++ ((deltas.foldl hold fragments).map (i, ·)).toList } := by
  induction deltas generalizing a block fragments with
  | nil =>
    rw [List.foldl_nil, List.foldl_nil, ← hblocks, ← harguments]
    rfl
  | cons delta deltas ih =>
    have hfeed : a.feed (.contentBlockDelta (some i) delta) = .ok { a with
        blocks := dict ++ [(i, block.add delta)]
        arguments := args ++ ((hold fragments delta).map (i, ·)).toList } := by
      rw [feed, delta_last delta hblocks harguments hfresh hfresh']
    rw [List.map_cons, feedAll_cons hfeed, ih (hold fragments delta) rfl rfl]
    rfl

/-- **One block of a stream, in the message.** -/
theorem feedAll_block (b : StreamedBlock) (hfresh : Fresh a.blocks b.index)
    (harguments : a.arguments = []) :
    a.feedAll b.events = .ok { a with blocks := a.blocks ++ [(b.index, b.whole)] } := by
  have hstart : a.feed (.contentBlockStart (some b.index) b.start) =
      .ok { a with blocks := a.blocks ++ [(b.index, b.start)] } := by
    rw [feed, dictSet_of_fresh hfresh]
  have hfresh' : Fresh ([] : List (ℤ × Text)) b.index := fun _ h => absurd h List.not_mem_nil
  have hdeltas := feedAll_deltas (a := { a with blocks := a.blocks ++ [(b.index, b.start)] })
    hfresh hfresh' b.deltas none rfl harguments
  rw [StreamedBlock.events, feedAll_cons hstart, feedAll_append hdeltas, feedAll_cons rfl]
  have hheld : b.deltas.foldl Block.add b.start = b.held := rfl
  have hget : ∀ t : Text, dictGet [(b.index, t)] b.index = some t := fun t => by simp [dictGet]
  have hget' : dictGet ([] : List (ℤ × Text)) b.index = none := rfl
  by_cases hnone : b.deltas.filterMap Delta.fragment? = []
  · simp [feedAll, close, foldl_hold, hnone, hget', StreamedBlock.whole, hheld, harguments]
  · simp [feedAll, close, foldl_hold, hnone, dictGet_last hfresh, dictSet_last hfresh, hget,
      dictErase, StreamedBlock.whole, StreamedBlock.fragments, hheld, harguments]

/-- The blocks of a stream, one after the other. -/
theorem feedAll_blocks (blocks : List StreamedBlock) {a : MessageAssembler}
    (harguments : a.arguments = [])
    (hincreasing : blocks.Pairwise fun b b' => b.index < b'.index)
    (hfresh : ∀ b ∈ blocks, Fresh a.blocks b.index) :
    a.feedAll (blocks.flatMap StreamedBlock.events) =
      .ok { a with blocks := a.blocks ++ blocks.map fun b => (b.index, b.whole) } := by
  induction blocks generalizing a with
  | nil => simp [feedAll]
  | cons b blocks ih =>
    obtain ⟨hlt, hincreasing⟩ := List.pairwise_cons.mp hincreasing
    have hblock := feedAll_block b (hfresh b List.mem_cons_self) harguments
    have hfresh' : ∀ b' ∈ blocks, Fresh (a.blocks ++ [(b.index, b.whole)]) b'.index := by
      intro b' hb' entry hentry
      rw [List.mem_append, List.mem_singleton] at hentry
      rcases hentry with hentry | rfl
      · exact hfresh b' (List.mem_cons_of_mem b hb') entry hentry
      · exact (hlt b' hb').ne
    have hrest := ih (a := { a with blocks := a.blocks ++ [(b.index, b.whole)] }) harguments
      hincreasing hfresh'
    rw [List.flatMap_cons, feedAll_append hblock, hrest]
    simp

/-- The last stop reason stated up to here, and the usage so far. -/
theorem feedAll_messageDeltas (deltas : List MessageDelta) {a : MessageAssembler}
    {message : HeldMessage} (hmessage : a.message = some message) :
    a.feedAll (deltas.map .messageDelta) = .ok { a with
      message := some
        { stopReason := deltas.foldl (fun held delta => delta.stopReason.getD held)
            message.stopReason
          usage := deltas.foldl (fun held delta => takeUsage held delta.usage)
            message.usage } } := by
  induction deltas generalizing a message with
  | nil => simp [feedAll, ← hmessage]
  | cons delta deltas ih =>
    have hfeed : a.feed (.messageDelta delta) = .ok { a with
        message := some
          { stopReason := delta.stopReason.getD message.stopReason
            usage := takeUsage message.usage delta.usage } } := by
      simp [feed, hmessage]
    rw [List.map_cons, feedAll_cons hfeed, ih rfl]
    rfl

end MessageAssembler

namespace StreamAssembler

/-- The finish reason of the last `message_delta`, and the usage so far. -/
theorem feedAll_messageDeltas (deltas : List MessageDelta) (a : StreamAssembler) :
    a.feedAll (deltas.map .messageDelta) = .ok ({ a with
      usage := deltas.foldl (fun held delta => takeUsage held delta.usage) a.usage
      finish := deltas.foldl
        (fun _ delta => some (finishReason (delta.stopReason.getD none))) a.finish }, []) := by
  induction deltas generalizing a with
  | nil => rfl
  | cons delta deltas ih =>
    have hfeed : a.feed (.messageDelta delta) = .ok ({ a with
        usage := takeUsage a.usage delta.usage
        finish := some (finishReason (delta.stopReason.getD none)) }, none) := rfl
    exact feedAll_cons hfeed (ih _)

end StreamAssembler

namespace StreamAssembler

/-- The last chunk: how the message ended, what it cost, and its calls, whole. -/
theorem feedAll_stop {a : StreamAssembler} (hopen : a.openCall = none) :
    a.feedAll [.messageStop] = .ok (a, [
      { textDelta := []
        finishReason := some (a.finish.getD .stop)
        usage := some a.running
        toolCalls := withCarried a.calls (sortedBlocks a.blocks) a.includeReasoning a.pfx }]) := by
  have hclosed : a.finishCall = a := by simp [finishCall, hopen]
  simp [feedAll, feed, hclosed, bind, Except.bind]

end StreamAssembler

/-! ### What the blocks say, think and call -/

private theorem Block.foldl_add (deltas : List Delta) (block : Block) :
    (deltas.foldl Block.add block).kind = block.kind ∧
      (deltas.foldl Block.add block).id = block.id ∧
      (deltas.foldl Block.add block).name = block.name ∧
      (deltas.foldl Block.add block).input = block.input ∧
      (deltas.foldl Block.add block).text.getD [] =
        block.text.getD [] ++ (deltas.filterMap Delta.text?).flatten ∧
      (deltas.foldl Block.add block).thinking.getD [] =
        block.thinking.getD [] ++ (deltas.filterMap Delta.thought?).flatten := by
  induction deltas generalizing block with
  | nil => simp
  | cons delta deltas ih =>
    obtain ⟨hkind, hid, hname, hinput, htext, hthinking⟩ := ih (block.add delta)
    rw [List.foldl_cons, hkind, hid, hname, hinput, htext, hthinking]
    cases delta <;> simp [Block.add, Delta.text?, Delta.thought?, List.filterMap_cons]

namespace StreamedBlock

variable (b : StreamedBlock)

/-- The two readings of a block differ in its input alone. -/
private theorem whole_fields : b.whole.kind = b.start.kind ∧ b.whole.text = b.held.text ∧
    b.whole.thinking = b.held.thinking ∧ b.whole.id = b.start.id ∧
    b.whole.name = b.start.name := by
  obtain ⟨hkind, hid, hname, -⟩ := Block.foldl_add b.deltas b.start
  unfold whole
  split <;> exact ⟨hkind, rfl, rfl, hid, hname⟩

/-- A block that is no text has nothing said. -/
private theorem said_eq_nil (h : b.start.kind ≠ .text) : b.said = [] := by
  have hnone : b.deltas.filterMap Delta.text? = [] := by
    rw [List.filterMap_eq_nil_iff]
    intro delta hdelta
    cases delta with
    | text t => exact absurd (b.own _ hdelta) h
    | _ => rfl
  rw [said, hnone, List.flatten_nil]

private theorem thought_eq_nil (h : b.start.kind ≠ .thinking) : b.thought = [] := by
  have hnone : b.deltas.filterMap Delta.thought? = [] := by
    rw [List.filterMap_eq_nil_iff]
    intro delta hdelta
    cases delta with
    | thinking t => exact absurd (b.own _ hdelta) h
    | _ => rfl
  rw [thought, hnone, List.flatten_nil]

/-- What a finished block says is what its deltas said. -/
private theorem text_whole :
    (if b.whole.kind = .text then b.whole.text else none).getD [] = b.said := by
  obtain ⟨hkind, htext, -⟩ := b.whole_fields
  obtain ⟨-, -, -, -, hsaid, -⟩ := Block.foldl_add b.deltas b.start
  rw [hkind, htext]
  by_cases h : b.start.kind = .text
  · rw [if_pos h]
    exact hsaid.trans (by rw [b.text_empty h, List.nil_append]; rfl)
  · rw [if_neg h, b.said_eq_nil h, Option.getD_none]

private theorem thinking_whole :
    (if b.whole.kind = .thinking then b.whole.thinking else none).getD [] = b.thought := by
  obtain ⟨hkind, -, hthinking, -⟩ := b.whole_fields
  obtain ⟨-, -, -, -, -, hthought⟩ := Block.foldl_add b.deltas b.start
  rw [hkind, hthinking]
  by_cases h : b.start.kind = .thinking
  · rw [if_pos h]
    exact hthought.trans (by rw [b.thinking_empty h, List.nil_append]; rfl)
  · rw [if_neg h, b.thought_eq_nil h, Option.getD_none]

/-- The call a finished block makes is the one its fragments spell, wherever it stands. -/
private theorem toolCallOf_whole (index : ℕ) : toolCallOf b.whole index = b.call? := by
  obtain ⟨hkind, -, -, hid, hname⟩ := b.whole_fields
  unfold toolCallOf call?
  simp only [hkind, hname, hid]
  split_ifs with h
  · rfl
  · obtain ⟨htool, -⟩ := not_or.mp h
    have htool : b.start.kind = .toolUse := not_not.mp htool
    obtain ⟨c, t, hc⟩ := List.exists_cons_of_ne_nil (b.id_ne htool)
    have hinput : argumentsOf b.whole.input = readArguments b.fragments := by
      unfold whole
      split_ifs with hnone
      · obtain ⟨-, -, -, hinput, -⟩ := Block.foldl_add b.deltas b.start
        have hheld : b.held.input = some (.obj []) := hinput.trans (b.input_empty htool)
        rw [hheld, fragments, hnone]
        rfl
      · rfl
    have hid' : ∀ default, orText b.start.id default = b.start.id.getD [] := by
      intro default
      cases hstart : b.start.id with
      | none => simp [hstart] at hc
      | some id =>
        obtain rfl : id = c :: t := by simpa [hstart] using hc
        rfl
    rw [hinput, hid']

/-- An envelope does not keep a block's input. -/
private theorem layoutEntry_whole (includeReasoning : Bool) :
    layoutEntry includeReasoning b.whole = layoutEntry includeReasoning b.held := by
  unfold whole
  split <;> rfl

end StreamedBlock

private theorem flatten_filterMap {α : Type} (f : α → Option Text) (xs : List α) :
    (xs.filterMap f).flatten = (xs.map fun x => (f x).getD []).flatten := by
  induction xs with
  | nil => rfl
  | cons x xs ih => cases h : f x <;> simp [h, ih]

variable (blocks : List StreamedBlock)

theorem answerText_whole :
    answerText (blocks.map StreamedBlock.whole) = (blocks.map StreamedBlock.said).flatten := by
  rw [answerText, blocksText, flatten_filterMap, List.map_map]
  exact congrArg List.flatten (List.map_congr_left fun b _ => b.text_whole)

theorem reasoningText_whole (wanted : Bool) :
    reasoningText (blocks.map StreamedBlock.whole) wanted =
      if wanted then (blocks.map StreamedBlock.thought).flatten else [] := by
  rw [reasoningText, flatten_filterMap, List.map_map]
  exact congrArg (fun t => if wanted then t else [])
    (congrArg List.flatten (List.map_congr_left fun b _ => b.thinking_whole))

theorem toolCallsOf_whole :
    toolCallsOf (blocks.map StreamedBlock.whole) = blocks.filterMap StreamedBlock.call? := by
  have hzip : ∀ n, ((blocks.map StreamedBlock.whole).zipIdx n).filterMap
      (fun entry => toolCallOf entry.1 entry.2) = blocks.filterMap StreamedBlock.call? := by
    induction blocks with
    | nil => exact fun _ => rfl
    | cons b blocks ih =>
      intro n
      simp only [List.map_cons, List.zipIdx_cons, List.filterMap_cons, b.toolCallOf_whole, ih]
  exact hzip 0

theorem carried_whole (includeReasoning : Bool) (pfx : Option Text) :
    carried (blocks.map StreamedBlock.whole) includeReasoning pfx =
      carried (blocks.map StreamedBlock.held) includeReasoning pfx := by
  have hlayout : (blocks.map StreamedBlock.whole).mapM (layoutEntry includeReasoning) =
      (blocks.map StreamedBlock.held).mapM (layoutEntry includeReasoning) := by
    induction blocks with
    | nil => rfl
    | cons b blocks ih =>
      rw [List.map_cons, List.map_cons, List.mapM_cons, List.mapM_cons, ih, b.layoutEntry_whole]
  rw [carried, carried, hlayout]

/-! ### The whole stream -/

private theorem sortedBlocks_of_increasing {blocks : List StreamedBlock} (f : StreamedBlock → Block)
    (h : blocks.Pairwise fun b b' => b.index < b'.index) :
    sortedBlocks (blocks.map fun b => (b.index, f b)) = blocks.map f := by
  have hsorted : (blocks.map fun b => (b.index, f b)).Pairwise fun x y => x.1 ≤ y.1 := by
    rw [List.pairwise_map]
    exact h.imp fun hlt => hlt.le
  rw [sortedBlocks, hsorted.insertionSort_eq, List.map_map]
  rfl

/-- What a caller reads of an answer, streamed or not. -/
structure AnswerRead where
  text : Text
  reasoning : Text
  toolCalls : List ToolCallPart
  finishReason : FinishReason
  usage : CanonicalUsage
  deriving DecidableEq

/-- The chunks of a stream read as one answer: the texts and the reasoning of all of them, and
what the last one states. -/
def readChunks (chunks : List CanonicalChunk) : Option AnswerRead := do
  let last ← chunks.getLast?
  let finishReason ← last.finishReason
  let usage ← last.usage
  some
    { text := textOf chunks
      reasoning := reasoningOf chunks
      toolCalls := last.toolCalls
      finishReason
      usage }

def CanonicalResponse.read (response : CanonicalResponse) : AnswerRead where
  text := response.text
  reasoning := response.reasoning
  toolCalls := response.toolCalls
  finishReason := response.finishReason
  usage := response.usage

/-- The chunks of a stream, read; nothing where it failed. -/
def AnthropicStream.readAsChunks (s : AnthropicStream) (includeReasoning : Bool)
    (pfx : Option Text) : Option AnswerRead :=
  match ({ includeReasoning, pfx } : StreamAssembler).feedAll s.events with
  | .ok (_, chunks) => readChunks chunks
  | .error _ => none

/-- The message of a stream, read as an answer that was not streamed is. -/
def AnthropicStream.readAsMessage (s : AnthropicStream) (model : Text) (includeReasoning : Bool)
    (pfx : Option Text) : Option AnswerRead :=
  match ({} : MessageAssembler).feedAll s.events with
  | .ok a =>
    match a.result with
    | .ok message => some (anthropicToCanonical message model false includeReasoning pfx).read
    | .error _ => none
  | .error _ => none

namespace AnthropicStream

variable (s : AnthropicStream) (includeReasoning : Bool) (pfx : Option Text)

/-- The running totals at the end. -/
private def usage : List (Text × Json) :=
  s.deltas.foldl (fun held delta => takeUsage held delta.usage) (takeUsage [] s.start.usage)

/-- What both readings make of a stream, up to the finish reason. -/
private def answer (finishReason : FinishReason) : AnswerRead where
  text := (s.blocks.map StreamedBlock.said).flatten
  reasoning := if includeReasoning then (s.blocks.map StreamedBlock.thought).flatten else []
  toolCalls := withCarried (s.blocks.filterMap StreamedBlock.call?)
    (s.blocks.map StreamedBlock.held) includeReasoning pfx
  finishReason
  usage := usageOf (.obj s.usage)

private theorem foldl_last (f : MessageDelta → FinishReason) (deltas : List MessageDelta)
    (finish : Option FinishReason) :
    deltas.foldl (fun _ delta => some (f delta)) finish =
      (deltas.getLast?.map f).or finish := by
  induction deltas generalizing finish with
  | nil => rfl
  | cons delta deltas ih =>
    rw [List.foldl_cons, ih, List.getLast?_cons]
    cases deltas.getLast? <;> simp

/-- The chunks' finish reason is the last `message_delta`'s, stated or not. -/
theorem readAsChunks_eq : s.readAsChunks includeReasoning pfx =
    some (s.answer includeReasoning pfx
      (finishReason ((s.deltas.getLast?.bind (·.stopReason)).getD none))) := by
  obtain ⟨a, ha⟩ : ∃ a : StreamAssembler,
      a = { includeReasoning, pfx, usage := takeUsage [] s.start.usage } := ⟨_, rfl⟩
  have hstart : ({ includeReasoning, pfx } : StreamAssembler).feed (.messageStart s.start) =
      .ok (a, none) := by
    rw [ha]
    rfl
  have hfresh : ∀ b ∈ s.blocks, Fresh a.blocks b.index := by
    intro b _ entry hentry
    rw [ha] at hentry
    exact absurd hentry List.not_mem_nil
  obtain ⟨chunks, hblocks, htext, hreasoning⟩ :=
    StreamAssembler.feedAll_blocks s.blocks (show a.openCall = none by rw [ha]) s.increasing hfresh
  have hdeltas := StreamAssembler.feedAll_messageDeltas s.deltas { a with
    blocks := a.blocks ++ s.blocks.map fun b => (b.index, b.held)
    calls := a.calls ++ s.blocks.filterMap StreamedBlock.call? }
  have hall := StreamAssembler.feedAll_cons hstart (StreamAssembler.feedAll_append hblocks
    (StreamAssembler.feedAll_append hdeltas
      (StreamAssembler.feedAll_stop (show a.openCall = none by rw [ha]))))
  have hfinish : (s.deltas.foldl
      (fun _ delta => some (finishReason (delta.stopReason.getD none))) none).getD .stop =
      finishReason ((s.deltas.getLast?.bind (·.stopReason)).getD none) := by
    rw [foldl_last]
    cases s.deltas.getLast? <;> rfl
  rw [readAsChunks, AnthropicStream.events, hall]
  subst ha
  simp only [List.nil_append, hfinish, sortedBlocks_of_increasing StreamedBlock.held s.increasing]
  simp [readChunks, htext, hreasoning, answer, usage, StreamAssembler.running]
  exact ⟨rfl, rfl⟩

/-- The message's finish reason is the last one stated. -/
theorem readAsMessage_eq (model : Text) : s.readAsMessage model includeReasoning pfx =
    some (s.answer includeReasoning pfx
      (finishReason (s.deltas.foldl (fun held delta => delta.stopReason.getD held)
        (s.start.stopReason.getD none)))) := by
  have hstart : ({} : MessageAssembler).feed (.messageStart s.start) = .ok
      { message := some
          { stopReason := s.start.stopReason.getD none, usage := takeUsage [] s.start.usage } } :=
    rfl
  have hblocks := MessageAssembler.feedAll_blocks s.blocks (a :=
      { message := some
          { stopReason := s.start.stopReason.getD none, usage := takeUsage [] s.start.usage } })
    rfl s.increasing fun _ _ entry hentry => absurd hentry List.not_mem_nil
  rw [readAsMessage, AnthropicStream.events, MessageAssembler.feedAll_cons hstart,
    MessageAssembler.feedAll_append hblocks,
    MessageAssembler.feedAll_append (MessageAssembler.feedAll_messageDeltas s.deltas rfl),
    MessageAssembler.feedAll_cons rfl]
  have hcalls : ∀ calls, withCarried calls (s.blocks.map StreamedBlock.whole) includeReasoning pfx =
      withCarried calls (s.blocks.map StreamedBlock.held) includeReasoning pfx := by
    intro calls
    cases calls <;> simp [withCarried, carried_whole]
  simp only [MessageAssembler.feedAll, MessageAssembler.result, List.nil_append, if_true,
    sortedBlocks_of_increasing StreamedBlock.whole s.increasing]
  simp [anthropicToCanonical, CanonicalResponse.read, answer, usage, answerText_whole,
    reasoningText_whole, toolCallsOf_whole, hcalls]

/-- The stop reasons that are a normal end; null is one. -/
def normalEnds : List (Option Text) := [none, some "end_turn", some "stop_sequence"]

/-- The last stop reason a stream states: in a `message_delta`, or else where the message
starts. -/
def lastStated : Option Text :=
  (s.deltas.filterMap (·.stopReason)).getLast?.getD (s.start.stopReason.getD none)

/-- Whether the last `message_delta` states a stop reason, or the last one stated is a normal
end. -/
def FinishStated : Prop :=
  (∃ delta, s.deltas.getLast? = some delta ∧ delta.stopReason ≠ none) ∨
    s.lastStated ∈ normalEnds

private theorem foldl_stopReason (deltas : List MessageDelta) (held : Option Text) :
    deltas.foldl (fun held delta => delta.stopReason.getD held) held =
      (deltas.filterMap (·.stopReason)).getLast?.getD held := by
  induction deltas generalizing held with
  | nil => rfl
  | cons delta deltas ih =>
    rw [List.foldl_cons, ih, List.filterMap_cons]
    cases delta.stopReason with
    | none => rfl
    | some reason =>
      rw [List.getLast?_cons, Option.getD_some]
      rfl

end AnthropicStream

private theorem finishReason_eq_stop_iff {reason : Option Text} :
    finishReason reason = .stop ↔ reason ∈ AnthropicStream.normalEnds := by
  cases reason with
  | none => decide
  | some reason =>
    by_cases hknown : reason ∈ stopReasons.map (·.1)
    · simp only [stopReasons, List.map_cons, List.map_nil, List.mem_cons, List.not_mem_nil,
        or_false] at hknown
      rcases hknown with rfl | rfl | rfl | rfl | rfl | rfl <;> decide
    · have hfresh : Fresh stopReasons reason := by
        intro entry hentry heq
        exact hknown (heq ▸ List.mem_map_of_mem hentry)
      have hother : finishReason (some reason) = .other := by
        rw [finishReason, dictGet_of_fresh hfresh, Option.getD_none]
      have hends : some reason ∉ AnthropicStream.normalEnds := by
        simp only [AnthropicStream.normalEnds, List.mem_cons, List.not_mem_nil, or_false,
          Option.some.injEq, reduceCtorEq, false_or]
        rintro (rfl | rfl) <;> exact hknown (by decide)
      rw [hother]
      exact ⟨fun h => absurd h (by decide), fun h => absurd h hends⟩

/-- What the last `message_delta` states is what was stated last. -/
private theorem AnthropicStream.lastStated_of_last {s : AnthropicStream} {delta : MessageDelta}
    {reason : Option Text} (hlast : s.deltas.getLast? = some delta)
    (hreason : delta.stopReason = some reason) : s.lastStated = reason := by
  obtain ⟨deltas, hdeltas⟩ := List.getLast?_eq_some_iff.mp hlast
  rw [AnthropicStream.lastStated, hdeltas, List.filterMap_append, List.filterMap_cons, hreason]
  simp

/-- **The two readings of a stream agree exactly where its finish is stated.** On every
well-formed stream both readings are whole, and texts, reasoning, calls with their envelope and
usage are the same; so is the finish reason, unless the last `message_delta` states none after one
that is no normal end. -/
theorem assemblers_agree_iff (s : AnthropicStream) (model : Text) (includeReasoning : Bool)
    (pfx : Option Text) :
    (∃ answer, s.readAsChunks includeReasoning pfx = some answer ∧
      s.readAsMessage model includeReasoning pfx = some answer) ↔ s.FinishStated := by
  rw [s.readAsChunks_eq, s.readAsMessage_eq, AnthropicStream.foldl_stopReason]
  have hsame : (∃ answer, some (s.answer includeReasoning pfx
        (finishReason ((s.deltas.getLast?.bind (·.stopReason)).getD none))) = some answer ∧
      some (s.answer includeReasoning pfx (finishReason s.lastStated)) = some answer) ↔
      finishReason ((s.deltas.getLast?.bind (·.stopReason)).getD none) =
        finishReason s.lastStated := by
    constructor
    · rintro ⟨answer, hchunks, hmessage⟩
      exact congrArg AnswerRead.finishReason (Option.some.inj (hchunks.trans hmessage.symm))
    · intro h
      exact ⟨_, rfl, by rw [h]⟩
  refine hsame.trans ?_
  unfold AnthropicStream.FinishStated
  cases hlast : s.deltas.getLast? with
  | none =>
    rw [Option.bind_none, Option.getD_none, ← finishReason_eq_stop_iff]
    simp [finishReason, eq_comm]
  | some delta =>
    rw [Option.bind_some]
    cases hreason : delta.stopReason with
    | none =>
      rw [Option.getD_none, ← finishReason_eq_stop_iff]
      simp [finishReason, hreason, eq_comm]
    | some reason =>
      rw [AnthropicStream.lastStated_of_last hlast hreason]
      simp [hreason]

/-- A stream that says it was cut off at the output cap and then only what it cost. -/
def cappedStream : AnthropicStream where
  start := { stopReason := some none }
  blocks := [
    { index := 0
      start := { kind := .text, text := some [] }
      deltas := [.text (some "The answer is")]
      known := by decide
      own := fun delta h => by rw [List.mem_singleton.mp h]; rfl
      text_empty := fun _ => rfl
      thinking_empty := fun _ => rfl
      id_ne := fun h => absurd h (by decide)
      input_empty := fun h => absurd h (by decide) }]
  increasing := List.pairwise_singleton _ _
  deltas := [{ stopReason := some (some "max_tokens") },
    { usage := some (.obj [("output_tokens", .int 5)]) }]

/-- The streamed reading of it is a normal end. -/
theorem assemblers_differ_on_cap :
    (cappedStream.readAsChunks false none).map (·.finishReason) = some .stop ∧
      (cappedStream.readAsMessage [] false none).map (·.finishReason) = some .maxTokens := by
  decide

end AiraGateway
