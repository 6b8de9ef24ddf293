import AiraGateway.Upstreams.Anthropic.Request

/-!
# Cache markers

A request that opted into caching carries up to four markers: on the system prompt, on the last
tool, on the last block of the conversation that takes one and on the last one before the turn in
progress. The API refuses a marker on thinking and on blank text, and one on a result whose content
is blank marks nothing.

* **What caching changes** (`wellMarked_of_body`): markers, at most four and where they are taken,
  and the form of the system prompt. Blocks that are given back count as they come: without a
  marker, and with no blank text (`ContentBlock.Plain`).
-/

namespace AiraGateway.Anthropic

/-! ### A body without its markers, and how many it has -/

def ContentBlock.unmarked (block : ContentBlock) : ContentBlock :=
  { block with cacheControl := none }

def WireMessage.unmarked (message : WireMessage) : WireMessage :=
  { message with content := message.content.map ContentBlock.unmarked }

def Tool.unmarked (tool : Tool) : Tool := { tool with cacheControl := none }

/-- The body without its markers. The system prompt is then the text itself. -/
def Body.unmarked (body : Body) : Body :=
  { body with
    messages := body.messages.map WireMessage.unmarked
    system := body.system.map fun system => { system with cacheControl := none }
    tools := body.tools.map fun tools => tools.map Tool.unmarked }

def ContentBlock.markers (block : ContentBlock) : ℕ := if block.cacheControl.isSome then 1 else 0

def WireMessage.markers (message : WireMessage) : ℕ :=
  (message.content.map ContentBlock.markers).sum

def Tool.markers (tool : Tool) : ℕ := if tool.cacheControl.isSome then 1 else 0

def SystemPrompt.markers (system : SystemPrompt) : ℕ := if system.cacheControl.isSome then 1 else 0

/-- How many markers a body carries. -/
def Body.markers (body : Body) : ℕ :=
  (body.system.map SystemPrompt.markers).getD 0 +
    (body.tools.map fun tools => (tools.map Tool.markers).sum).getD 0 +
    (body.messages.map WireMessage.markers).sum

/-- What the API takes a marker on: no thinking, no blank text and no result whose content is a
blank text. -/
def BlockContent.TakesMarker : BlockContent → Prop
  | .thinking .. | .redactedThinking _ => False
  | .text t => strip t ≠ []
  | .toolResult ⟨_, .text t⟩ => strip t ≠ []
  | _ => True

/-- At most four markers, each on something the API takes one on. -/
structure Body.WellMarked (body : Body) : Prop where
  four : body.markers ≤ 4
  system : ∀ system ∈ body.system, system.cacheControl ≠ none → strip system.text ≠ []
  blocks : ∀ message ∈ body.messages, ∀ block ∈ message.content, block.cacheControl ≠ none →
    block.content.TakesMarker

/-! ### Where markers stand -/

/-- A block as it is before anything is marked: without a marker, and no blank text. -/
def ContentBlock.Plain (block : ContentBlock) : Prop :=
  block.cacheControl = none ∧ ∀ t, block.content = .text t → strip t ≠ []

/-- A block whose marker, where it has one, is on something that takes one; and no blank text. -/
def ContentBlock.Sound (block : ContentBlock) : Prop :=
  (block.cacheControl ≠ none → block.content.TakesMarker) ∧
    ∀ t, block.content = .text t → strip t ≠ []

private theorem ContentBlock.Plain.sound {block : ContentBlock} (h : block.Plain) : block.Sound :=
  ⟨fun hmarked => absurd h.1 hmarked, h.2⟩

private theorem ContentBlock.Sound.mark {control : CacheControl} {block block' : ContentBlock}
    (h : block.Sound) (hmark : markBlock control block = some block') : block'.Sound := by
  rw [markBlock] at hmark
  split_ifs at hmark with hcan
  obtain rfl := Option.some.inj hmark
  refine ⟨fun _ => ?_, h.2⟩
  obtain ⟨content, cacheControl⟩ := block
  cases content with
  | text t => exact h.2 t rfl
  | toolUse call => trivial
  | media block => trivial
  | thinking t signature => exact absurd hcan Bool.false_ne_true
  | redactedThinking data => exact absurd hcan Bool.false_ne_true
  | toolResult result =>
    obtain ⟨id, content⟩ := result
    cases content with
    | text t =>
      have hsays : decide (strip t ≠ []) = true := hcan
      have hsays := of_decide_eq_true hsays
      exact hsays
    | blocks t media => trivial

/-- A message all of whose blocks are sound. -/
def WireMessage.Sound (message : WireMessage) : Prop := ∀ block ∈ message.content, block.Sound

private theorem markMessage_spec {control : CacheControl} {message message' : WireMessage}
    (h : markMessage control message = some message') :
    message'.unmarked = message.unmarked ∧ message'.markers ≤ message.markers + 1 ∧
      (message.Sound → message'.Sound) := by
  obtain ⟨content, hcontent, rfl⟩ := Option.map_eq_some_iff.mp h
  obtain ⟨before, block, block', after, hblocks, hblock, rfl⟩ := updateLast_eq_some hcontent
  have hmarked := hblock
  rw [markBlock] at hmarked
  split_ifs at hmarked with hcan
  have hblock' := Option.some.inj hmarked
  refine ⟨?_, ?_, fun hsound => ?_⟩
  · simp [WireMessage.unmarked, hblocks, ← hblock', ContentBlock.unmarked]
  · have hone : block'.markers = 1 := by
      rw [← hblock']
      rfl
    simp only [WireMessage.markers, hblocks, List.map_append, List.map_cons, List.sum_append,
      List.sum_cons, hone]
    omega
  · have hblocks' : ∀ b ∈ before ++ block :: after, b.Sound := hblocks ▸ hsound
    rw [List.forall_mem_append, List.forall_mem_cons] at hblocks'
    exact List.forall_mem_append.mpr ⟨hblocks'.1, List.forall_mem_cons.mpr
      ⟨hblocks'.2.1.mark hblock, hblocks'.2.2⟩⟩

private def markersOf (messages : List WireMessage) : ℕ := (messages.map WireMessage.markers).sum

private theorem markersOf_append (before after : List WireMessage) :
    markersOf (before ++ after) = markersOf before + markersOf after := by
  rw [markersOf, List.map_append, List.sum_append, markersOf, markersOf]

private theorem markLastBlock_spec (control : CacheControl) (messages : List WireMessage) :
    markersOf (markLastBlock control messages) ≤ markersOf messages + 1 ∧
      ((∀ m ∈ messages, m.Sound) → ∀ m ∈ markLastBlock control messages, m.Sound) := by
  rw [markLastBlock]
  cases h : updateLast (markMessage control) messages with
  | none => exact ⟨Nat.le_succ _, id⟩
  | some messages' =>
    obtain ⟨before, message, message', after, rfl, hmessage, rfl⟩ := updateLast_eq_some h
    obtain ⟨-, hmarkers, hsound⟩ := markMessage_spec hmessage
    refine ⟨?_, fun hall => ?_⟩
    · simp only [markersOf, Option.getD_some, List.map_append, List.map_cons, List.sum_append,
        List.sum_cons]
      omega
    · rw [List.forall_mem_append, List.forall_mem_cons] at hall
      exact List.forall_mem_append.mpr
        ⟨hall.1, List.forall_mem_cons.mpr ⟨hsound hall.2.1, hall.2.2⟩⟩

/-- **The two breakpoints** of a conversation: two markers at most, each where one is taken. -/
private theorem markConversation_spec (control : CacheControl) (turns : List WireTurn)
    (hsound : ∀ turn ∈ turns, turn.message.Sound) :
    markersOf (markConversation control turns) ≤ markersOf (turns.map (·.message)) + 2 ∧
      ∀ m ∈ markConversation control turns, m.Sound := by
  have hmessages : ∀ m ∈ turns.map (·.message), m.Sound := by
    rw [List.forall_mem_map]
    exact hsound
  obtain ⟨hmarkers, hlast⟩ := markLastBlock_spec control (turns.map (·.message))
  have hlast := hlast hmessages
  simp only [markConversation]
  split
  · exact ⟨by omega, hlast⟩
  · rename_i start _
    obtain ⟨hearlier, hstart⟩ := markLastBlock_spec control
      ((markLastBlock control (turns.map (·.message))).take (start + 1))
    have hstart := hstart fun m hm => hlast m (List.mem_of_mem_take hm)
    have hsplit : markersOf (markLastBlock control (turns.map (·.message))) =
        markersOf ((markLastBlock control (turns.map (·.message))).take (start + 1)) +
          markersOf ((markLastBlock control (turns.map (·.message))).drop (start + 1)) := by
      rw [← markersOf_append, List.take_append_drop]
    refine ⟨?_, List.forall_mem_append.mpr ⟨hstart, fun m hm => hlast m (List.mem_of_mem_drop hm)⟩⟩
    rw [markersOf_append]
    omega

/-! ### What stands in a body before it is marked -/

private theorem plain_contentBlocks {parts : List CanonicalPart} {blocks : List ContentBlock}
    (h : contentBlocks parts = .ok blocks) : ∀ block ∈ blocks, block.Plain := by
  induction parts generalizing blocks with
  | nil =>
    cases h
    simp
  | cons part rest ih =>
    cases part with
    | text t =>
      obtain ⟨blocks, hblocks, h⟩ := bind_eq_ok_iff.mp h
      cases h
      split_ifs with hblank
      · exact ih hblocks
      · refine List.forall_mem_cons.mpr ⟨⟨rfl, fun t' ht' => ?_⟩, ih hblocks⟩
        obtain rfl : t = t' := BlockContent.text.inj ht'
        exact hblank
    | toolCall call =>
      obtain ⟨blocks, hblocks, h⟩ := bind_eq_ok_iff.mp h
      cases h
      exact List.forall_mem_cons.mpr ⟨⟨rfl, fun _ ht => nomatch ht⟩, ih hblocks⟩
    | toolResult result =>
      obtain ⟨content, -, h⟩ := bind_eq_ok_iff.mp h
      obtain ⟨blocks, hblocks, h⟩ := bind_eq_ok_iff.mp h
      cases h
      exact List.forall_mem_cons.mpr ⟨⟨rfl, fun _ ht => nomatch ht⟩, ih hblocks⟩
    | data part =>
      obtain ⟨block, -, h⟩ := bind_eq_ok_iff.mp h
      obtain ⟨blocks, hblocks, h⟩ := bind_eq_ok_iff.mp h
      cases h
      exact List.forall_mem_cons.mpr ⟨⟨rfl, fun _ ht => nomatch ht⟩, ih hblocks⟩

/-- Nothing in a conversation's turns is marked, and no text is blank. -/
private theorem plain_wireTurns {given : Given} {conversation : List CanonicalMessage}
    {turns : List WireTurn}
    (hgiven : ∀ index message blocks, given index message = some blocks →
      ∀ block ∈ blocks, block.Plain)
    (h : wireTurns given conversation = .ok turns) :
    ∀ turn ∈ turns, ∀ block ∈ turn.message.content, block.Plain := by
  obtain ⟨stretches, hstretches, h⟩ := bind_eq_ok_iff.mp h
  cases h
  intro turn hturn
  obtain ⟨stretch, hstretch, hmem⟩ := List.mem_flatten.mp hturn
  obtain ⟨⟨message, index⟩, -, hwire⟩ := (mem_of_mapM_eq_ok hstretches).mp hstretch
  have hwire : wireTurn (given index message) message = .ok stretch := hwire
  rw [wireTurn] at hwire
  split_ifs at hwire
  · cases hwire
    exact absurd hmem List.not_mem_nil
  obtain ⟨blocks, hblocks, hwire⟩ := bind_eq_ok_iff.mp hwire
  have hplain : ∀ block ∈ blocks, block.Plain := by
    cases hback : given index message with
    | some sent =>
      rw [hback] at hblocks
      cases hblocks
      exact hgiven index message _ hback
    | none =>
      rw [hback] at hblocks
      exact plain_contentBlocks hblocks
  cases hwire
  split_ifs at hmem with hnone
  · exact absurd hmem List.not_mem_nil
  · rw [List.mem_singleton.mp hmem]
    exact hplain

/-! ### The body -/

/-- What a body holds, where there is one. -/
theorem anthropicBodyWith_eq_ok {given : Given} {request : CanonicalRequest}
    {maxTokens : ℤ} {body : Body} (h : anthropicBodyWith given request maxTokens = .ok body) :
    ∃ turns, wireTurns given (pairedToolResults request.messages) = .ok turns ∧
      body.messages = (if request.cachePrefix then markConversation (cacheControl request) turns
        else turns.map (·.message)) ∧
      body.system = systemPrompt request (systemText (pairedToolResults request.messages)) ∧
      body.tools = (if request.tools = [] then none else some (wireTools request)) ∧
      anthropicBodyWith given { request with cachePrefix := false } maxTokens = .ok
        { body with
          messages := turns.map (·.message)
          system := systemPrompt { request with cachePrefix := false }
            (systemText (pairedToolResults request.messages))
          tools := if request.tools = [] then none
            else some (wireTools { request with cachePrefix := false }) } := by
  obtain ⟨turns, hturns, h⟩ := bind_eq_ok_iff.mp h
  obtain ⟨u, hu, h⟩ := bind_eq_ok_iff.mp h
  obtain ⟨fields, hfields, h⟩ := bind_eq_ok_iff.mp h
  obtain ⟨choice, hchoice, h⟩ := bind_eq_ok_iff.mp h
  cases h
  refine ⟨turns, hturns, rfl, rfl, rfl, ?_⟩
  exact bind_eq_ok_iff.mpr ⟨turns, hturns, bind_eq_ok_iff.mpr ⟨u, hu,
    bind_eq_ok_iff.mpr ⟨fields, hfields, bind_eq_ok_iff.mpr ⟨choice, hchoice, rfl⟩⟩⟩⟩

private theorem unmarked_of_plain {message : WireMessage}
    (h : ∀ block ∈ message.content, block.Plain) : message.unmarked = message := by
  obtain ⟨role, content⟩ := message
  have hsame : content.map ContentBlock.unmarked = content := by
    conv_rhs => rw [← List.map_id content]
    refine List.map_congr_left fun block hblock => ?_
    obtain ⟨blockContent, cacheControl⟩ := block
    obtain rfl : cacheControl = none := (h _ hblock).1
    rfl
  rw [WireMessage.unmarked, hsame]

private theorem markers_of_plain {message : WireMessage}
    (h : ∀ block ∈ message.content, block.Plain) : message.markers = 0 := by
  refine List.sum_eq_zero fun n hn => ?_
  obtain ⟨block, hblock, rfl⟩ := List.mem_map.mp hn
  rw [ContentBlock.markers, (h block hblock).1]
  rfl

/-- The tools with the last one marked, or with none. -/
private theorem wireTools_spec (request : CanonicalRequest) :
    ((wireTools request).map Tool.markers).sum ≤ 1 ∧
      (wireTools request).map Tool.unmarked = wireTools { request with cachePrefix := false } := by
  have hplain : wireTools { request with cachePrefix := false } =
      (offered request).map fun declaration => { declaration := declaration } := rfl
  have hunmarked : ∀ declarations : List ToolDeclaration,
      (declarations.map fun declaration => ({ declaration := declaration } : Tool)).map
        Tool.unmarked = declarations.map fun declaration => { declaration := declaration } := by
    intro declarations
    rw [List.map_map]
    rfl
  have hnone : ∀ declarations : List ToolDeclaration,
      ((declarations.map fun declaration => ({ declaration := declaration } : Tool)).map
        Tool.markers).sum = 0 := by
    intro declarations
    refine List.sum_eq_zero fun n hn => ?_
    obtain ⟨tool, htool, rfl⟩ := List.mem_map.mp hn
    obtain ⟨declaration, -, rfl⟩ := List.mem_map.mp htool
    rfl
  rw [hplain, wireTools]
  split_ifs with hcache
  · cases hlast : updateLast (fun tool : Tool =>
        some { tool with cacheControl := some (cacheControl request) })
        ((offered request).map fun declaration => { declaration := declaration }) with
    | none => exact ⟨(hnone _).le.trans (Nat.zero_le 1), hunmarked _⟩
    | some tools =>
      refine ⟨?_, ?_⟩
      · obtain ⟨before, tool, tool', after, hsplit, htool, rfl⟩ := updateLast_eq_some hlast
        have hzero := hnone (offered request)
        rw [hsplit] at hzero
        simp only [List.map_append, List.map_cons, List.sum_append, List.sum_cons] at hzero
        have hone : tool'.markers = 1 := by
          rw [← Option.some.inj htool]
          rfl
        simp only [Option.getD_some, List.map_append, List.map_cons, List.sum_append,
          List.sum_cons, hone]
        omega
      · have hsame := updateLast_map (g := Tool.unmarked) (fun tool tool' htool => by
          rw [← Option.some.inj htool]
          rfl) hlast
        exact hsame.trans (hunmarked _)
  · exact ⟨(hnone _).le.trans (Nat.zero_le 1), hunmarked _⟩

/-- Markers apart, the messages of a body are the conversation's turns. -/
theorem messages_unmarked {given : Given} {request : CanonicalRequest}
    {turns : List WireTurn} {messages : List WireMessage}
    (hgiven : ∀ index message blocks, given index message = some blocks →
      ∀ block ∈ blocks, block.Plain)
    (hturns : wireTurns given (pairedToolResults request.messages) = .ok turns)
    (hmessages : messages = if request.cachePrefix then
      markConversation (cacheControl request) turns else turns.map (·.message)) :
    messages.map WireMessage.unmarked = turns.map (·.message) := by
  have hplain : (turns.map (·.message)).map WireMessage.unmarked = turns.map (·.message) := by
    rw [List.map_map]
    exact List.map_congr_left fun turn hturn =>
      unmarked_of_plain (plain_wireTurns hgiven hturns turn hturn)
  rw [hmessages]
  split_ifs
  · exact (markConversation_map (fun _ _ h => (markMessage_spec h).1) turns).trans hplain
  · exact hplain

/-- **What caching changes**: markers, at most four and where they are taken, and the form of the
system prompt. -/
theorem wellMarked_of_body {given : Given} {request : CanonicalRequest} {maxTokens : ℤ}
    {body : Body}
    (hgiven : ∀ index message blocks, given index message = some blocks →
      ∀ block ∈ blocks, block.Plain)
    (h : anthropicBodyWith given request maxTokens = .ok body) :
    body.WellMarked ∧ anthropicBodyWith given { request with cachePrefix := false } maxTokens =
      .ok body.unmarked := by
  obtain ⟨turns, hturns, hmessages, hsystem, htools, hplain⟩ := anthropicBodyWith_eq_ok h
  have hblocks := plain_wireTurns hgiven hturns
  have hzero : markersOf (turns.map (·.message)) = 0 := by
    refine List.sum_eq_zero fun n hn => ?_
    obtain ⟨message, hmessage, rfl⟩ := List.mem_map.mp hn
    obtain ⟨turn, hturn, rfl⟩ := List.mem_map.mp hmessage
    exact markers_of_plain (hblocks turn hturn)
  have hmarked : markersOf body.messages ≤ 2 ∧ ∀ m ∈ body.messages, m.Sound := by
    obtain ⟨hmarkers, hsound⟩ := markConversation_spec (cacheControl request) turns
      fun turn hturn block hblock => (hblocks turn hturn block hblock).sound
    rw [hmessages]
    split_ifs
    · exact ⟨by omega, hsound⟩
    · refine ⟨by omega, ?_⟩
      rw [List.forall_mem_map]
      exact fun turn hturn block hblock => (hblocks turn hturn block hblock).sound
  obtain ⟨hlast, hunmarked⟩ := wireTools_spec request
  refine ⟨⟨?_, ?_, fun m hm block hblock => (hmarked.2 m hm block hblock).1⟩, ?_⟩
  · have hone : (body.system.map SystemPrompt.markers).getD 0 ≤ 1 := by
      cases body.system with
      | none => exact Nat.zero_le 1
      | some system =>
        change system.markers ≤ 1
        rw [SystemPrompt.markers]
        split_ifs <;> omega
    have htool : (body.tools.map fun tools => (tools.map Tool.markers).sum).getD 0 ≤ 1 := by
      rw [htools]
      split_ifs
      · exact Nat.zero_le 1
      · exact hlast
    have hbody : body.markers = (body.system.map SystemPrompt.markers).getD 0 +
      (body.tools.map fun tools => (tools.map Tool.markers).sum).getD 0 +
        markersOf body.messages := rfl
    omega
  · intro system hmem _
    rw [hsystem, systemPrompt] at hmem
    split_ifs at hmem with hblank
    · exact absurd hmem (Option.not_mem_none _)
    all_goals
      rw [← Option.some.inj hmem]
      exact hblank
  · have hmessages' := messages_unmarked hgiven hturns hmessages
    have hsystem' : body.system.map (fun system => { system with cacheControl := none }) =
        systemPrompt { request with cachePrefix := false }
          (systemText (pairedToolResults request.messages)) := by
      rw [hsystem, systemPrompt, systemPrompt]
      by_cases hblank : strip (systemText (pairedToolResults request.messages)) = []
      · rw [if_pos hblank, if_pos hblank]
        rfl
      · rw [if_neg hblank, if_neg hblank]
        rfl
    have htools' : body.tools.map (fun tools => tools.map Tool.unmarked) =
        if request.tools = [] then none
        else some (wireTools { request with cachePrefix := false }) := by
      rw [htools]
      split_ifs
      · rfl
      · exact congrArg some hunmarked
    rw [hplain, Body.unmarked, hmessages', hsystem', htools']

end AiraGateway.Anthropic
