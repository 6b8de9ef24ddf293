import AiraGateway.Core.Canonical
import AiraGateway.Upstreams.Carried

/-!
# Claude's thinking, carried through the caller

When a model's function calls are answered, Anthropic needs that model message back as it was
produced, thinking blocks included, and a caller's history has no place for them. So a message
that calls a function carries its own layout — its thinking whole, its text, and the order of both
around the calls — sealed into the signature of its first call. `carried` makes the envelope and
`blocksFor` reads it on the way back, matching it against what the caller sent.

* **The trip through the caller** (`blocksFor_carried`): for a message of texts and calls alone
  that still says and calls what the blocks did, the blocks come back as they were, with the
  caller's calls in the calls' places; outside the turn in progress only onto the history they
  were made on.
-/

namespace AiraGateway

/-- The types of content block that are told apart. -/
inductive BlockKind
  | text
  | thinking
  | redactedThinking
  | toolUse
  | other
  deriving DecidableEq, Repr

/-- One content block: its type and the fields of it that are read, each present or not. -/
structure Block where
  kind : BlockKind
  text : Option Text := none
  thinking : Option Text := none
  signature : Option Text := none
  data : Option Text := none
  id : Option Text := none
  name : Option Text := none
  input : Option Json := none
  deriving DecidableEq

namespace Block

def ofText (text : Text) : Block := { kind := .text, text := some text }

def ofThinking (thinking signature : Text) : Block :=
  { kind := .thinking, thinking := some thinking, signature := some signature }

def ofRedacted (data : Text) : Block := { kind := .redactedThinking, data := some data }

def ofToolUse (id name : Text) (input : Json) : Block :=
  { kind := .toolUse, id := some id, name := some name, input := some input }

end Block

/-! ### The layout of a message -/

/-- One block as the envelope keeps it. -/
inductive LayoutEntry
  | thinking (thinking signature : Text)
  | redacted (data : Text)
  | text (text : Text)
  | toolUse (name : Text)
  deriving DecidableEq

namespace LayoutEntry

def text? : LayoutEntry → Option Text
  | text t => some t
  | _ => none

def callName? : LayoutEntry → Option Text
  | toolUse name => some name
  | _ => none

/-- Whether an entry is the model's thinking. -/
def thinks : LayoutEntry → Bool
  | thinking .. | redacted .. => true
  | _ => false

/-- An entry as it is sealed. -/
def toJson : LayoutEntry → Json
  | thinking t signature =>
    .obj [("type", .str "thinking"), ("thinking", .str t), ("signature", .str signature)]
  | redacted data => .obj [("type", .str "redacted_thinking"), ("data", .str data)]
  | text t => .obj [("type", .str "text"), ("text", .str t)]
  | toolUse name => .obj [("type", .str "tool_use"), ("name", .str name)]

end LayoutEntry

/-- The dialect an envelope is sealed under. -/
def anthropicDialect : Text := "anthropic"

/-- A block as the envelope keeps it; nothing for one the next turn could not send back whole, or
whose reasoning would be disclosed. -/
def layoutEntry (includeReasoning : Bool) (block : Block) : Option LayoutEntry :=
  match block.kind with
  | .thinking =>
    let text := block.thinking.getD []
    let signature := block.signature.getD []
    if signature = [] ∨ (text ≠ [] ∧ includeReasoning = false) then none
    else some (.thinking text signature)
  | .redactedThinking =>
    let data := block.data.getD []
    if data = [] then none else some (.redacted data)
  | .text => some (.text (block.text.getD []))
  | .toolUse => some (.toolUse (block.name.getD []))
  -- a block that is not sent back; half a message would be refused
  | .other => none

/-- What an envelope holds: the layout, and what the message was made on where that is known. -/
def sealedState (layout : List LayoutEntry) (pfx : Option Text) : Json :=
  match pfx with
  | none => .arr (layout.map LayoutEntry.toJson)
  | some pfx => .obj [("prefix", .str pfx), ("layout", .arr (layout.map LayoutEntry.toJson))]

/-- The envelope for one message's content blocks; none where there is no thinking to carry, no
call to carry it on, or a block that could not be sent back whole. -/
def carried (content : List Block) (includeReasoning : Bool) (pfx : Option Text) :
    Option Text := do
  let layout ← content.mapM (layoutEntry includeReasoning)
  if layout.any LayoutEntry.thinks ∧ layout.any (·.callName?.isSome) then
    some (sealed anthropicDialect (sealedState layout pfx))
  else none

/-- The calls, the first one carrying its message's envelope where there is one. -/
def withCarried (calls : List ToolCallPart) (content : List Block) (includeReasoning : Bool)
    (pfx : Option Text) : List ToolCallPart :=
  match calls with
  | [] => []
  | call :: rest =>
    match carried content includeReasoning pfx with
    | none => call :: rest
    | some envelope => { call with signature := some envelope } :: rest

/-! ### Reading it back -/

/-- A field of an entry that is a text. -/
def strField (name : Text) (entry : Json) : Option Text :=
  match entry.get name with
  | some (.str t) => some t
  | _ => none

/-- One entry of a sealed layout, checked field by field: what comes back from a caller is read
as untrusted. -/
def readEntry (entry : Json) : Option LayoutEntry := do
  let kind ← strField "type" entry
  if kind = ("thinking" : Text) then
    let thinking ← strField "thinking" entry
    let signature ← strField "signature" entry
    if signature = [] then none else some (.thinking thinking signature)
  else if kind = ("redacted_thinking" : Text) then
    let data ← strField "data" entry
    if data = [] then none else some (.redacted data)
  else if kind = ("text" : Text) then (strField "text" entry).map .text
  else if kind = ("tool_use" : Text) then (strField "name" entry).map .toolUse
  else none

/-- A sealed layout. -/
def layoutOf : Json → Option (List LayoutEntry)
  | .arr (entry :: rest) => (entry :: rest).mapM readEntry
  | _ => none

/-- The layout's blocks, each call the caller's in the sealed place; there are as many, which is
checked before. A blank text is left out: it says nothing, and a block of it is refused. -/
def placeCalls : List LayoutEntry → List ToolCallPart → List Block
  | [], _ => []
  | .toolUse _ :: rest, call :: calls =>
    .ofToolUse call.id call.name (.obj call.arguments) :: placeCalls rest calls
  | .toolUse _ :: rest, [] => placeCalls rest []
  | .text t :: rest, calls =>
    if strip t = [] then placeCalls rest calls else .ofText t :: placeCalls rest calls
  | .thinking t signature :: rest, calls => .ofThinking t signature :: placeCalls rest calls
  | .redacted data :: rest, calls => .ofRedacted data :: placeCalls rest calls

/-- Whether a message is of texts and calls alone. -/
def textsAndCalls (message : CanonicalMessage) : Bool :=
  message.parts.all fun part => part.text?.isSome || part.toolCall?.isSome

/-- The layout an opened state holds: itself, or under its name beside a prefix. -/
def stateLayout : Json → Option Json
  | .obj members => (Json.obj members).get "layout"
  | state => some state

/-- The message's content as Anthropic produced it, or nothing where the caller's history no
longer matches what was sealed. Outside the turn in progress it goes back only onto the history it
was made on, and never without one. -/
def blocksFor (message : CanonicalMessage) (inTurn : Bool) (pfx : Option Text) :
    Option (List Block) :=
  match message.toolCalls with
  | [] => none
  | first :: rest =>
    if textsAndCalls message = false then none
    else
      (opened first.signature anthropicDialect).bind fun state =>
        -- an envelope that states no prefix cannot be told from one whose history changed
        if inTurn = false ∧ (pfx = none ∨ state.get "prefix" ≠ pfx.map .str) then none
        else
          ((stateLayout state).bind layoutOf).bind fun layout =>
            if layout.filterMap LayoutEntry.callName? ≠ (first :: rest).map (·.name) then none
            else if strip (layout.filterMap LayoutEntry.text?).flatten ≠ strip message.text then
              none
            else some (placeCalls layout (first :: rest))

/-! ### What is sealed is what is read -/

/-- What the vendor demands of an entry that is thinking. -/
private def LayoutEntry.Sound : LayoutEntry → Prop
  | .thinking _ signature => signature ≠ []
  | .redacted data => data ≠ []
  | _ => True

private theorem LayoutEntry.valid_toJson (entry : LayoutEntry) : entry.toJson.Valid := by
  have hthinking : [("type" : Text), "thinking", "signature"].Nodup := by decide
  have hredacted : [("type" : Text), "data"].Nodup := by decide
  have htext : [("type" : Text), "text"].Nodup := by decide
  have htool : [("type" : Text), "name"].Nodup := by decide
  cases entry with
  | thinking t signature => exact ⟨hthinking, trivial, trivial, trivial, trivial⟩
  | redacted data => exact ⟨hredacted, trivial, trivial, trivial⟩
  | text t => exact ⟨htext, trivial, trivial, trivial⟩
  | toolUse name => exact ⟨htool, trivial, trivial, trivial⟩

private theorem valid_layout (layout : List LayoutEntry) :
    (Json.arr (layout.map LayoutEntry.toJson)).Valid := by
  change Json.ValidItems _
  induction layout with
  | nil => trivial
  | cons entry layout ih => exact ⟨entry.valid_toJson, ih⟩

theorem sealedState_valid (layout : List LayoutEntry) (pfx : Option Text) :
    (sealedState layout pfx).Valid := by
  have hnames : [("prefix" : Text), "layout"].Nodup := by decide
  cases pfx with
  | none => exact valid_layout layout
  | some pfx => exact ⟨hnames, trivial, valid_layout layout, trivial⟩

private theorem readEntry_toJson {entry : LayoutEntry} (h : entry.Sound) :
    readEntry entry.toJson = some entry := by
  cases entry with
  | thinking t signature =>
    have hread : readEntry (LayoutEntry.thinking t signature).toJson =
        if signature = [] then none else some (.thinking t signature) := rfl
    rw [hread, if_neg h]
  | redacted data =>
    have hread : readEntry (LayoutEntry.redacted data).toJson =
        if data = [] then none else some (.redacted data) := rfl
    rw [hread, if_neg h]
  | text t => rfl
  | toolUse name => rfl

private theorem mapM_readEntry {layout : List LayoutEntry} (h : ∀ entry ∈ layout, entry.Sound) :
    (layout.map LayoutEntry.toJson).mapM readEntry = some layout := by
  induction layout with
  | nil => rfl
  | cons entry layout ih =>
    rw [List.forall_mem_cons] at h
    simp [readEntry_toJson h.1, ih h.2]

/-- A sealed layout is read as that layout. -/
theorem layoutOf_sealedState {layout : List LayoutEntry} (hne : layout ≠ [])
    (h : ∀ entry ∈ layout, entry.Sound) (pfx : Option Text) :
    (stateLayout (sealedState layout pfx)).bind layoutOf = some layout := by
  have hlayout : layoutOf (.arr (layout.map LayoutEntry.toJson)) = some layout := by
    cases layout with
    | nil => exact absurd rfl hne
    | cons entry layout => exact mapM_readEntry h
  cases pfx with
  | none => exact hlayout
  | some pfx => exact hlayout

private theorem layoutEntry_sound {includeReasoning : Bool} {block : Block} {entry : LayoutEntry}
    (h : layoutEntry includeReasoning block = some entry) : entry.Sound := by
  unfold layoutEntry at h
  split at h
  · simp only at h
    split_ifs at h with hno
    obtain rfl := Option.some.inj h
    exact fun hempty => hno (.inl hempty)
  · simp only at h
    split_ifs at h with hno
    obtain rfl := Option.some.inj h
    exact hno
  · obtain rfl := Option.some.inj h
    trivial
  · obtain rfl := Option.some.inj h
    trivial
  · exact absurd h (by simp)

/-! ### The trip through the caller -/

/-- A block as the vendor sends it whole. -/
def Block.Whole (block : Block) : Prop :=
  (∃ t, block = .ofText t) ∨
    (∃ t signature, signature ≠ [] ∧ block = .ofThinking t signature) ∨
    (∃ data, data ≠ [] ∧ block = .ofRedacted data) ∨
    ∃ id name input, id ≠ [] ∧ name ≠ [] ∧ block = .ofToolUse id name input

/-- What the blocks say: their texts. -/
def blocksText (content : List Block) : Text :=
  (content.filterMap fun block => if block.kind = .text then block.text else none).flatten

/-- The functions the blocks call, in order. -/
def blocksCalls (content : List Block) : List Text :=
  content.filterMap fun block => if block.kind = .toolUse then block.name else none

/-- The blocks themselves in their order, whitespace-only texts left out, with the caller's calls
in the places of the calls. -/
def restored : List Block → List ToolCallPart → List Block
  | [], _ => []
  | block :: rest, calls =>
    match block.kind, calls with
    | .toolUse, call :: calls =>
      .ofToolUse call.id call.name (.obj call.arguments) :: restored rest calls
    | .toolUse, [] => restored rest []
    | .text, calls =>
      if strip (block.text.getD []) = [] then restored rest calls
      else block :: restored rest calls
    | _, calls => block :: restored rest calls

/-- The layout of whole blocks says, calls and restores what the blocks do. -/
private theorem layout_of_whole {includeReasoning : Bool} {content : List Block}
    {layout : List LayoutEntry} (hwhole : ∀ block ∈ content, block.Whole)
    (hlayout : content.mapM (layoutEntry includeReasoning) = some layout) :
    (∀ entry ∈ layout, entry.Sound) ∧
      layout.filterMap LayoutEntry.callName? = blocksCalls content ∧
      layout.filterMap LayoutEntry.text? =
        (content.filterMap fun block => if block.kind = .text then block.text else none) ∧
      ∀ calls, placeCalls layout calls = restored content calls := by
  induction content generalizing layout with
  | nil =>
    obtain rfl : layout = [] := by simpa using hlayout.symm
    exact ⟨by simp, rfl, rfl, fun _ => rfl⟩
  | cons block content ih =>
    rw [List.forall_mem_cons] at hwhole
    rw [List.mapM_cons] at hlayout
    obtain ⟨entry, hentry, hlayout⟩ := Option.bind_eq_some_iff.mp hlayout
    obtain ⟨rest, hrest, hlayout⟩ := Option.bind_eq_some_iff.mp hlayout
    obtain rfl : entry :: rest = layout := Option.some.inj hlayout
    obtain ⟨hsound, hcalls, htexts, hplace⟩ := ih hwhole.2 hrest
    refine ⟨List.forall_mem_cons.mpr ⟨layoutEntry_sound hentry, hsound⟩, ?_⟩
    -- a call takes the caller's next one; no other block takes any
    rcases hwhole.1 with ⟨t, rfl⟩ | ⟨t, signature, -, rfl⟩ | ⟨data, -, rfl⟩ |
      ⟨id, name, input, -, -, rfl⟩
    · obtain rfl : LayoutEntry.text t = entry := Option.some.inj hentry
      refine ⟨hcalls, congrArg (t :: ·) htexts, fun calls => ?_⟩
      by_cases ht : strip t = [] <;> simp [placeCalls, restored, Block.ofText, ht, hplace]
    · have hentry' : layoutEntry includeReasoning (.ofThinking t signature) =
          if signature = [] ∨ t ≠ [] ∧ includeReasoning = false then none
          else some (.thinking t signature) := rfl
      rw [hentry'] at hentry
      split_ifs at hentry
      obtain rfl : LayoutEntry.thinking t signature = entry := Option.some.inj hentry
      exact ⟨hcalls, htexts, fun calls =>
        congrArg (Block.ofThinking t signature :: ·) (hplace calls)⟩
    · have hentry' : layoutEntry includeReasoning (.ofRedacted data) =
          if data = [] then none else some (.redacted data) := rfl
      rw [hentry'] at hentry
      split_ifs at hentry
      obtain rfl : LayoutEntry.redacted data = entry := Option.some.inj hentry
      exact ⟨hcalls, htexts, fun calls => congrArg (Block.ofRedacted data :: ·) (hplace calls)⟩
    · obtain rfl : LayoutEntry.toolUse name = entry := Option.some.inj hentry
      refine ⟨congrArg (name :: ·) hcalls, htexts, fun calls => ?_⟩
      cases calls with
      | nil => exact hplace []
      | cons call calls => exact congrArg (Block.ofToolUse _ _ _ :: ·) (hplace calls)

/-- A carried envelope is the sealed layout of the blocks, which is not empty. -/
theorem carried_eq_some {content : List Block} {includeReasoning : Bool}
    {pfx : Option Text} {envelope : Text}
    (h : carried content includeReasoning pfx = some envelope) :
    ∃ layout, content.mapM (layoutEntry includeReasoning) = some layout ∧ layout ≠ [] ∧
      envelope = sealed anthropicDialect (sealedState layout pfx) := by
  obtain ⟨layout, hlayout, h⟩ := Option.bind_eq_some_iff.mp h
  split_ifs at h with hthinks
  refine ⟨layout, hlayout, ?_, (Option.some.inj h).symm⟩
  rintro rfl
  exact absurd hthinks.1 (by decide)

theorem sealedState_prefix (layout : List LayoutEntry) (pfx : Option Text) :
    (sealedState layout pfx).get "prefix" = pfx.map .str := by
  cases pfx <;> rfl

/-- Where the layout is still the message's, it is placed: in the turn in progress, or onto the
history it was made on. -/
private theorem blocksFor_of_opened {message : CanonicalMessage} {first : ToolCallPart}
    {rest : List ToolCallPart} (inTurn : Bool) (given : Option Text) {state : Json}
    {layout : List LayoutEntry} (hmessage : message.toolCalls = first :: rest)
    (hstate : opened first.signature anthropicDialect = some state)
    (hlayout : (stateLayout state).bind layoutOf = some layout)
    (hnames : layout.filterMap LayoutEntry.callName? = message.toolCalls.map (·.name))
    (htext : strip (layout.filterMap LayoutEntry.text?).flatten = strip message.text) :
    blocksFor message inTurn given =
      if textsAndCalls message ∧
          (inTurn ∨ given ≠ none ∧ state.get "prefix" = given.map .str) then
        some (placeCalls layout message.toolCalls)
      else none := by
  rw [hmessage] at hnames
  have hread : blocksFor message inTurn given =
      if textsAndCalls message = false then none
      else if inTurn = false ∧ (given = none ∨ state.get "prefix" ≠ given.map .str) then none
      else some (placeCalls layout message.toolCalls) := by
    rw [hmessage]
    simp only [blocksFor, hmessage, hstate, Option.bind_some, hlayout, hnames, htext,
      ne_eq, not_true_eq_false, if_false]
  rw [hread]
  by_cases hparts : textsAndCalls message = true
  · by_cases hturn : inTurn = true ∨ given ≠ none ∧ state.get "prefix" = given.map .str
    · have hno : ¬(inTurn = false ∧ (given = none ∨ state.get "prefix" ≠ given.map .str)) := by
        rintro ⟨hfalse, hother⟩
        rcases hturn with htrue | ⟨hgiven, hmade⟩
        · rw [htrue] at hfalse
          exact absurd hfalse (by decide)
        · exact hother.elim hgiven fun h => h hmade
      rw [if_neg (by rw [hparts]; decide), if_neg hno, if_pos ⟨hparts, hturn⟩]
    · have hyes : inTurn = false ∧ (given = none ∨ state.get "prefix" ≠ given.map .str) := by
        refine ⟨Bool.eq_false_iff.mpr fun h => hturn (.inl h), ?_⟩
        by_contra h
        obtain ⟨hgiven, hmade⟩ := not_or.mp h
        exact hturn (.inr ⟨hgiven, not_not.mp hmade⟩)
      rw [if_neg (by rw [hparts]; decide), if_pos hyes, if_neg fun h => hturn h.2]
  · rw [if_pos (Bool.eq_false_iff.mpr hparts), if_neg fun h => hparts h.1]

/-- Outside the turn in progress nothing goes back onto a history that is not given. -/
theorem blocksFor_outside_none (message : CanonicalMessage) :
    blocksFor message false none = none := by
  unfold blocksFor
  split
  · rfl
  · split_ifs with hparts
    · rfl
    · cases opened _ anthropicDialect <;> simp

/-- **A model turn's thinking survives the trip through the caller.** For blocks that give an
envelope and a message that says and calls what they do, its first call carrying that envelope:

* in the turn in progress the blocks come back as they were, with the caller's calls, exactly
  where the message holds nothing but texts and calls;
* outside it, where moreover the envelope states what the blocks were made on and that is what is
  given.

And a sealed state is opened under its own name and under no other. -/
theorem blocksFor_carried {content : List Block} {message : CanonicalMessage}
    {includeReasoning : Bool} {pfx : Option Text} {envelope : Text}
    (hwhole : ∀ block ∈ content, block.Whole)
    (hcarried : carried content includeReasoning pfx = some envelope)
    (htext : strip message.text = strip (blocksText content))
    (hcalls : message.toolCalls.map (·.name) = blocksCalls content)
    (hfirst : message.toolCalls.head?.map (·.signature) = some (some envelope)) :
    (∀ given, blocksFor message true given =
      if textsAndCalls message then some (restored content message.toolCalls) else none) ∧
    (∀ given, blocksFor message false given =
      if textsAndCalls message ∧ pfx ≠ none ∧ given = pfx then
        some (restored content message.toolCalls)
      else none) ∧
    ∀ (state : Json) (dialect other : Text), state.Valid →
      opened (some (sealed dialect state)) other =
        if dialect = other then some state else none := by
  obtain ⟨layout, hlayout, hne, rfl⟩ := carried_eq_some hcarried
  obtain ⟨hsound, hnames, htexts, hplace⟩ := layout_of_whole hwhole hlayout
  -- what the caller hands back unread is read as what was sealed
  have hopened : opened (some (sealed anthropicDialect (sealedState layout pfx)))
      anthropicDialect = some (sealedState layout pfx) := by
    rw [opened_sealed (sealedState_valid layout pfx), if_pos rfl]
  have hread := layoutOf_sealedState hne hsound pfx
  obtain ⟨first, rest, hmessage⟩ : ∃ first rest, message.toolCalls = first :: rest := by
    cases hlist : message.toolCalls with
    | nil => simp [hlist] at hfirst
    | cons first rest => exact ⟨first, rest, rfl⟩
  have hsignature : first.signature =
      some (sealed anthropicDialect (sealedState layout pfx)) := by
    rw [hmessage] at hfirst
    exact Option.some.inj hfirst
  have hplaced := fun inTurn given => blocksFor_of_opened inTurn given
    hmessage (hsignature ▸ hopened) hread (hnames.trans hcalls.symm)
    ((congrArg (strip ·.flatten) htexts).trans htext.symm)
  simp only [hplace, sealedState_prefix] at hplaced
  refine ⟨fun given => ?_, fun given => ?_, fun state dialect other h =>
    opened_sealed h dialect other⟩
  · rw [hplaced]
    simp
  · have hsame : given ≠ none ∧ pfx.map Json.str = given.map Json.str ↔
        pfx ≠ none ∧ given = pfx := by
      cases pfx <;> cases given <;> simp [eq_comm]
    rw [hplaced]
    simp only [Bool.false_eq_true, false_or, hsame]

/-- A turn that thinks, speaks and calls. -/
private def thinkingTurn : List Block :=
  [.ofThinking "look it up" "sig", .ofText " Let me see.", .ofToolUse "t1" "lookup" (.obj [])]

/-- The turn as a caller sends it back, with an edited argument and further parts. -/
private def sentBack (pfx : Option Text) (more : List CanonicalPart) : CanonicalMessage where
  role := .model
  parts := [.text "Let me see. ", .toolCall
    { id := "t1", name := "lookup", arguments := [("q", .int 7)]
      signature := carried thinkingTurn true pfx }] ++ more

private theorem thinkingTurn_whole : ∀ block ∈ thinkingTurn, block.Whole := by
  intro block hblock
  rcases List.mem_cons.mp hblock with rfl | hblock
  · exact .inr (.inl ⟨_, _, by decide, rfl⟩)
  rcases List.mem_cons.mp hblock with rfl | hblock
  · exact .inl ⟨_, rfl⟩
  rcases List.mem_singleton.mp hblock with rfl
  exact .inr (.inr (.inr ⟨_, _, _, by decide, by decide, rfl⟩))

theorem blocksFor_carried_edited :
    blocksFor (sentBack (some "9f") []) true none =
        some [.ofThinking "look it up" "sig", .ofText " Let me see.",
          .ofToolUse "t1" "lookup" (.obj [("q", .int 7)])] ∧
      blocksFor (sentBack (some "9f") []) false (some "9e") = none := by
  have hcarried : carried thinkingTurn true (some "9f") =
      some ((carried thinkingTurn true (some "9f")).getD []) := rfl
  have htext : strip (sentBack (some "9f") []).text = strip (blocksText thinkingTurn) := by decide
  have h := blocksFor_carried thinkingTurn_whole hcarried htext (by decide) rfl
  exact ⟨(h.1 none).trans rfl, (h.2.1 (some "9e")).trans rfl⟩

/-- Not every message that says and calls what the blocks do gets them back: one that also holds
an attachment does not, and outside the turn in progress an envelope that does not say what it was
made on goes back onto no history. -/
theorem blocksFor_attached_none :
    ∃ (envelope : Text) (attached plain : CanonicalMessage),
      (∀ block ∈ thinkingTurn, block.Whole) ∧
      carried thinkingTurn true none = some envelope ∧
      (∀ message ∈ [attached, plain], strip message.text = strip (blocksText thinkingTurn) ∧
        message.toolCalls.map (·.name) = blocksCalls thinkingTurn ∧
        message.toolCalls.head?.map (·.signature) = some (some envelope)) ∧
      blocksFor attached true none = none ∧ blocksFor plain false none = none := by
  refine ⟨_, sentBack none [.data ⟨"image/png", []⟩], sentBack none [], thinkingTurn_whole, rfl,
    ?_, rfl, blocksFor_outside_none _⟩
  intro message hmessage
  rcases List.mem_cons.mp hmessage with rfl | hmessage
  · exact ⟨by decide, by decide, rfl⟩
  rcases List.mem_singleton.mp hmessage with rfl
  exact ⟨by decide, by decide, rfl⟩

end AiraGateway
