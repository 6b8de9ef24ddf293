import AiraGateway.Upstreams.Anthropic.Markers
import AiraGateway.Upstreams.Anthropic.Prefixes
import AiraGateway.Upstreams.Anthropic.Response
import Mathlib.Logic.Relation

/-!
# A conversation stays in its cache

A prompt cache is a property of consecutive requests: what one of them wrote is read back as far
as the next begins with it. A model message goes back by one rule while its turn is in progress
and by another afterwards, so `anthropicBodyCarrying` computes for each where the turn in progress
begins, and what every message was made on.

A conversation begins with a request in which no message carries an envelope of the gateway's yet,
and each request after it is the one before with the model's answer and the caller's new messages
added (`Next`).

* **Every body is the one before it with something added** (`body_extends`): where an envelope
  states the history its message stands on (`Settled`), the message goes back as it would in the
  turn in progress, so nothing hangs on where that begins. Markers are where the API takes them,
  and the body is otherwise the one built without caching.
-/

namespace AiraGateway.Anthropic

/-! ### What goes back -/

/-- Where the turn in progress begins: after the caller's last message that answers no call. -/
def turnInProgress (messages : List CanonicalMessage) : ℕ :=
  messages.zipIdx.foldl (fun start (message, index) =>
    if message.role = .user ∧ message.toolResults = [] then index + 1 else start) 0

/-- A block of the model's as it goes back. -/
def wireBlock (block : Block) : ContentBlock where
  content :=
    match block.kind with
    | .text => .text (block.text.getD [])
    | .thinking => .thinking (block.thinking.getD []) (block.signature.getD [])
    | .redactedThinking => .redactedThinking (block.data.getD [])
    | .toolUse | .other =>
      .toolUse ⟨block.id.getD [], block.name.getD [], argumentsOf block.input⟩

/-- What each message goes back as: a model message as the model produced it, always in the turn
in progress and in an earlier one onto the history it was made on. -/
def givenBack (carryThinking carryEarlier : Bool) (conversation : List CanonicalMessage)
    (madeOn : List Text) : Given := fun index message =>
  if carryThinking = true ∧ message.role = .model then
    (blocksFor message (turnInProgress conversation ≤ index)
      (if carryEarlier then madeOn[index]? else none)).map (·.map wireBlock)
  else none

section Bodies

variable (sha256 : List UInt8 → Text) (toolDocument : ToolDeclaration → Json)

/-- The digests of a request's conversation. -/
def madeOn (request : CanonicalRequest) : List Text :=
  let conversation := pairedToolResults request.messages
  prefixes sha256 toolDocument conversation (systemText conversation) (offered request)

/-- A Messages body, and what an answer to it is made on. -/
def anthropicBodyCarrying (request : CanonicalRequest) (maxTokens : ℤ)
    (carryThinking carryEarlier : Bool) : Except DialectUnsupported (Body × Text) := do
  let digests := madeOn sha256 toolDocument request
  let given := givenBack carryThinking carryEarlier (pairedToolResults request.messages) digests
  let body ← anthropicBodyWith given request maxTokens
  .ok (body, digests.getLast?.getD [])

end Bodies

/-! ### One body after another -/

/-- The later body is the earlier one with something added: the messages begin with the earlier
one's, markers apart, and the tools and the system prompt are the same. -/
structure Body.Extends (later earlier : Body) : Prop where
  messages : earlier.messages.map WireMessage.unmarked <+:
    later.messages.map WireMessage.unmarked
  tools : later.tools = earlier.tools
  system : later.system = earlier.system

/-! ### The conversation -/

/-- An answer of the model's: its text, its calls as they were read, which carry nothing yet, and
the blocks it came in. -/
structure Answer where
  text : Text
  calls : List ToolCallPart
  content : List Block
  unsigned : ∀ call ∈ calls, call.signature = none

/-- The answer that is read from blocks. -/
def Answer.ofContent (content : List Block) : Answer where
  text := answerText content
  calls := toolCallsOf content
  content := content
  unsigned := by
    intro call hcall
    obtain ⟨⟨block, index⟩, -, hblock⟩ := List.mem_filterMap.mp hcall
    have hread : toolCallOf block index = some call := hblock
    simp only [toolCallOf] at hread
    split_ifs at hread
    rw [← Option.some.inj hread]

/-- The message an answer becomes in the caller's history: its text, and its calls with the
envelope they came under. -/
structure Answer.Becomes (answer : Answer) (includeReasoning : Bool) (madeOn : Text)
    (message : CanonicalMessage) : Prop where
  role : message.role = .model
  text : message.text = answer.text
  calls : message.toolCalls =
    withCarried answer.calls answer.content includeReasoning (some madeOn)

/-- No answer was given yet: no call of the history carries an envelope of this dialect's. -/
def Begins (request : CanonicalRequest) : Prop :=
  ∀ message ∈ request.messages, message.role = .model → ∀ call ∈ message.toolCalls,
    opened call.signature anthropicDialect = none

section Conversation

variable (sha256 : List UInt8 → Text) (toolDocument : ToolDeclaration → Json) (maxTokens : ℤ)

/-- The request that follows one: its messages, the answer to its body, and any new messages of
the caller's, whatever results they bring. -/
inductive Next (request : CanonicalRequest) : CanonicalRequest → Prop
  | next {body : Body} {digest : Text} {answer : Answer} {message : CanonicalMessage}
      {more : List CanonicalMessage}
      (hbody : anthropicBodyCarrying sha256 toolDocument request maxTokens true true =
        .ok (body, digest))
      (hanswer : answer.Becomes request.includeReasoning digest message)
      (hmore : ∀ m ∈ more, m.role = .user) :
      Next request { request with messages := request.messages ++ message :: more }

/-- The requests of a conversation that begins with a given one. -/
def Conversation : CanonicalRequest → CanonicalRequest → Prop :=
  Relation.ReflTransGen (Next sha256 toolDocument maxTokens)

/-! ### Nothing hangs on where the turn in progress begins -/

/-- What an envelope of the message's states, where it has one, is what the message was made on. -/
def StatesMadeOn (digest : Text) (message : CanonicalMessage) : Prop :=
  ∀ call ∈ message.toolCalls.head?, ∀ state, opened call.signature anthropicDialect = some state →
    state.get "prefix" = some (.str digest)

/-- Every model message stands on the history its envelope states. -/
def Settled (request : CanonicalRequest) : Prop :=
  ∀ (index : ℕ) (message : CanonicalMessage) (digest : Text),
    (pairedToolResults request.messages)[index]? = some message →
    message.role = .model → (madeOn sha256 toolDocument request)[index]? = some digest →
    StatesMadeOn digest message

/-- What a message goes back as, wherever it stands. -/
def backAnywhere (message : CanonicalMessage) : Option (List ContentBlock) :=
  if message.role = .model then (blocksFor message true none).map (·.map wireBlock) else none

variable {sha256 toolDocument maxTokens}

private theorem blocksFor_of_states {digest : Text} {message : CanonicalMessage}
    (h : StatesMadeOn digest message) (inTurn : Bool) :
    blocksFor message inTurn (some digest) = blocksFor message true none := by
  rw [blocksFor, blocksFor]
  cases hcalls : message.toolCalls with
  | nil => rfl
  | cons first rest =>
    have hstates : ∀ state, opened first.signature anthropicDialect = some state →
        state.get "prefix" = some (.str digest) := h first (by rw [hcalls]; rfl)
    change (if textsAndCalls message = false then none else _) =
      (if textsAndCalls message = false then none else _)
    by_cases hparts : textsAndCalls message = false
    · rw [if_pos hparts, if_pos hparts]
    rw [if_neg hparts, if_neg hparts]
    refine Option.bind_congr fun state hopened => ?_
    have hnot : ¬(inTurn = false ∧ ((some digest : Option Text) = none ∨
        state.get "prefix" ≠ (some digest).map .str)) := by
      rintro ⟨-, hnone | hother⟩
      · exact absurd hnone (by simp)
      · exact hother (hstates state hopened)
    rw [if_neg hnot, if_neg fun h => absurd h.1 (by decide)]

/-- In a settled conversation a message goes back the same in the turn in progress and after. -/
private theorem givenBack_of_settled {request : CanonicalRequest}
    (hsettled : Settled sha256 toolDocument request) {index : ℕ} {message : CanonicalMessage}
    (hmessage : (pairedToolResults request.messages)[index]? = some message) :
    givenBack true true (pairedToolResults request.messages)
      (madeOn sha256 toolDocument request) index message = backAnywhere message := by
  rw [givenBack, backAnywhere]
  by_cases hrole : message.role = .model
  · have hlt : index < (madeOn sha256 toolDocument request).length := by
      have hindex := (List.getElem?_eq_some_iff.mp hmessage).1
      have hlength := length_prefixes sha256 toolDocument
        (pairedToolResults request.messages) (systemText (pairedToolResults request.messages))
        (offered request)
      rw [madeOn, hlength]
      omega
    have hdigest := List.getElem?_eq_getElem hlt
    have hstates := hsettled index message _ hmessage hrole hdigest
    rw [if_pos ⟨rfl, hrole⟩, if_pos hrole, if_pos rfl, hdigest, blocksFor_of_states hstates]
  · rw [if_neg (fun h => hrole h.2), if_neg hrole]

private theorem wireTurns_of_settled {request : CanonicalRequest}
    (hsettled : Settled sha256 toolDocument request) :
    wireTurns (givenBack true true (pairedToolResults request.messages)
        (madeOn sha256 toolDocument request)) (pairedToolResults request.messages) =
      wireTurns (fun _ => backAnywhere) (pairedToolResults request.messages) := by
  have hsame : (pairedToolResults request.messages).zipIdx.mapM (fun (message, index) =>
        wireTurn (givenBack true true (pairedToolResults request.messages)
          (madeOn sha256 toolDocument request) index message) message) =
      (pairedToolResults request.messages).zipIdx.mapM (fun (message, index) =>
        wireTurn (backAnywhere message) message) := by
    refine mapM_congr fun entry hentry => ?_
    obtain ⟨message, index⟩ := entry
    have hmessage : (pairedToolResults request.messages)[index]? = some message :=
      List.mem_zipIdx_iff_getElem?.mp hentry
    have hback := givenBack_of_settled hsettled hmessage
    exact congrArg (wireTurn · message) hback
  exact congrArg (fun turns => turns >>= fun turns => .ok turns.flatten) hsame

/-! ### Each step keeps it settled -/

private theorem StatesMadeOn.of_becomes {answer : Answer} {includeReasoning : Bool}
    {digest : Text} {message : CanonicalMessage}
    (h : answer.Becomes includeReasoning digest message) : StatesMadeOn digest message := by
  intro call hcall state hstate
  rw [h.calls] at hcall
  have hunsigned := answer.unsigned
  cases hcalls : answer.calls with
  | nil =>
    rw [hcalls] at hcall
    exact nomatch hcall
  | cons first rest =>
    rw [hcalls] at hcall hunsigned
    have hfirst := hunsigned first (List.mem_cons_self ..)
    rw [withCarried] at hcall
    cases hcarried : carried answer.content includeReasoning (some digest) with
    | none =>
      rw [hcarried] at hcall
      obtain rfl : first = call := Option.some.inj hcall
      rw [hfirst] at hstate
      exact nomatch hstate
    | some envelope =>
      rw [hcarried] at hcall
      obtain rfl : { first with signature := some envelope } = call := Option.some.inj hcall
      obtain ⟨layout, -, -, rfl⟩ := carried_eq_some hcarried
      rw [opened_sealed (sealedState_valid layout (some digest)), if_pos rfl] at hstate
      rw [← Option.some.inj hstate]
      exact sealedState_prefix layout (some digest)

/-- The conversation of the next request is the one before, the answer's message, and messages of
the caller's. -/
private theorem paired_next (messages : List CanonicalMessage) {more : List CanonicalMessage}
    {message : CanonicalMessage}
    (hrole : message.role = .model) (hmore : ∀ m ∈ more, m.role = .user) :
    ∃ rest, pairedToolResults (messages ++ message :: more) =
        pairedToolResults messages ++ message :: rest ∧ ∀ m ∈ rest, m.role = .user := by
  obtain ⟨openCalls, hpaired⟩ := pairMessages_append [] messages (message :: more)
  refine ⟨pairMessages message.toolCalls more, ?_, ?_⟩
  · rw [pairedToolResults, hpaired, pairMessages, if_pos hrole, pairedToolResults]
  · have hrepaired := pairMessages_repaired message.toolCalls more
    clear hpaired
    generalize pairMessages message.toolCalls more = rest at hrepaired ⊢
    induction hrepaired with
    | nil => simp
    | cons h _ ih =>
      rw [List.forall_mem_cons] at hmore
      exact List.forall_mem_cons.mpr ⟨h.1.trans hmore.1, ih hmore.2⟩

private theorem systemText_next {conversation rest : List CanonicalMessage}
    {message : CanonicalMessage} (hrole : message.role = .model)
    (hrest : ∀ m ∈ rest, m.role = .user) :
    systemText (conversation ++ message :: rest) = systemText conversation := by
  have hnone : systemMessages (message :: rest) = [] := by
    refine List.filter_eq_nil_iff.mpr (List.forall_mem_cons.mpr ⟨?_, fun m hm => ?_⟩)
    · rw [hrole]
      decide
    · rw [hrest m hm]
      decide
  have happend : systemMessages (conversation ++ message :: rest) =
      systemMessages conversation ++ systemMessages (message :: rest) := List.filter_append ..
  rw [systemText, happend, hnone, List.append_nil, systemText]

/-- What the requests before had seen, the next has too. -/
private theorem madeOn_next {request : CanonicalRequest} {rest more : List CanonicalMessage}
    {message : CanonicalMessage} (hrole : message.role = .model)
    (hpaired : pairedToolResults (request.messages ++ message :: more) =
      pairedToolResults request.messages ++ message :: rest)
    (hrest : ∀ m ∈ rest, m.role = .user) {index : ℕ}
    (hindex : index ≤ (pairedToolResults request.messages).length) :
    (madeOn sha256 toolDocument
        { request with messages := request.messages ++ message :: more })[index]? =
      (madeOn sha256 toolDocument request)[index]? := by
  have hoffered : offered { request with messages := request.messages ++ message :: more } =
      offered request := rfl
  simp only [madeOn, hpaired, systemText_next hrole hrest, hoffered]
  exact prefixes_append _ _ _ _ _ _ hindex

private theorem anthropicBodyCarrying_eq_ok {request : CanonicalRequest} {body : Body}
    {digest : Text} {carryThinking carryEarlier : Bool}
    (h : anthropicBodyCarrying sha256 toolDocument request maxTokens carryThinking carryEarlier =
      .ok (body, digest)) :
    anthropicBodyWith (givenBack carryThinking carryEarlier (pairedToolResults request.messages)
        (madeOn sha256 toolDocument request)) request maxTokens = .ok body ∧
      digest = (madeOn sha256 toolDocument request).getLast?.getD [] := by
  obtain ⟨body', hbody, h⟩ := bind_eq_ok_iff.mp h
  cases h
  exact ⟨hbody, rfl⟩

/-- **The step**: what was settled is, and the new message's envelope states the digest it came
under. -/
private theorem Settled.next {request request' : CanonicalRequest}
    (hsettled : Settled sha256 toolDocument request)
    (hnext : Next sha256 toolDocument maxTokens request request') :
    Settled sha256 toolDocument request' := by
  obtain ⟨hbody, hanswer, hmore⟩ := hnext
  rename_i body digest answer message more
  obtain ⟨rest, hpaired, hrest⟩ := paired_next request.messages hanswer.role hmore
  intro index m digest' hm hrole hdigest'
  rw [hpaired] at hm
  rcases lt_trichotomy index (pairedToolResults request.messages).length with hlt | heq | hgt
  · rw [List.getElem?_append_left hlt] at hm
    rw [madeOn_next hanswer.role hpaired hrest hlt.le] at hdigest'
    exact hsettled index m digest' hm hrole hdigest'
  · subst heq
    have hsame : message = m := by
      rw [List.getElem?_append_right le_rfl, Nat.sub_self] at hm
      exact Option.some.inj hm
    rw [madeOn_next hanswer.role hpaired hrest le_rfl] at hdigest'
    have hdigest : digest' = digest := by
      have hlast := getLast?_prefixes sha256 toolDocument
        (pairedToolResults request.messages) (systemText (pairedToolResults request.messages))
        (offered request)
      rw [(anthropicBodyCarrying_eq_ok hbody).2, madeOn, hlast, ← madeOn, hdigest']
      rfl
    rw [← hsame, hdigest]
    exact .of_becomes hanswer
  · -- what comes behind the answer is the caller's
    rw [List.getElem?_append_right hgt.le] at hm
    have hmem : m ∈ rest := by
      obtain ⟨k, hk⟩ := Nat.exists_eq_add_of_lt hgt
      have hsub : index - (pairedToolResults request.messages).length = k + 1 := by omega
      rw [hsub, List.getElem?_cons_succ] at hm
      exact List.mem_of_getElem? hm
    rw [hrest m hmem] at hrole
    exact nomatch hrole

/-- Before anything was answered nothing hangs on a history. -/
private theorem Begins.settled {request : CanonicalRequest} (h : Begins request) :
    Settled sha256 toolDocument request := by
  have hpaired : ∀ m ∈ pairedToolResults request.messages, m.role = .model →
      ∀ call ∈ m.toolCalls, opened call.signature anthropicDialect = none := by
    rw [forall_paired_iff (fun m m' hm => ?_) request.messages]
    · exact h
    · rw [hm.1, hm.toolCalls_eq]
  intro index message digest hmessage hrole _ call hcall state hstate
  have hnone := hpaired message (List.mem_of_getElem? hmessage) hrole call
    (List.mem_of_mem_head? hcall)
  rw [hnone] at hstate
  exact nomatch hstate

/-- **Every request of a conversation is settled.** -/
theorem settled_of_conversation {first request : CanonicalRequest} (hbegins : Begins first)
    (h : Conversation sha256 toolDocument maxTokens first request) :
    Settled sha256 toolDocument request := by
  induction h with
  | refl => exact hbegins.settled
  | tail _ hnext ih => exact ih.next hnext

end Conversation

/-! ### What goes back is plain -/

private theorem plain_placeCalls (layout : List LayoutEntry) (calls : List ToolCallPart) :
    ∀ block ∈ placeCalls layout calls, (wireBlock block).Plain := by
  fun_induction placeCalls layout calls with
  | case1 => simp
  | case2 name rest call calls ih =>
    exact List.forall_mem_cons.mpr ⟨⟨rfl, fun _ ht => nomatch ht⟩, ih⟩
  | case3 name rest ih => exact ih
  | case4 t rest calls hblank ih => exact ih
  | case5 t rest calls hblank ih =>
    refine List.forall_mem_cons.mpr ⟨⟨rfl, fun t' ht' => ?_⟩, ih⟩
    obtain rfl : t = t' := BlockContent.text.inj ht'
    exact hblank
  | case6 t signature rest calls ih =>
    exact List.forall_mem_cons.mpr ⟨⟨rfl, fun _ ht => nomatch ht⟩, ih⟩
  | case7 data rest calls ih =>
    exact List.forall_mem_cons.mpr ⟨⟨rfl, fun _ ht => nomatch ht⟩, ih⟩

private theorem plain_blocksFor {message : CanonicalMessage} {inTurn : Bool} {pfx : Option Text}
    {blocks : List Block} (h : blocksFor message inTurn pfx = some blocks) :
    ∀ block ∈ blocks, (wireBlock block).Plain := by
  rw [blocksFor] at h
  split at h
  · exact absurd h.symm (Option.some_ne_none _)
  · split_ifs at h
    obtain ⟨state, -, h⟩ := Option.bind_eq_some_iff.mp h
    split_ifs at h
    obtain ⟨layout, -, h⟩ := Option.bind_eq_some_iff.mp h
    split_ifs at h
    rw [← Option.some.inj h]
    exact plain_placeCalls layout _

private theorem plain_givenBack {carryThinking carryEarlier : Bool}
    {conversation : List CanonicalMessage} {digests : List Text} {index : ℕ}
    {message : CanonicalMessage} {blocks : List ContentBlock}
    (h : givenBack carryThinking carryEarlier conversation digests index message = some blocks) :
    ∀ block ∈ blocks, block.Plain := by
  rw [givenBack] at h
  split_ifs at h
  all_goals
    obtain ⟨sent, hsent, rfl⟩ := Option.map_eq_some_iff.mp h
    rw [List.forall_mem_map]
    exact plain_blocksFor hsent

/-! ### The conversation's bodies -/

/-- The turns of a longer conversation are those of the shorter and those of what was added. -/
private theorem wireTurns_append {back : CanonicalMessage → Option (List ContentBlock)}
    {conversation more : List CanonicalMessage} {turns turns' : List WireTurn}
    (h : wireTurns (fun _ => back) conversation = .ok turns)
    (h' : wireTurns (fun _ => back) (conversation ++ more) = .ok turns') :
    turns <+: turns' := by
  obtain ⟨stretches, hstretches, rfl⟩ := wireTurns_eq_ok_iff.mp h
  obtain ⟨stretches', hstretches', rfl⟩ := wireTurns_eq_ok_iff.mp h'
  clear h h'
  induction hstretches generalizing stretches' with
  | nil => exact List.nil_prefix
  | @cons message stretch _ _ hstretch _ ih =>
    obtain ⟨stretch', rest', hhead, hrest, rfl⟩ := List.forall₂_cons_left_iff.mp hstretches'
    have hsame : stretch = stretch' := by
      rw [hstretch] at hhead
      exact Except.ok.inj hhead
    subst hsame
    rw [List.flatten_cons, List.flatten_cons]
    exact (List.prefix_append_right_inj stretch).mpr (ih rest' hrest)

section Conversation

variable {sha256 : List UInt8 → Text} {toolDocument : ToolDeclaration → Json} {maxTokens : ℤ}

private theorem extends_of_next {request request' : CanonicalRequest}
    (hsettled : Settled sha256 toolDocument request)
    (hnext : Next sha256 toolDocument maxTokens request request') {body later : Body}
    {digest digest' : Text}
    (hbody : anthropicBodyCarrying sha256 toolDocument request maxTokens true true =
      .ok (body, digest))
    (hlater : anthropicBodyCarrying sha256 toolDocument request' maxTokens true true =
      .ok (later, digest')) : later.Extends body := by
  have hsettled' := hsettled.next hnext
  obtain ⟨-, hanswer, hmore⟩ := hnext
  rename_i answer message more
  obtain ⟨rest, hpaired, hrest⟩ := paired_next request.messages hanswer.role hmore
  obtain ⟨turns, hturns, hmessages, hsystem, htools, -⟩ :=
    anthropicBodyWith_eq_ok (anthropicBodyCarrying_eq_ok hbody).1
  obtain ⟨turns', hturns', hmessages', hsystem', htools', -⟩ :=
    anthropicBodyWith_eq_ok (anthropicBodyCarrying_eq_ok hlater).1
  refine ⟨?_, htools'.trans htools.symm, ?_⟩
  · rw [messages_unmarked (fun _ _ _ => plain_givenBack) hturns hmessages,
      messages_unmarked (fun _ _ _ => plain_givenBack) hturns' hmessages']
    rw [wireTurns_of_settled hsettled] at hturns
    rw [wireTurns_of_settled hsettled', hpaired] at hturns'
    exact (wireTurns_append hturns hturns').map _
  · rw [hsystem', hsystem, hpaired, systemText_next hanswer.role hrest]
    rfl

/-- **A conversation stays in its cache.** In a conversation of any length, the body of each
request is the one before it with something added: its messages, markers apart, begin block for
block with those before, and the tools and the system prompt are the same. Every body carries at
most four markers, none on thinking, on a blank text or on a result whose content is one, and is
otherwise the body built without caching. -/
theorem body_extends {first request : CanonicalRequest} (hbegins : Begins first)
    (hrun : Conversation sha256 toolDocument maxTokens first request) :
    (∀ body digest,
      anthropicBodyCarrying sha256 toolDocument request maxTokens true true = .ok (body, digest) →
        body.WellMarked ∧
          anthropicBodyCarrying sha256 toolDocument { request with cachePrefix := false } maxTokens
            true true = .ok (body.unmarked, digest)) ∧
    ∀ next, Next sha256 toolDocument maxTokens request next → ∀ body digest later digest',
      anthropicBodyCarrying sha256 toolDocument request maxTokens true true = .ok (body, digest) →
      anthropicBodyCarrying sha256 toolDocument next maxTokens true true = .ok (later, digest') →
        later.Extends body := by
  constructor
  · intro body digest hbody
    obtain ⟨hwith, hdigest⟩ := anthropicBodyCarrying_eq_ok hbody
    obtain ⟨hmarked, hplain⟩ := wellMarked_of_body (fun _ _ _ => plain_givenBack) hwith
    refine ⟨hmarked, bind_eq_ok_iff.mpr ⟨body.unmarked, hplain, ?_⟩⟩
    rw [hdigest]
    rfl
  · intro next hnext body digest later digest' hbody hlater
    exact extends_of_next (settled_of_conversation hbegins hrun) hnext hbody hlater

end Conversation

/-! ### A turn with thinking, and the caller's next message -/

/-- SHA-256 of the histories below, told apart by their lengths. -/
private def knownDigests (bytes : List UInt8) : Text :=
  match bytes.length with
  | 100 => "2021e1605b07651425576a7db30c899faa44bf37a50cd80e7d00ae7352e5c622"
  | 132 => "6e96485ed5e6e43936d1cd2206823ca22b2475ef466df86cc6a7d55516a6c69a"
  | 192 => "ce295e774b645b1199ced2e47c52e22f477a17769bedadf51d23dcf448a0bf90"
  | 226 => "529b1f544f29decdf379f6a63954b68528a7afb8b4e3ad42170d9f29673afa52"
  | 254 => "420eb3fdc6cd07fe46a97624e3939e483dfe4dbafd41d13eed8f7a07563a1ddc"
  | _ => []

private def plainTool (declaration : ToolDeclaration) : Json :=
  .obj [("name", .str declaration.name), ("description", .str declaration.description),
    ("input_schema", declaration.parametersJsonSchema.getD .null)]

private def askedFirst : CanonicalRequest where
  model := "claude-1"
  messages := [⟨.system, [.text "Be brief."]⟩, ⟨.user, [.text "look it up"]⟩]
  tools := [{ name := "lookup", parametersJsonSchema := some (.obj [("type", .str "object")]) }]
  cachePrefix := true
  includeReasoning := true

private def thoughtAnswer : Answer :=
  .ofContent [.ofThinking "Where?" "sig", .ofText "Let me see.",
    .ofToolUse "c1" "lookup" (.obj [])]

private def answered : CanonicalMessage where
  role := .model
  parts := .text "Let me see." :: (withCarried thoughtAnswer.calls thoughtAnswer.content true
    (some "6e96485ed5e6e43936d1cd2206823ca2")).map .toolCall

private def askedNext : CanonicalRequest :=
  { askedFirst with
    messages := askedFirst.messages ++ answered ::
      [⟨.user, [.toolResult ⟨"c1", "lookup", "42", []⟩]⟩, ⟨.user, [.text "thanks"]⟩] }

private theorem exists_of_isOk {ε α : Type} {x : Except ε α} (h : x.isOk = true) :
    ∃ a, x = .ok a := by
  cases x with
  | error e => exact nomatch h
  | ok a => exact ⟨a, rfl⟩

/-- A request that asks for no thinking has a body whatever goes back. -/
theorem exists_body (given : Given) {request : CanonicalRequest} (maxTokens : ℤ)
    (hthinking : request.thinking = none)
    (hblocks : ∀ message ∈ pairedToolResults request.messages,
      ∃ blocks, contentBlocks message.parts = .ok blocks)
    (hsampling : checkSampling request = .ok ()) (hchoice : ∃ c, toolChoice request = .ok c) :
    ∃ body, anthropicBodyWith given request maxTokens = .ok body := by
  have hturn : ∀ entry ∈ (pairedToolResults request.messages).zipIdx,
      ∃ turns, wireTurn (given entry.2 entry.1) entry.1 = .ok turns := by
    intro entry hentry
    obtain ⟨blocks, hcontent⟩ := hblocks entry.1 (List.fst_mem_of_mem_zipIdx hentry)
    rw [wireTurn]
    split_ifs
    · exact ⟨_, rfl⟩
    · have hread : ∃ read, turnBlocks (given entry.2 entry.1) entry.1 = .ok read := by
        cases given entry.2 entry.1 with
        | some back => exact ⟨back, rfl⟩
        | none => exact ⟨blocks, hcontent⟩
      obtain ⟨read, hread⟩ := hread
      rw [hread]
      exact ⟨_, rfl⟩
  obtain ⟨turns, hturns⟩ := exists_mapM_ok_iff.mpr hturn
  obtain ⟨choice, hchoice⟩ := hchoice
  have hall : wireTurns given (pairedToolResults request.messages) = .ok turns.flatten :=
    bind_eq_ok_iff.mpr ⟨turns, hturns, rfl⟩
  rw [anthropicBodyWith, hall, hsampling, thinkingFields, hthinking, hchoice]
  exact ⟨_, rfl⟩

theorem body_extends_thanks :
    ∃ body digest later digest',
      anthropicBodyCarrying knownDigests plainTool askedFirst 4096 true true =
        .ok (body, digest) ∧
      anthropicBodyCarrying knownDigests plainTool askedNext 4096 true true =
        .ok (later, digest') ∧
      later.Extends body ∧ body.WellMarked := by
  have hbegins : Begins askedFirst := by
    intro message hmessage hrole
    rcases List.mem_cons.mp hmessage with rfl | hmessage
    · exact nomatch hrole
    · rw [List.mem_singleton.mp hmessage] at hrole
      exact nomatch hrole
  have hfirst : (anthropicBodyCarrying knownDigests plainTool askedFirst 4096 true true).isOk =
      true := by decide +kernel
  have hparts : (pairedToolResults askedNext.messages).all
      (fun message => (contentBlocks message.parts).isOk) = true := by decide +kernel
  have hsampling : checkSampling askedNext = .ok () := by decide +kernel
  have hchoice : (toolChoice askedNext).isOk = true := by decide +kernel
  have hmade : (madeOn knownDigests plainTool askedFirst).getLast?.getD [] =
      "6e96485ed5e6e43936d1cd2206823ca2" := by decide +kernel
  obtain ⟨⟨body, digest⟩, hbody⟩ := exists_of_isOk hfirst
  obtain ⟨later, hwith⟩ := exists_body
    (givenBack true true (pairedToolResults askedNext.messages)
      (madeOn knownDigests plainTool askedNext)) 4096 rfl
    (fun message hmessage => exists_of_isOk (List.all_eq_true.mp hparts message hmessage))
    hsampling (exists_of_isOk hchoice)
  have hlater : anthropicBodyCarrying knownDigests plainTool askedNext 4096 true true =
      .ok (later, (madeOn knownDigests plainTool askedNext).getLast?.getD []) :=
    bind_eq_ok_iff.mpr ⟨later, hwith, rfl⟩
  obtain rfl := (anthropicBodyCarrying_eq_ok hbody).2.trans hmade
  have hanswer : thoughtAnswer.Becomes true "6e96485ed5e6e43936d1cd2206823ca2" answered :=
    ⟨rfl, rfl, rfl⟩
  have hmore : ∀ m ∈ [(⟨.user, [.toolResult ⟨"c1", "lookup", "42", []⟩]⟩ : CanonicalMessage),
      ⟨.user, [.text "thanks"]⟩], m.role = .user := by decide
  have hrun : Conversation knownDigests plainTool 4096 askedFirst askedFirst := .refl
  obtain ⟨hbodies, hnext⟩ := body_extends hbegins hrun
  exact ⟨body, _, later, _, hbody, hlater,
    hnext askedNext (.next hbody hanswer hmore) body _ later _ hbody hlater,
    (hbodies body _ hbody).1⟩

end AiraGateway.Anthropic
