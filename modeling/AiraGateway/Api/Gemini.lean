import AiraGateway.Core.Canonical
import AiraGateway.Library.Except
import AiraGateway.Library.JsonText
import AiraGateway.Pipeline.StrictReaders
import Mathlib.Algebra.BigOperators.Group.List.Basic
import Mathlib.Algebra.GroupWithZero.Nat

/-!
# A Gemini conversation, canonically

Google matches a function's result to its call by name and sends no id; other dialects pair by one,
so a call that comes without gets its name and a running position (`canonicalPart`). The position
counts every part of its own turn, and of the turns before it the parts that were kept: a model's
replayed thoughts are left out.

What a part's attachments come to is a parameter.

* `callIds_nodup_iff`: the ids of a conversation without ids are distinct exactly when no call
  stands as many places further in its turn than one of the same name in a later turn as the turns
  from its own up to that one keep parts. Further turns change no id.
* `callIds_collide`: a thought in front of a call, and the same call in the next turn.
-/

namespace AiraGateway.GeminiApi

/-! ### The request -/

/-- Google's shape for an attachment. -/
structure InlineData where
  mimeType : Text
  data : Text

structure FunctionCall where
  name : Text
  args : List (Text × Json) := []
  id : Option Text := none

structure FunctionResponse where
  name : Text
  response : List (Text × Json) := []
  id : Option Text := none
  parts : List InlineData := []

/-- One part of a prompt: it carries exactly one of four shapes. -/
inductive Part
  | text (text : Text) (thought : Bool)
  | inlineData (inline : InlineData)
  | functionCall (call : FunctionCall) (thoughtSignature : Option Text)
  | functionResponse (result : FunctionResponse)

/-- The roles a turn may have; `function` is an older spelling of the user's side. -/
inductive ContentRole
  | user
  | model
  | system
  | function

def ContentRole.canonical : ContentRole → Role
  | user | function => .user
  | model => .model
  | system => .system

structure Content where
  role : Option ContentRole := none
  parts : List Part

/-- The turns of a `GenerateContentRequest`. -/
structure Conversation where
  systemInstruction : Option Content := none
  contents : List Content

section Mapping

variable {ε : Type} (attachment : InlineData → ℕ → Except ε DataPart)

/-- The id of a call: its own, or its name and its position. -/
def callId (call : FunctionCall) (index : ℕ) : Text :=
  orText call.id (call.name ++ "-" ++ numeral index)

/-- One part, or nothing for a replayed thought. -/
def canonicalPart (part : Part) (index : ℕ) : Except ε (Option CanonicalPart) :=
  match part with
  | .text text thought => .ok (if thought then none else some (.text text))
  | .functionCall call signature =>
    .ok (some (.toolCall
      { id := callId call index, name := call.name, arguments := call.args, signature }))
  | .functionResponse result => do
    let attachments ← result.parts.mapM (attachment · index)
    .ok (some (.toolResult
      { callId := orText result.id result.name, name := result.name
        content := Json.dumpsReadable (.obj result.response), attachments }))
  | .inlineData inline => do
    let part ← attachment inline index
    .ok (some (.data part))

/-- A turn's parts in their order, from a position on. -/
def canonicalParts (parts : List Part) (offset : ℕ) : Except ε (List CanonicalPart) :=
  match parts with
  | [] => .ok []
  | part :: rest => do
    let first ← canonicalPart attachment part offset
    let others ← canonicalParts rest (offset + 1)
    .ok (first.toList ++ others)

/-- The turns from a position on. One that was only the model's thoughts says nothing and is left
out. -/
def canonicalTurns (contents : List Content) (counted : ℕ) :
    Except ε (List CanonicalMessage) :=
  match contents with
  | [] => .ok []
  | content :: rest => do
    let parts ← canonicalParts attachment content.parts counted
    let messages ← canonicalTurns rest (counted + parts.length)
    if parts = [] ∧ content.parts ≠ [] then .ok messages
    else .ok ({ role := (content.role.getD .user).canonical, parts } :: messages)

/-- The messages of a request. -/
def canonicalMessages (request : Conversation) : Except ε (List CanonicalMessage) :=
  match request.systemInstruction with
  | none => canonicalTurns attachment request.contents 0
  | some instruction => do
    let parts ← canonicalParts attachment instruction.parts 0
    let messages ← canonicalTurns attachment request.contents parts.length
    .ok ({ role := .system, parts } :: messages)

end Mapping

/-- The ids of the tool calls of a conversation, in its order. -/
def callIds (messages : List CanonicalMessage) : List Text :=
  messages.flatMap fun message => message.toolCalls.map (·.id)

/-! ### Positions -/

/-- A part that is not left out. -/
def Part.kept : Part → Bool
  | .text _ thought => !thought
  | _ => true

def keptOf (content : Content) : ℕ := content.parts.countP Part.kept

/-- The turns of a request, its instruction the first. -/
def Conversation.turns (request : Conversation) : List Content :=
  request.systemInstruction.toList ++ request.contents

/-- The calls among some parts with the positions they stand at. -/
def callsAt (parts : List Part) (offset : ℕ) : List (FunctionCall × ℕ) :=
  match parts with
  | [] => []
  | .functionCall call _ :: rest => (call, offset) :: callsAt rest (offset + 1)
  | _ :: rest => callsAt rest (offset + 1)

/-- The calls of a conversation with the positions they are named by. -/
def runningCalls (turns : List Content) (counted : ℕ) : List (FunctionCall × ℕ) :=
  match turns with
  | [] => []
  | turn :: rest => callsAt turn.parts counted ++ runningCalls rest (counted + keptOf turn)

/-- A turn calls a function at a place of it. -/
def CallsAt (turn : Content) (place : ℕ) (name : Text) : Prop :=
  ∃ call signature, turn.parts[place]? = some (.functionCall call signature) ∧ call.name = name

/-- No two calls of one name in two turns stand at the same running position: the earlier one is
not as many places further in its turn as the turns from its own up to the later one keep parts. -/
def CallsApart (turns : List Content) : Prop :=
  ∀ before turn between turn' after, turns = before ++ turn :: (between ++ turn' :: after) →
    ∀ place place' name, CallsAt turn place name → CallsAt turn' place' name →
      place ≠ (((turn :: between).map keptOf).sum + place' : ℕ)

/-- No call of a conversation carries an id. -/
def WithoutIds (turns : List Content) : Prop :=
  ∀ turn ∈ turns, ∀ call signature, .functionCall call signature ∈ turn.parts →
    call.id = none ∨ call.id = some []

/-! ### The ids are the positions -/

section Ids

variable {ε : Type} {attachment : InlineData → ℕ → Except ε DataPart}

/-- The id of a call at a position. -/
def idAt (site : FunctionCall × ℕ) : Text := callId site.1 site.2

theorem canonicalPart_ok {part : Part} {index : ℕ} {result : Option CanonicalPart}
    (h : canonicalPart attachment part index = .ok result) :
    result.isSome = part.kept ∧
      (result.toList.filterMap CanonicalPart.toolCall?).map (·.id)
        = (callsAt [part] index).map idAt := by
  cases part with
  | text text thought =>
    obtain rfl : (if thought then none else some (CanonicalPart.text text)) = result :=
      Except.ok.inj h
    cases thought <;> exact ⟨rfl, rfl⟩
  | functionCall call signature =>
    obtain rfl := Except.ok.inj h
    exact ⟨rfl, rfl⟩
  | inlineData inline =>
    obtain ⟨part, -, hpart⟩ := bind_eq_ok_iff.mp h
    obtain rfl := Except.ok.inj hpart
    exact ⟨rfl, rfl⟩
  | functionResponse response =>
    obtain ⟨parts, -, hparts⟩ := bind_eq_ok_iff.mp h
    obtain rfl := Except.ok.inj hparts
    exact ⟨rfl, rfl⟩

theorem callsAt_cons (part : Part) (rest : List Part) (offset : ℕ) :
    callsAt (part :: rest) offset = callsAt [part] offset ++ callsAt rest (offset + 1) := by
  cases part <;> rfl

/-- A turn's parts: how many are kept, and what ids its calls get. -/
theorem canonicalParts_ok {parts : List Part} {offset : ℕ} {result : List CanonicalPart}
    (h : canonicalParts attachment parts offset = .ok result) :
    result.length = parts.countP Part.kept ∧
      (result.filterMap CanonicalPart.toolCall?).map (·.id)
        = (callsAt parts offset).map idAt := by
  induction parts generalizing offset result with
  | nil =>
    obtain rfl := Except.ok.inj h
    exact ⟨rfl, rfl⟩
  | cons part rest ih =>
    obtain ⟨first, hfirst, h⟩ := bind_eq_ok_iff.mp h
    obtain ⟨others, hothers, h⟩ := bind_eq_ok_iff.mp h
    obtain rfl := Except.ok.inj h
    obtain ⟨hkept, hids⟩ := canonicalPart_ok hfirst
    obtain ⟨hlength, hrest⟩ := ih hothers
    refine ⟨?_, ?_⟩
    · rw [List.length_append, hlength, List.countP_cons, ← hkept]
      cases first <;> simp [Nat.add_comm]
    · rw [List.filterMap_append, List.map_append, hids, hrest, callsAt_cons part rest,
        List.map_append]

/-- The turns' calls get their ids from their running positions. -/
theorem canonicalTurns_ok {contents : List Content} {counted : ℕ}
    {messages : List CanonicalMessage}
    (h : canonicalTurns attachment contents counted = .ok messages) :
    callIds messages = (runningCalls contents counted).map idAt := by
  induction contents generalizing counted messages with
  | nil =>
    obtain rfl := Except.ok.inj h
    rfl
  | cons content rest ih =>
    obtain ⟨parts, hparts, h⟩ := bind_eq_ok_iff.mp h
    obtain ⟨others, hothers, h⟩ := bind_eq_ok_iff.mp h
    obtain ⟨hlength, hids⟩ := canonicalParts_ok hparts
    have hrest := ih hothers
    rw [runningCalls, List.map_append, ← hids, keptOf, ← hlength, ← hrest]
    split at h
    · next hempty =>
      -- a turn of nothing but thoughts has no calls
      obtain rfl := Except.ok.inj h
      rw [hempty.1]
      rfl
    · obtain rfl := Except.ok.inj h
      rfl

theorem canonicalMessages_ok {request : Conversation} {messages : List CanonicalMessage}
    (h : canonicalMessages attachment request = .ok messages) :
    callIds messages = (runningCalls request.turns 0).map idAt := by
  rw [canonicalMessages] at h
  rw [Conversation.turns]
  cases hinstruction : request.systemInstruction with
  | none =>
    rw [hinstruction] at h
    exact canonicalTurns_ok h
  | some instruction =>
    rw [hinstruction] at h
    obtain ⟨parts, hparts, h⟩ := bind_eq_ok_iff.mp h
    obtain ⟨others, hothers, h⟩ := bind_eq_ok_iff.mp h
    obtain rfl := Except.ok.inj h
    obtain ⟨hlength, hids⟩ := canonicalParts_ok hparts
    rw [Option.toList_some, List.singleton_append, runningCalls, List.map_append, ← hids, keptOf,
      ← hlength, Nat.zero_add, ← canonicalTurns_ok hothers]
    rfl

end Ids

/-! ### Distinct positions, distinct ids -/

theorem runningCalls_append (turns more : List Content) (counted : ℕ) :
    runningCalls (turns ++ more) counted
      = runningCalls turns counted ++ runningCalls more (counted + (turns.map keptOf).sum) := by
  induction turns generalizing counted with
  | nil => rfl
  | cons turn rest ih =>
    rw [List.cons_append, runningCalls, runningCalls, ih, List.append_assoc, List.map_cons,
      List.sum_cons, Nat.add_assoc]

theorem mem_callsAt_iff {parts : List Part} {offset : ℕ} {site : FunctionCall × ℕ} :
    site ∈ callsAt parts offset ↔
      ∃ place signature, parts[place]? = some (.functionCall site.1 signature) ∧
        site.2 = offset + place := by
  induction parts generalizing offset with
  | nil => simp [callsAt]
  | cons part rest ih =>
    rw [callsAt_cons, List.mem_append, ih]
    constructor
    · rintro (hfirst | ⟨place, signature, hplace, hsite⟩)
      · cases part with
        | functionCall call signature =>
          obtain rfl := List.mem_singleton.mp hfirst
          exact ⟨0, signature, rfl, rfl⟩
        | text _ _ | inlineData _ | functionResponse _ => cases hfirst
      · exact ⟨place + 1, signature, hplace, by omega⟩
    · rintro ⟨place, signature, hplace, hsite⟩
      cases place with
      | zero =>
        obtain rfl := Option.some.inj hplace
        exact .inl (List.mem_singleton.mpr (Prod.ext rfl hsite))
      | succ place => exact .inr ⟨place, signature, hplace, by omega⟩

theorem mem_runningCalls_iff {turns : List Content} {counted : ℕ} {site : FunctionCall × ℕ} :
    site ∈ runningCalls turns counted ↔
      ∃ between turn after, turns = between ++ turn :: after ∧
        ∃ place signature, turn.parts[place]? = some (.functionCall site.1 signature) ∧
          site.2 = counted + (between.map keptOf).sum + place := by
  induction turns generalizing counted with
  | nil => simp [runningCalls]
  | cons first rest ih =>
    rw [runningCalls, List.mem_append, mem_callsAt_iff, ih]
    constructor
    · rintro (⟨place, signature, hplace, hsite⟩ |
        ⟨between, turn, after, rfl, place, signature, hplace, hsite⟩)
      · exact ⟨[], first, rest, rfl, place, signature, hplace, hsite⟩
      · refine ⟨first :: between, turn, after, rfl, place, signature, hplace, ?_⟩
        rw [hsite, List.map_cons, List.sum_cons]
        omega
    · rintro ⟨between, turn, after, heq, place, signature, hplace, hsite⟩
      cases between with
      | nil =>
        obtain ⟨rfl, rfl⟩ := List.cons.inj heq
        exact .inl ⟨place, signature, hplace, hsite⟩
      | cons other between =>
        obtain ⟨rfl, rfl⟩ := List.cons.inj heq
        refine .inr ⟨between, turn, after, rfl, place, signature, hplace, ?_⟩
        rw [hsite, List.map_cons, List.sum_cons]
        omega

/-- What a call without an id is told apart by. -/
def siteOf (site : FunctionCall × ℕ) : Text × ℕ := (site.1.name, site.2)

/-- Within a turn the positions differ. -/
theorem nodup_callsAt (parts : List Part) (offset : ℕ) :
    ((callsAt parts offset).map siteOf).Nodup := by
  induction parts generalizing offset with
  | nil => exact List.nodup_nil
  | cons part rest ih =>
    cases part with
    | functionCall call signature =>
      refine List.nodup_cons.mpr ⟨fun hmem => ?_, ih (offset + 1)⟩
      obtain ⟨site, hsite, heq⟩ := List.mem_map.mp hmem
      obtain ⟨place, -, -, hposition⟩ := mem_callsAt_iff.mp hsite
      have hsame : site.2 = offset := congrArg Prod.snd heq
      omega
    | text _ _ | inlineData _ | functionResponse _ => exact ih (offset + 1)

theorem nodup_runningCalls_iff {turns : List Content} {counted : ℕ} :
    ((runningCalls turns counted).map siteOf).Nodup ↔ CallsApart turns := by
  induction turns generalizing counted with
  | nil =>
    refine ⟨fun _ before turn between turn' after heq => ?_, fun _ => List.nodup_nil⟩
    exact absurd heq (by simp)
  | cons first rest ih =>
    rw [runningCalls, List.map_append, List.nodup_append, ih]
    constructor
    · rintro ⟨-, hrest, hdisjoint⟩ before turn between turn' after heq place place' name
        ⟨call, signature, hcall, rfl⟩ ⟨call', signature', hcall', hname⟩ hplace
      cases before with
      | nil =>
        obtain ⟨rfl, rfl⟩ := List.cons.inj heq
        refine hdisjoint (siteOf (call, counted + place)) (List.mem_map_of_mem ?_)
          (siteOf (call', counted + place)) (List.mem_map_of_mem ?_) (by simp [siteOf, hname])
        · exact mem_callsAt_iff.mpr ⟨place, signature, hcall, rfl⟩
        · refine mem_runningCalls_iff.mpr
            ⟨between, turn', after, rfl, place', signature', hcall', ?_⟩
          rw [List.map_cons, List.sum_cons] at hplace
          simp only
          omega
      | cons other before =>
        obtain ⟨-, rfl⟩ := List.cons.inj heq
        exact hrest before turn between turn' after rfl place place' call.name
          ⟨call, signature, hcall, rfl⟩ ⟨call', signature', hcall', hname⟩ hplace
    · intro hapart
      refine ⟨nodup_callsAt _ _, ?_, ?_⟩
      · intro before turn between turn' after heq
        exact hapart (first :: before) turn between turn' after (by rw [heq, List.cons_append])
      · intro site hsite site' hsite' hsame
        obtain ⟨x, hx, rfl⟩ := List.mem_map.mp hsite
        obtain ⟨y, hy, rfl⟩ := List.mem_map.mp hsite'
        obtain ⟨place, signature, hcall, hposition⟩ := mem_callsAt_iff.mp hx
        obtain ⟨between, turn', after, rfl, place', signature', hcall', hposition'⟩ :=
          mem_runningCalls_iff.mp hy
        obtain ⟨hname, hnumber⟩ := Prod.ext_iff.mp hsame
        refine hapart [] first between turn' after rfl place place' x.1.name
          ⟨x.1, signature, hcall, rfl⟩ ⟨y.1, signature', hcall', hname.symm⟩ ?_
        rw [List.map_cons, List.sum_cons]
        simp only [siteOf] at hnumber
        omega

/-! ### Numerals -/

theorem digitChar_injective {m n : ℕ} (hm : m < 10) (hn : n < 10)
    (h : m.digitChar = n.digitChar) : m = n := by
  have hdistinct : ∀ i < 10, ∀ j < 10, Nat.digitChar i = Nat.digitChar j → i = j := by decide
  exact hdistinct m hm n hn h

/-- A number is read back off its numeral. -/
theorem numeral_injective : Function.Injective numeral := by
  intro m n h
  induction m using Nat.strong_induction_on generalizing n with
  | _ m ih =>
    rw [numeral, numeral] at h
    rcases Nat.lt_or_ge m 10 with hm | hm <;> rcases Nat.lt_or_ge n 10 with hn | hn
    · rw [Nat.toDigits_of_lt_base hm, Nat.toDigits_of_lt_base hn] at h
      exact digitChar_injective hm hn (List.cons.inj h).1
    · rw [Nat.toDigits_of_lt_base hm, Nat.toDigits_of_base_le (by decide) hn] at h
      have hlength := congrArg List.length h
      have hpos : 0 < (Nat.toDigits 10 (n / 10)).length := Nat.length_toDigits_pos
      simp only [List.length_singleton, List.length_append] at hlength
      omega
    · rw [Nat.toDigits_of_base_le (by decide) hm, Nat.toDigits_of_lt_base hn] at h
      have hlength := congrArg List.length h
      have hpos : 0 < (Nat.toDigits 10 (m / 10)).length := Nat.length_toDigits_pos
      simp only [List.length_singleton, List.length_append] at hlength
      omega
    · rw [Nat.toDigits_of_base_le (by decide) hm, Nat.toDigits_of_base_le (by decide) hn] at h
      obtain ⟨hfront, hlast⟩ := List.append_inj' h rfl
      have hquotient : m / 10 = n / 10 := ih (m / 10) (by omega) hfront
      have hdigit : m % 10 = n % 10 :=
        digitChar_injective (by omega) (by omega) (List.cons.inj hlast).1
      omega

theorem hyphen_not_mem_numeral (n : ℕ) : '-' ∉ numeral n := by
  intro hmem
  have hdigit := Nat.isDigit_of_mem_toDigits (by decide) (by decide) hmem
  exact absurd hdigit (by decide)

/-- The name and the position of a call are read back off its id. -/
theorem hyphenated_injective {name name' : Text} {m n : ℕ}
    (h : name ++ "-" ++ numeral m = name' ++ "-" ++ numeral n) : name = name' ∧ m = n := by
  have hreverse : (numeral m).reverse ++ '-' :: name.reverse
      = (numeral n).reverse ++ '-' :: name'.reverse := by
    simpa using congrArg List.reverse h
  obtain ⟨hnumeral, hname⟩ := separator_inj (by simpa using hyphen_not_mem_numeral m)
    (by simpa using hyphen_not_mem_numeral n) hreverse
  exact ⟨List.reverse_injective hname, numeral_injective (List.reverse_injective hnumeral)⟩

/-! ### The ids of a conversation -/

section Conversations

variable {ε : Type} {attachment : InlineData → ℕ → Except ε DataPart} {request : Conversation}
  {messages : List CanonicalMessage}

/-- Without ids, two ids are one exactly where name and position are. -/
theorem nodup_idAt_iff {turns : List Content} (hids : WithoutIds turns) :
    ((runningCalls turns 0).map idAt).Nodup ↔ ((runningCalls turns 0).map siteOf).Nodup := by
  have hid : ∀ site ∈ runningCalls turns 0, idAt site = site.1.name ++ "-" ++ numeral site.2 := by
    intro site hsite
    obtain ⟨between, turn, after, rfl, place, signature, hcall, -⟩ :=
      mem_runningCalls_iff.mp hsite
    have hmem := List.mem_of_getElem? hcall
    rcases hids turn (by simp) _ _ hmem with h | h <;> rw [idAt, callId, h] <;> rfl
  have hmap : (runningCalls turns 0).map idAt = ((runningCalls turns 0).map siteOf).map
      fun site => site.1 ++ "-" ++ numeral site.2 := by
    rw [List.map_map]
    exact List.map_congr_left hid
  rw [hmap, List.nodup_map_iff]
  intro x y h
  obtain ⟨hname, hposition⟩ := hyphenated_injective h
  exact Prod.ext hname hposition

/-- **The ids of a conversation without ids** are distinct exactly when its calls stand apart, and
further turns change none of them. -/
theorem callIds_nodup_iff (h : canonicalMessages attachment request = .ok messages)
    (hids : WithoutIds request.turns) :
    ((callIds messages).Nodup ↔ CallsApart request.turns) ∧
      ∀ more extended,
        canonicalMessages attachment { request with contents := request.contents ++ more }
          = .ok extended → callIds messages <+: callIds extended := by
  refine ⟨?_, fun more extended hextended => ?_⟩
  · rw [canonicalMessages_ok h, nodup_idAt_iff hids, nodup_runningCalls_iff]
  · rw [canonicalMessages_ok h, canonicalMessages_ok hextended]
    have hturns : Conversation.turns { request with contents := request.contents ++ more }
        = request.turns ++ more := (List.append_assoc _ _ _).symm
    rw [hturns, runningCalls_append, List.map_append]
    exact List.prefix_append _ _

end Conversations

/-- A turn that calls a function after a text of the model's. -/
def callingTurn (thought : Bool) : Content where
  role := some .model
  parts := [.text "Let me look." thought, .functionCall { name := "lookup" } none]

def noAttachment (_ : InlineData) (_ : ℕ) : Except Unit DataPart := .error ()

/-- A turn that calls a function at once. -/
def callingAtOnce : Content where
  role := some .model
  parts := [.functionCall { name := "lookup" } none]

theorem withoutIds_calling {thought : Bool} :
    WithoutIds [callingTurn thought, callingAtOnce] := by
  intro turn hturn call signature hcall
  simp only [List.mem_cons, List.not_mem_nil, or_false] at hturn
  rcases hturn with rfl | rfl
  · simp only [callingTurn, List.mem_cons, List.not_mem_nil, or_false, reduceCtorEq,
      Part.functionCall.injEq, false_or] at hcall
    exact .inl (by rw [hcall.1])
  · simp only [callingAtOnce, List.mem_cons, List.not_mem_nil, or_false,
      Part.functionCall.injEq] at hcall
    exact .inl (by rw [hcall.1])

theorem callIds_spoken :
    ∃ messages, canonicalMessages noAttachment ⟨none, [callingTurn false, callingAtOnce]⟩
        = .ok messages ∧ (callIds messages).Nodup := by
  have hconverts : ∃ messages,
      canonicalMessages noAttachment ⟨none, [callingTurn false, callingAtOnce]⟩ = .ok messages :=
    ⟨_, rfl⟩
  obtain ⟨messages, hmessages⟩ := hconverts
  have hids : WithoutIds (Conversation.turns ⟨none, [callingTurn false, callingAtOnce]⟩) :=
    withoutIds_calling
  refine ⟨messages, hmessages, (callIds_nodup_iff hmessages hids).1.mpr ?_⟩
  intro before turn between turn' after heq place place' name hcall hcall' hplace
  have hlength := congrArg List.length heq
  have hbetween : between = [] ∧ before = [] ∧ after = [] := by
    simp only [Conversation.turns, Option.toList_none, List.nil_append, List.length_cons,
      List.length_nil, List.length_append] at hlength
    refine ⟨?_, ?_, ?_⟩ <;> exact List.length_eq_zero_iff.mp (by omega)
  obtain ⟨rfl, rfl, rfl⟩ := hbetween
  obtain ⟨rfl, hrest⟩ := List.cons.inj heq
  have hkept : keptOf (callingTurn false) = 2 := rfl
  obtain ⟨call, signature, hfound, -⟩ := hcall
  have hshort : place < 2 := (List.getElem?_eq_some_iff.mp hfound).1
  rw [List.map_singleton, List.sum_singleton, hkept] at hplace
  omega

/-- The same call twice, the first time behind a thought. -/
theorem callIds_collide :
    WithoutIds [callingTurn true, callingAtOnce] ∧
      ∃ messages, canonicalMessages noAttachment ⟨none, [callingTurn true, callingAtOnce]⟩
          = .ok messages ∧ callIds messages = ["lookup-1", "lookup-1"] :=
  ⟨withoutIds_calling, _, rfl, by decide +kernel⟩

end AiraGateway.GeminiApi
