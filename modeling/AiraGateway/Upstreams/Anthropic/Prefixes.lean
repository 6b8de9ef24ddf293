import AiraGateway.Core.Pairing
import AiraGateway.Library.Bytes
import AiraGateway.Library.JsonText
import AiraGateway.Upstreams.Dialect
import Mathlib.Data.List.Sort

/-!
# What an answer is made on

Anthropic checks a thinking block against what came before it: the system prompt, the set of tools
and every message up to it. `prefixes` states that as a digest, one before each message and a last
one for the answer. It is read of what the caller sent, so thinking blocks, cache markers, a text's
outer whitespace and the order of an object's keys are no part of it.

SHA-256 in hexadecimal and a declared function as it goes on the wire are parameters.

* **What came before decides** (`prefixes_append`): messages added to the end change no digest that
  stood before them.
-/

namespace AiraGateway

/-! ### A value in one spelling -/

/-- The order of texts by their characters. -/
def textLe : Text → Text → Bool
  | [], _ => true
  | _ :: _, [] => false
  | c :: s, d :: t => c.toNat < d.toNat || (c = d && textLe s t)

namespace Json

mutual

/-- A value with the members of each of its objects in the order of their names. -/
def sortedKeys : Json → Json
  | null => null
  | bool b => bool b
  | int n => int n
  | float t => float t
  | str t => str t
  | arr items => arr (sortedKeysItems items)
  | obj members => obj ((sortedKeysMembers members).insertionSort fun a b => textLe a.1 b.1)

def sortedKeysItems : List Json → List Json
  | [] => []
  | item :: rest => sortedKeys item :: sortedKeysItems rest

def sortedKeysMembers : List (Text × Json) → List (Text × Json)
  | [] => []
  | (name, value) :: rest => (name, sortedKeys value) :: sortedKeysMembers rest

end

end Json

/-- A value's bytes: JSON key order is no change to the vendor, so none here. -/
def encoded (value : Json) : List UInt8 := utf8Encode value.sortedKeys.dumps

/-! ### Digests -/

/-- The word a role goes under. -/
def Role.value : Role → Text
  | system => "system"
  | user => "user"
  | model => "model"

/-- How much of a digest an envelope keeps. -/
def digestLength : ℕ := 32

section Digests

variable (sha256 : List UInt8 → Text) (toolDocument : ToolDeclaration → Json)

/-- An attachment by its hash. -/
def hashed (part : DataPart) : Json :=
  .arr [.str "data", .str part.mediaType, .str (sha256 part.data)]

/-- A part as digests compare it; a blank text says nothing. -/
def saidPart : CanonicalPart → Option Json
  | .text t => if strip t = [] then none else some (.arr [.str "text", .str (strip t)])
  | .toolCall call => some (.arr [.str "call", .str call.id, .str call.name, .obj call.arguments])
  | .toolResult result =>
    some (.arr [.str "result", .str result.callId, .str result.content,
      .arr (result.attachments.map (hashed sha256))])
  | .data part => some (hashed sha256 part)

/-- One message as digests compare it. -/
def saidOf (message : CanonicalMessage) : List Json := message.parts.filterMap (saidPart sha256)

def digest (seen : List UInt8) : Text := (sha256 seen).take digestLength

/-- What has been seen once a message has: a system message is seen in the prompt. -/
def seenAfter (seen : List UInt8) (message : CanonicalMessage) : List UInt8 :=
  if message.role = .system then seen
  else seen ++ encoded (.arr [.str message.role.value, .arr (saidOf sha256 message)])

def prefixesFrom (seen : List UInt8) : List CanonicalMessage → List Text
  | [] => [digest sha256 seen]
  | message :: rest => digest sha256 seen :: prefixesFrom (seenAfter sha256 seen message) rest

/-- The system prompt and the tools, which come before every message. -/
def seenFirst (systemPrompt : Text) (tools : List ToolDeclaration) : List UInt8 :=
  encoded (.obj [("system", .str (strip systemPrompt)),
    ("tools", .arr ((tools.insertionSort fun a b => textLe a.name b.name).map toolDocument))])

/-- A digest of what comes before each message, and, last, of what an answer is made on. -/
def prefixes (conversation : List CanonicalMessage) (systemPrompt : Text)
    (tools : List ToolDeclaration) : List Text :=
  prefixesFrom sha256 (seenFirst toolDocument systemPrompt tools) conversation

private theorem length_prefixesFrom (seen : List UInt8) (conversation : List CanonicalMessage) :
    (prefixesFrom sha256 seen conversation).length = conversation.length + 1 := by
  induction conversation generalizing seen with
  | nil => rfl
  | cons message rest ih =>
    have hrest := ih (seenAfter sha256 seen message)
    rw [prefixesFrom, List.length_cons, hrest, List.length_cons]

private theorem prefixesFrom_append (seen : List UInt8) (conversation more : List CanonicalMessage)
    {index : ℕ} (h : index ≤ conversation.length) :
    (prefixesFrom sha256 seen (conversation ++ more))[index]? =
      (prefixesFrom sha256 seen conversation)[index]? := by
  induction conversation generalizing seen index with
  | nil =>
    have hzero : index = 0 := by simpa using h
    rw [hzero, List.nil_append]
    cases more <;> rfl
  | cons message rest ih =>
    cases index with
    | zero => rfl
    | succ index =>
      have hindex : index ≤ rest.length := by
        rw [List.length_cons] at h
        omega
      exact ih (seenAfter sha256 seen message) hindex

theorem length_prefixes (conversation : List CanonicalMessage) (systemPrompt : Text)
    (tools : List ToolDeclaration) :
    (prefixes sha256 toolDocument conversation systemPrompt tools).length =
      conversation.length + 1 :=
  length_prefixesFrom sha256 _ conversation

/-- **Messages added to the end** change no digest up to where they begin. -/
theorem prefixes_append (conversation more : List CanonicalMessage) (systemPrompt : Text)
    (tools : List ToolDeclaration) {index : ℕ} (h : index ≤ conversation.length) :
    (prefixes sha256 toolDocument (conversation ++ more) systemPrompt tools)[index]? =
      (prefixes sha256 toolDocument conversation systemPrompt tools)[index]? :=
  prefixesFrom_append sha256 _ conversation more h

/-- What an answer is made on is the digest before the message it becomes. -/
theorem getLast?_prefixes (conversation : List CanonicalMessage) (systemPrompt : Text)
    (tools : List ToolDeclaration) :
    (prefixes sha256 toolDocument conversation systemPrompt tools).getLast? =
      (prefixes sha256 toolDocument conversation systemPrompt tools)[conversation.length]? := by
  rw [List.getLast?_eq_getElem?, length_prefixes, Nat.add_sub_cancel]

end Digests

end AiraGateway
