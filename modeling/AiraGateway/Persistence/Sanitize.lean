import AiraGateway.Library.CodePoints
import AiraGateway.Library.Dict

/-!
# Making a payload storable

A payload is what the interpreter made of a JSON text: beside what JSON can state it may hold
numbers that are not finite and texts that cannot be encoded. Before it is stored it passes walks
that replace what a row is not to keep, or cannot: what is nested too deep, inline binary, a model's
signatures, credentials, and what the column does not take.

What comes out of the last walk has finite numbers only (`finite_storable`), and no walk after the
first one goes deeper than `maxStoredDepth` levels (`depth_withinDepth`).
-/

namespace AiraGateway.Persistence

/-! ### Payloads -/

inductive Payload
  | null
  | bool (b : Bool)
  | int (n : ℤ)
  | float (text : CodePoints)
  /-- `inf`, `-inf` or `nan`. -/
  | nonFinite (text : CodePoints)
  | str (text : CodePoints)
  | arr (items : List Payload)
  | obj (members : List (CodePoints × Payload))

/-- A dictionary comprehension: the last value of a key, in the key's first place. -/
def comprehend (members : List (CodePoints × Payload)) : List (CodePoints × Payload) :=
  members.foldl (fun dict entry => dictSet dict entry.1 entry.2) []

namespace Payload

mutual

/-- Whether every number is finite. -/
def finite : Payload → Bool
  | nonFinite _ => false
  | arr items => finiteItems items
  | obj members => finiteMembers members
  | _ => true

def finiteItems : List Payload → Bool
  | [] => true
  | item :: items => item.finite && finiteItems items

def finiteMembers : List (CodePoints × Payload) → Bool
  | [] => true
  | (_, value) :: members => value.finite && finiteMembers members

end

mutual

/-- How many containers are nested in each other, and what they hold counted as one. -/
def depth : Payload → ℕ
  | arr items => depthItems items + 1
  | obj members => depthMembers members + 1
  | _ => 1

def depthItems : List Payload → ℕ
  | [] => 0
  | item :: items => max item.depth (depthItems items)

def depthMembers : List (CodePoints × Payload) → ℕ
  | [] => 0
  | (_, value) :: members => max value.depth (depthMembers members)

end

end Payload

/-! ### Walks -/

def maxStoredDepth : ℕ := 100

/-- What stands in for a subtree too deep to walk. -/
def tooDeep : CodePoints := "<unrepresentable: nested deeper than 100 levels>"

/-- Where a payload that is not an object is kept. -/
def notAnObjectKey : CodePoints := "payload"

/-- A text without its control characters. -/
def printable (text : CodePoints) : CodePoints := text.filter fun c => 0x20 ≤ c && c ≠ 0x7F

/-- A payload with anything below some levels replaced. -/
def withinDepth : ℕ → Payload → Payload
  | 0, _ => .str tooDeep
  | limit + 1, .obj members => .obj (members.map fun entry => (entry.1, withinDepth limit entry.2))
  | limit + 1, .arr items => .arr (items.map (withinDepth limit))
  | _ + 1, value => value

/-- A payload as something a column can hold, wrapped if it is no object. -/
def asObject : Payload → Payload
  | .obj members => .obj members
  | value => .obj [(notAnObjectKey, value)]

mutual

/-- A payload whose leaves and keys are rewritten. -/
def rewrite (leaf : Payload → Payload) (key : CodePoints → CodePoints) : Payload → Payload
  | .arr items => .arr (rewriteItems leaf key items)
  | .obj members => .obj (comprehend (rewriteMembers leaf key members))
  | value => leaf value

def rewriteItems (leaf : Payload → Payload) (key : CodePoints → CodePoints) :
    List Payload → List Payload
  | [] => []
  | item :: items => rewrite leaf key item :: rewriteItems leaf key items

def rewriteMembers (leaf : Payload → Payload) (key : CodePoints → CodePoints) :
    List (CodePoints × Payload) → List (CodePoints × Payload)
  | [] => []
  | (name, value) :: members =>
    (key name, rewrite leaf key value) :: rewriteMembers leaf key members

end

/-- A text that can be encoded, or what stands in for it. -/
def storableText (text : CodePoints) : CodePoints :=
  if text.encodable then text else "<unrepresentable: unpaired surrogate>"

/-- A leaf the database can take, with what it cannot take named. -/
def storableLeaf : Payload → Payload
  | .nonFinite text =>
    .str (points "<unrepresentable: ".toList ++ text ++ points ">".toList)
  | .str text => .str (storableText text)
  | value => value

/-- A payload the database can take: keys as well as values. -/
def storable : Payload → Payload := rewrite storableLeaf storableText

/-- A payload whose texts a redactor has read; keys are structure. -/
def redact (redactText : CodePoints → CodePoints) : Payload → Payload :=
  rewrite (fun
    | .str text => .str (redactText text)
    | value => value) id

/-- The fields a signature travels in. -/
def signatureKeys : List CodePoints := ["thoughtSignature", "thought_signature"]

mutual

/-- A payload with every signature left out, at any depth. -/
def withoutModelState : Payload → Payload
  | .arr items => .arr (withoutModelStateItems items)
  | .obj members => .obj (withoutModelStateMembers members)
  | value => value

def withoutModelStateItems : List Payload → List Payload
  | [] => []
  | item :: items => withoutModelState item :: withoutModelStateItems items

def withoutModelStateMembers : List (CodePoints × Payload) → List (CodePoints × Payload)
  | [] => []
  | (name, value) :: members =>
    if name ∈ signatureKeys then withoutModelStateMembers members
    else (name, withoutModelState value) :: withoutModelStateMembers members

end

/-! ### Attachments -/

def mimeKeys : List CodePoints := ["mimeType", "mime_type"]

def inlineKeys : List CodePoints := ["inlineData", "inline_data"]

def dataKey : CodePoints := "data"

/-- An object that is inline binary: a media type and the bytes, together. -/
def inlineDatum (members : List (CodePoints × Payload)) : Bool :=
  mimeKeys.any (fun key => (dictGet members key).isSome) && (dictGet members dataKey).isSome

section Attachments

/-- Whether a value counts as there. -/
def Payload.truthy : Payload → Bool
  | .null => false
  | .bool b => b
  | .int n => n ≠ 0
  | .float text => text ≠ "0.0" && text ≠ "-0.0"
  | .nonFinite _ => true
  | .str text => text ≠ []
  | .arr items => !items.isEmpty
  | .obj members => !members.isEmpty

-- the size and the digest of what a base64 text decodes to, how long a spoken answer of a type and
-- a size is, and a value as a text
variable (measure : Option Payload → ℤ × CodePoints) (duration : CodePoints → ℤ → Option Payload)
  (spoken : Payload → CodePoints)

/-- What is stored in place of bytes. -/
def summary (raw : Option Payload) : Payload :=
  let (size, digest) := measure raw
  .obj [("kind", .str "data"), ("bytes", .int size), ("sha256", .str digest)]

/-- What is stored in place of the value of a wrapper. -/
def described (inline_ : List (CodePoints × Payload)) : Payload :=
  let named := (mimeKeys.filterMap (dictGet inline_)).find? Payload.truthy
  let mediaType := (named.map spoken).getD "unknown"
  let (size, digest) := measure (dictGet inline_ dataKey)
  let facts : List (CodePoints × Payload) :=
    [("kind", .str "data"), ("media_type", .str mediaType), ("bytes", .int size),
      ("sha256", .str digest)]
  .obj (facts ++ ((duration mediaType size).map fun seconds =>
    (("seconds" : CodePoints), seconds)).toList)

/-- The wrapper of an object, and what is wrapped. -/
def wrapper (members : List (CodePoints × Payload)) :
    Option (CodePoints × List (CodePoints × Payload)) :=
  inlineKeys.findSome? fun key =>
    match dictGet members key with
    | some (.obj inline_) => some (key, inline_)
    | _ => none

mutual

/-- A payload with inline binary replaced by its description, wherever it is. -/
def stripAttachments : Payload → Payload
  | .arr items => .arr (stripItems items)
  | .obj members =>
    if inlineDatum members then
      .obj (members.filter (fun entry => entry.1 ≠ dataKey) ++
        [(dataKey, summary measure (dictGet members dataKey))])
    else match wrapper members with
      | some (key, inline_) =>
        .obj ((stripMembers members).filter (fun entry => entry.1 ≠ key) ++
          [(key, described measure duration spoken inline_)])
      | none => .obj (stripMembers members)
  | value => value

def stripItems : List Payload → List Payload
  | [] => []
  | item :: items => stripAttachments item :: stripItems items

def stripMembers : List (CodePoints × Payload) → List (CodePoints × Payload)
  | [] => []
  | (name, value) :: members => (name, stripAttachments value) :: stripMembers members

end

end Attachments

/-! ### What comes out -/

namespace Payload

theorem finiteItems_eq_true_iff {items : List Payload} :
    finiteItems items = true ↔ ∀ item ∈ items, item.finite = true := by
  induction items with
  | nil => simp [finiteItems]
  | cons item items ih => simp [finiteItems, ih]

theorem finiteMembers_eq_true_iff {members : List (CodePoints × Payload)} :
    finiteMembers members = true ↔ ∀ entry ∈ members, entry.2.finite = true := by
  induction members with
  | nil => simp [finiteMembers]
  | cons entry members ih => simp [finiteMembers, ih]

end Payload

/-- Whatever holds of the values of a dictionary and of one that is set holds of all. -/
theorem forall_values_dictSet {P : Payload → Prop} {dict : List (CodePoints × Payload)}
    {key : CodePoints} {value : Payload} (h : ∀ entry ∈ dict, P entry.2) (hvalue : P value) :
    ∀ entry ∈ dictSet dict key value, P entry.2 := by
  intro entry hentry
  unfold dictSet at hentry
  split_ifs at hentry
  · obtain ⟨old, hold, rfl⟩ := List.mem_map.mp hentry
    split_ifs
    · exact hvalue
    · exact h old hold
  · obtain hold | hnew := List.mem_append.mp hentry
    · exact h entry hold
    · obtain rfl := List.mem_singleton.mp hnew
      exact hvalue

theorem forall_values_comprehend {P : Payload → Prop} {members : List (CodePoints × Payload)}
    (h : ∀ entry ∈ members, P entry.2) : ∀ entry ∈ comprehend members, P entry.2 := by
  have hfold : ∀ (members dict : List (CodePoints × Payload)), (∀ entry ∈ members, P entry.2) →
      (∀ entry ∈ dict, P entry.2) →
        ∀ entry ∈ members.foldl (fun dict entry => dictSet dict entry.1 entry.2) dict,
          P entry.2 := by
    intro members
    induction members with
    | nil => exact fun _ _ hdict => hdict
    | cons entry members ih =>
      intro dict hmembers hdict
      exact ih _ (fun e he => hmembers e (List.mem_cons_of_mem _ he))
        (forall_values_dictSet hdict (hmembers entry (List.mem_cons_self ..)))
  exact hfold members [] h (by simp)

mutual

/-- A walk that leaves no leaf with a number that is not finite leaves none anywhere. -/
theorem finite_rewrite {leaf : Payload → Payload} {key : CodePoints → CodePoints}
    (hleaf : ∀ value, (∀ items, value ≠ .arr items) → (∀ members, value ≠ .obj members) →
      (leaf value).finite = true) : (value : Payload) → (rewrite leaf key value).finite = true
  | .arr items => by
    rw [rewrite, Payload.finite]
    exact finiteItems_rewrite hleaf items
  | .obj members => by
    rw [rewrite, Payload.finite, Payload.finiteMembers_eq_true_iff]
    exact forall_values_comprehend (P := fun value => value.finite = true)
      (Payload.finiteMembers_eq_true_iff.mp (finiteMembers_rewrite hleaf members))
  | .null => hleaf _ (by simp) (by simp)
  | .bool _ => hleaf _ (by simp) (by simp)
  | .int _ => hleaf _ (by simp) (by simp)
  | .float _ => hleaf _ (by simp) (by simp)
  | .nonFinite _ => hleaf _ (by simp) (by simp)
  | .str _ => hleaf _ (by simp) (by simp)

theorem finiteItems_rewrite {leaf : Payload → Payload} {key : CodePoints → CodePoints}
    (hleaf : ∀ value, (∀ items, value ≠ .arr items) → (∀ members, value ≠ .obj members) →
      (leaf value).finite = true) :
    (items : List Payload) → Payload.finiteItems (rewriteItems leaf key items) = true
  | [] => rfl
  | item :: items => by
    rw [rewriteItems, Payload.finiteItems, finite_rewrite hleaf item,
      finiteItems_rewrite hleaf items]
    rfl

theorem finiteMembers_rewrite {leaf : Payload → Payload} {key : CodePoints → CodePoints}
    (hleaf : ∀ value, (∀ items, value ≠ .arr items) → (∀ members, value ≠ .obj members) →
      (leaf value).finite = true) : (members : List (CodePoints × Payload)) →
        Payload.finiteMembers (rewriteMembers leaf key members) = true
  | [] => rfl
  | (name, value) :: members => by
    rw [rewriteMembers, Payload.finiteMembers, finite_rewrite hleaf value,
      finiteMembers_rewrite hleaf members]
    rfl

end

/-- **What is stored has finite numbers only**. -/
theorem finite_storable (value : Payload) : (storable value).finite = true := by
  refine finite_rewrite ?_ value
  intro value harr hobj
  cases value with
  | arr items => exact absurd rfl (harr items)
  | obj members => exact absurd rfl (hobj members)
  | null | bool | int | float | nonFinite | str => rfl

theorem finite_asObject {value : Payload} (h : value.finite = true) :
    (asObject value).finite = true := by
  have hwrapped : (Payload.obj [(notAnObjectKey, value)]).finite = true := by
    simp [Payload.finite, Payload.finiteMembers, h]
  cases value with
  | obj members => exact h
  | null | bool | int | float | nonFinite | str | arr => exact hwrapped

/-- **No walk goes too deep**: whatever a caller or an upstream sent, at most `maxStoredDepth`
levels are left to the walks after the first. -/
theorem depth_withinDepth (limit : ℕ) (value : Payload) :
    (withinDepth limit value).depth ≤ limit + 1 := by
  induction limit generalizing value with
  | zero => exact le_refl 1
  | succ limit ih =>
    have hitems : ∀ items : List Payload,
        Payload.depthItems (items.map (withinDepth limit)) ≤ limit + 1 := by
      intro items
      induction items with
      | nil => exact Nat.zero_le _
      | cons item items ihItems => exact max_le (ih item) ihItems
    have hmembers : ∀ members : List (CodePoints × Payload), Payload.depthMembers
        (members.map fun entry => (entry.1, withinDepth limit entry.2)) ≤ limit + 1 := by
      intro members
      induction members with
      | nil => exact Nat.zero_le _
      | cons entry members ihMembers => exact max_le (ih entry.2) ihMembers
    cases value with
    | arr items => exact Nat.succ_le_succ (hitems items)
    | obj members => exact Nat.succ_le_succ (hmembers members)
    | null | bool | int | float | nonFinite | str => exact Nat.succ_le_succ (Nat.zero_le _)

end AiraGateway.Persistence
