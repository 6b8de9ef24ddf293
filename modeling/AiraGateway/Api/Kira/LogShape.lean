import AiraGateway.Persistence.Sanitize
import AiraGateway.Pipeline.StrictReaders

/-!
# What a refused body was, for its log line

The shape of a body that was refused goes to the log, where no control on stored content reaches. A
walk keeps a name where the contract defines one or where the name can be repeated, walks only into
the objects a request model defines, and says a kind and a size of every other value (`held`). All
walks share one budget of entries.

* **The shape tells only that** (`Tells`): at its place, every value stands as its kind and size or
  as the entries of it that were shown, with how many were not.
* **What is described is not read** (`Alike`): bodies that differ only in values no request model
  walks into, kind and size apart, have one shape.
-/

namespace AiraGateway.Kira.LogShape

open Persistence (Payload)

/-! ### The request models -/

inductive RequestModel
  | requestContent
  | conversationContent
  | toolSpec
  | thinkingSetting
  | chatRequest
  | embeddingRequest
  | rerankRecordIn
  | rerankRequest
  deriving DecidableEq

/-- What a field is annotated with: a request model, or something made of arguments. -/
inductive FieldType
  | model (model : RequestModel)
  | of (arguments : List FieldType)

namespace FieldType

/-- A class that is no request model, `Any`, `None` or a word of a literal: none has arguments. -/
def plain : FieldType := of []

def optional (type : FieldType) : FieldType := of [type, plain]

def list (type : FieldType) : FieldType := of [type]

/-- A plain mapping. -/
def dict : FieldType := of [plain, plain]

end FieldType

structure Field where
  name : CodePoints
  annotated : FieldType
  /-- The second spelling that is accepted. -/
  other : Option CodePoints := none

open FieldType in
/-- The fields of a model, as it declares them. -/
def RequestModel.fields : RequestModel → List Field
  | requestContent => [⟨"parts", list dict, none⟩]
  | conversationContent =>
    [⟨"content", .model requestContent, none⟩, ⟨"role", of [plain, plain], none⟩]
  | toolSpec =>
    [⟨"type", of [plain], none⟩, ⟨"name", plain, none⟩, ⟨"description", plain, none⟩,
      ⟨"parameters", dict, none⟩]
  | thinkingSetting => [⟨"mode", plain, none⟩, ⟨"tokens", optional plain, none⟩]
  | chatRequest =>
    [⟨"request", .model requestContent, none⟩,
      ⟨"model_id", plain, none⟩,
      ⟨"system_instruction", optional (.model requestContent), none⟩,
      ⟨"conversation_history", optional (list (.model conversationContent)), none⟩,
      ⟨"max_tokens", optional plain, some "maxTokens"⟩,
      ⟨"temperature", plain, none⟩,
      ⟨"thinking", optional (.model thinkingSetting), none⟩,
      ⟨"response_schema", optional dict, some "responseSchema"⟩,
      ⟨"tools", optional (list (.model toolSpec)), none⟩]
  | embeddingRequest =>
    [⟨"text", of [plain, list plain], none⟩, ⟨"model_id", plain, none⟩,
      ⟨"task_type", optional plain, none⟩]
  | rerankRecordIn => [⟨"id", plain, none⟩, ⟨"title", plain, none⟩, ⟨"content", plain, none⟩]
  | rerankRequest =>
    [⟨"model_id", plain, none⟩, ⟨"query", plain, none⟩,
      ⟨"records", list (.model rerankRecordIn), none⟩]

/-- The model each operation's body is parsed as. -/
def requests (operation : Text) : Option RequestModel :=
  if operation = "chat" ∨ operation = "streaming-chat" then some .chatRequest
  else if operation = "embed" then some .embeddingRequest
  else if operation = "rerank" then some .rerankRequest
  else none

/-! ### What a field holds -/

/-- A request model to walk into, the parts of a content, or a value that is described. -/
inductive Holds
  | model (model : RequestModel)
  | parts
  | value

mutual

/-- The request model a field's annotation holds, itself or in its arguments. -/
def modelIn : FieldType → Option RequestModel
  | .model model => some model
  | .of arguments => modelInAny arguments

def modelInAny : List FieldType → Option RequestModel
  | [] => none
  | argument :: arguments => modelIn argument <|> modelInAny arguments

end

/-- What a field of a model holds. -/
def Field.holds (model : RequestModel) (field : Field) : Holds :=
  if model = .requestContent ∧ field.name = "parts" then .parts
  else
    match modelIn field.annotated with
    | some model => .model model
    | none => .value

/-- Every name a model accepts, and what each holds. -/
def fieldsOf (model : RequestModel) : List (CodePoints × Holds) :=
  model.fields.foldl (fun known field =>
    let known := dictSet known field.name (field.holds model)
    match field.other with
    | none | some [] => known
    | some other => dictSet known other (field.holds model)) []

def partFields : List CodePoints :=
  ["type", "text", "mime_type", "mimeType", "data", "id", "name", "arguments", "opaque_metadata",
    "call_id", "result", "error"]

/-- A part's names, each holding a value. -/
def partNames : List (CodePoints × Holds) := partFields.map fun name => (name, .value)

/-! ### Names and values -/

/-- The characters of a name that may be repeated. -/
def nameCharacter (c : ℕ) : Bool :=
  (0x41 ≤ c && c ≤ 0x5A) || (0x61 ≤ c && c ≤ 0x7A) || (0x30 ≤ c && c ≤ 0x39) ||
    c ∈ ("_.$@-" : CodePoints)

/-- Whether a field name the caller chose may be repeated. -/
def isNameable (name : CodePoints) : Bool :=
  name.all nameCharacter && 1 ≤ name.length && name.length ≤ 64

/-- A kind with a size. -/
def sized (kind : CodePoints) (size : ℕ) : CodePoints :=
  kind ++ points ("(".toList ++ numeral size ++ ")".toList)

/-- A value by its kind and size. -/
def described : Payload → CodePoints
  | .obj members => sized "object" members.length
  | .arr items => sized "list" items.length
  | .str text => sized "str" text.length
  | .bool _ => "bool"
  | .null => "null"
  | .int _ | .float _ | .nonFinite _ => "number"

/-- A count of what is hidden. -/
def more (hidden : ℕ) : CodePoints := points (numeral hidden ++ " more".toList)

/-- The mark for hidden entries, which is no name that may be repeated. -/
def hiddenMark : CodePoints := "…"

/-! ### The walk -/

inductive Shape
  | text (text : CodePoints)
  | arr (items : List Shape)
  | obj (members : List (CodePoints × Shape))

def shapeEntries : ℕ := 256

/-- How many entries may still be visited, and how many were. -/
structure Budget where
  remaining : ℕ
  visited : ℕ

def Budget.visit (budget : Budget) : Budget := ⟨budget.remaining - 1, budget.visited + 1⟩

/-- An object's shape: the entries shown and, if any are hidden, how many. -/
def shownObject (shown : List (CodePoints × Shape)) (hidden : ℕ) : Shape :=
  .obj (if hidden = 0 then shown else shown ++ [(hiddenMark, .text (more hidden))])

/-- A list's shape, likewise. -/
def shownList (shown : List Shape) (hidden : ℕ) : Shape :=
  .arr (if hidden = 0 then shown else shown ++ [.text (hiddenMark ++ points [' '] ++ more hidden)])

mutual

/-- The entries of an object that are shown, and how many are hidden. The names of an object are
distinct, so each entry that is shown is a new one. -/
def mappingEntries (known : List (CodePoints × Holds)) (walk : Bool) :
    List (CodePoints × Payload) → Budget → (List (CodePoints × Shape) × ℕ) × Budget
  | [], budget => (([], 0), budget)
  | (name, item) :: members, budget =>
    if budget.remaining = 0 then (([], members.length + 1), budget)
    else if (dictGet known name).isNone && !isNameable name then
      let (rest, budget) := mappingEntries known walk members budget.visit
      ((rest.1, rest.2 + 1), budget)
    else
      let (shape, budget) :=
        if walk then held ((dictGet known name).getD .value) item budget.visit
        else (.text (described item), budget.visit)
      let (rest, budget) := mappingEntries known walk members budget
      (((name, shape) :: rest.1, rest.2), budget)

/-- A value where an object is walked whose names are known. -/
def mapping (known : List (CodePoints × Holds)) (walk : Bool) : Payload → Budget → Shape × Budget
  | .obj members, budget =>
    let (entries, budget) := mappingEntries known walk members budget
    (shownObject entries.1 entries.2, budget)
  | value, budget => (.text (described value), budget)

/-- A list's entries, each an object to walk. -/
def entries (known : List (CodePoints × Holds)) (walk : Bool) :
    List Payload → Budget → (List Shape × ℕ) × Budget
  | [], budget => (([], 0), budget)
  | item :: items, budget =>
    if budget.remaining = 0 then (([], items.length + 1), budget)
    else
      let (shape, budget) := mapping known walk item budget.visit
      let (rest, budget) := entries known walk items budget
      ((shape :: rest.1, rest.2), budget)

/-- A field's value. -/
def held : Holds → Payload → Budget → Shape × Budget
  | .parts, .arr items, budget =>
    let (entries, budget) := entries partNames false items budget
    (shownList entries.1 entries.2, budget)
  | .model model, .arr items, budget =>
    let (entries, budget) := entries (fieldsOf model) true items budget
    (shownList entries.1 entries.2, budget)
  -- as `mapping` walks it
  | .model model, .obj members, budget =>
    let (entries, budget) := mappingEntries (fieldsOf model) true members budget
    (shownObject entries.1 entries.2, budget)
  | _, value, budget => (.text (described value), budget)

end

/-- A body with every value replaced by its kind and size. -/
def bodyShape (body : Payload) (operation : Text) : Shape × Budget :=
  let budget : Budget := ⟨shapeEntries, 0⟩
  match requests operation with
  | none => (.text (described body), budget)
  | some model => mapping (fieldsOf model) true body budget

/-! ### Places -/

/-- Where a value stands: as an object with names that are known, or under a field. -/
inductive Place
  | mapping (known : List (CodePoints × Holds)) (walk : Bool)
  | held (holds : Holds)

namespace Place

/-- The body's place. -/
def ofBody (operation : Text) : Place :=
  match requests operation with
  | none => held .value
  | some model => mapping (fieldsOf model) true

/-- How an object is walked at a place, if it is: the names that are known there, and whether what
they hold is walked. -/
def object : Place → Option (List (CodePoints × Holds) × Bool)
  | mapping known walk => some (known, walk)
  | held (.model model) => some (fieldsOf model, true)
  | held .parts | held .value => none

/-- How the entries of a list are walked at a place, if they are. -/
def list : Place → Option (List (CodePoints × Holds) × Bool)
  | held (.model model) => some (fieldsOf model, true)
  | held .parts => some (partNames, false)
  | mapping .. | held .value => none

/-- Whether a value is walked at a place, and not described. -/
def walks (place : Place) : Payload → Bool
  | .obj _ => place.object.isSome
  | .arr _ => place.list.isSome
  | _ => false

/-- The place of an entry's value. -/
def entry (known : List (CodePoints × Holds)) (walk : Bool) (name : CodePoints) : Place :=
  held (if walk then (dictGet known name).getD .value else .value)

/-- What is made of a value at a place. -/
def shape : Place → Payload → Budget → Shape × Budget
  | mapping known walk, value, budget => LogShape.mapping known walk value budget
  | held holds, value, budget => LogShape.held holds value budget

variable {place : Place} {known : List (CodePoints × Holds)} {walk : Bool}

theorem shape_ofBody (body : Payload) (operation : Text) :
    (ofBody operation).shape body ⟨shapeEntries, 0⟩ = bodyShape body operation := by
  rw [ofBody, bodyShape]
  cases requests operation with
  | none => cases body <;> rfl
  | some model => rfl

theorem shape_obj (h : place.object = some (known, walk)) (members : List (CodePoints × Payload))
    (budget : Budget) :
    place.shape (.obj members) budget =
      (shownObject (mappingEntries known walk members budget).1.1
        (mappingEntries known walk members budget).1.2,
        (mappingEntries known walk members budget).2) := by
  match place, h with
  | mapping _ _, h =>
    obtain ⟨rfl, rfl⟩ := Prod.mk.inj (Option.some.inj h)
    rw [shape, LogShape.mapping]
  | held (.model _), h =>
    obtain ⟨rfl, rfl⟩ := Prod.mk.inj (Option.some.inj h)
    rw [shape, LogShape.held]

theorem shape_arr (h : place.list = some (known, walk)) (items : List Payload) (budget : Budget) :
    place.shape (.arr items) budget =
      (shownList (entries known walk items budget).1.1 (entries known walk items budget).1.2,
        (entries known walk items budget).2) := by
  match place, h with
  | held (.model _), h =>
    obtain ⟨rfl, rfl⟩ := Prod.mk.inj (Option.some.inj h)
    rw [shape, LogShape.held]
  | held .parts, h =>
    obtain ⟨rfl, rfl⟩ := Prod.mk.inj (Option.some.inj h)
    rw [shape, LogShape.held]

/-- What is not walked is described. -/
theorem shape_of_not_walks {value : Payload} (h : place.walks value = false) (budget : Budget) :
    place.shape value budget = (.text (described value), budget) := by
  match place with
  | mapping _ _ =>
    cases value with
    | obj => exact absurd h Bool.true_eq_false.mp
    | arr | null | bool | int | float | nonFinite | str => rfl
  | held .value => cases value <;> rfl
  | held .parts =>
    cases value with
    | arr => exact absurd h Bool.true_eq_false.mp
    | obj | null | bool | int | float | nonFinite | str => rfl
  | held (.model _) =>
    cases value with
    | obj | arr => exact absurd h Bool.true_eq_false.mp
    | null | bool | int | float | nonFinite | str => rfl

/-- An entry that is shown is walked at its own place. -/
theorem shape_entry (name : CodePoints) (item : Payload) (budget : Budget) :
    (entry known walk name).shape item budget =
      if walk then LogShape.held ((dictGet known name).getD .value) item budget
      else (.text (described item), budget) := by
  cases walk with
  | true => rfl
  | false => exact shape_of_not_walks (by cases item <;> rfl) budget

end Place

/-- An entry whose name cannot be repeated is hidden; another one is shown as what stands at its
place. -/
theorem mappingEntries_cons (known : List (CodePoints × Holds)) (walk : Bool) (name : CodePoints)
    (item : Payload) (members : List (CodePoints × Payload)) {budget : Budget}
    (h : budget.remaining ≠ 0) :
    mappingEntries known walk ((name, item) :: members) budget =
      if (dictGet known name).isNone && !isNameable name then
        (((mappingEntries known walk members budget.visit).1.1,
          (mappingEntries known walk members budget.visit).1.2 + 1),
          (mappingEntries known walk members budget.visit).2)
      else
        let shown := (Place.entry known walk name).shape item budget.visit
        (((name, shown.1) :: (mappingEntries known walk members shown.2).1.1,
          (mappingEntries known walk members shown.2).1.2),
          (mappingEntries known walk members shown.2).2) := by
  rw [mappingEntries, if_neg h, Place.shape_entry]

theorem entries_cons (known : List (CodePoints × Holds)) (walk : Bool) (item : Payload)
    (items : List Payload) {budget : Budget} (h : budget.remaining ≠ 0) :
    entries known walk (item :: items) budget =
      let shown := (Place.mapping known walk).shape item budget.visit
      ((shown.1 :: (entries known walk items shown.2).1.1, (entries known walk items shown.2).1.2),
        (entries known walk items shown.2).2) := by
  rw [entries, if_neg h]
  rfl

/-! ### What a shape tells -/

mutual

/-- A shape tells no more of a value than its place lets it. -/
inductive Tells : Place → Payload → Shape → Prop
  /-- A value that is not walked is told by its kind and size. -/
  | described {place value} (hwalks : place.walks value = false) :
    Tells place value (.text (described value))
  /-- Of an object some entries are told, in order, and how many are not. -/
  | object {place known walk members taken shown hidden}
    (hplace : place.object = some (known, walk)) (htaken : List.Sublist taken members)
    (htold : EntriesTold known walk taken shown)
    (hcount : shown.length + hidden = members.length) :
    Tells place (.obj members) (shownObject shown hidden)
  /-- Of a list the first entries are told, and how many follow. -/
  | list {place known walk items taken shown hidden}
    (hplace : place.list = some (known, walk)) (htaken : taken <+: items)
    (htold : ItemsTold known walk taken shown)
    (hcount : shown.length + hidden = items.length) :
    Tells place (.arr items) (shownList shown hidden)

/-- Each entry stands under its name, which is known at its place or may be repeated. -/
inductive EntriesTold : List (CodePoints × Holds) → Bool → List (CodePoints × Payload) →
    List (CodePoints × Shape) → Prop
  | nil {known walk} : EntriesTold known walk [] []
  | cons {known walk name item shape members shown}
    (hname : (dictGet known name).isSome = true ∨ isNameable name = true)
    (htells : Tells (.entry known walk name) item shape)
    (htold : EntriesTold known walk members shown) :
    EntriesTold known walk ((name, item) :: members) ((name, shape) :: shown)

inductive ItemsTold : List (CodePoints × Holds) → Bool → List Payload → List Shape → Prop
  | nil {known walk} : ItemsTold known walk [] []
  | cons {known walk item shape items shown} (htells : Tells (.mapping known walk) item shape)
    (htold : ItemsTold known walk items shown) :
    ItemsTold known walk (item :: items) (shape :: shown)

end

mutual

theorem tells_shape : (value : Payload) → ∀ (place : Place) (budget : Budget),
    Tells place value (place.shape value budget).1
  | .obj members => by
    intro place budget
    cases h : place.object with
    | none =>
      have hwalks : place.walks (.obj members) = false := by rw [Place.walks, h]; rfl
      rw [Place.shape_of_not_walks hwalks]
      exact .described hwalks
    | some walked =>
      obtain ⟨taken, htaken, htold, hcount⟩ := told_mappingEntries members walked.1 walked.2 budget
      rw [Place.shape_obj h]
      exact .object h htaken htold hcount
  | .arr items => by
    intro place budget
    cases h : place.list with
    | none =>
      have hwalks : place.walks (.arr items) = false := by rw [Place.walks, h]; rfl
      rw [Place.shape_of_not_walks hwalks]
      exact .described hwalks
    | some walked =>
      obtain ⟨taken, htaken, htold, hcount⟩ := told_entries items walked.1 walked.2 budget
      rw [Place.shape_arr h]
      exact .list h htaken htold hcount
  | .null | .bool _ | .int _ | .float _ | .nonFinite _ | .str _ => by
    intro place budget
    rw [Place.shape_of_not_walks rfl]
    exact .described rfl

theorem told_mappingEntries : (members : List (CodePoints × Payload)) →
    ∀ (known : List (CodePoints × Holds)) (walk : Bool) (budget : Budget),
      ∃ taken, List.Sublist taken members ∧
        EntriesTold known walk taken (mappingEntries known walk members budget).1.1 ∧
        (mappingEntries known walk members budget).1.1.length +
          (mappingEntries known walk members budget).1.2 = members.length
  | [] => fun _ _ _ => ⟨[], .slnil, .nil, rfl⟩
  | (name, item) :: members => by
    intro known walk budget
    by_cases hspent : budget.remaining = 0
    · rw [mappingEntries, if_pos hspent]
      exact ⟨[], List.nil_sublist _, .nil, Nat.zero_add _⟩
    · rw [mappingEntries_cons known walk name item members hspent]
      split_ifs with hhidden
      · obtain ⟨taken, htaken, htold, hcount⟩ :=
          told_mappingEntries members known walk budget.visit
        refine ⟨taken, htaken.cons _, htold, ?_⟩
        rw [List.length_cons, ← hcount, Nat.add_assoc]
      · have htells := tells_shape item (.entry known walk name) budget.visit
        obtain ⟨taken, htaken, htold, hcount⟩ := told_mappingEntries members known walk
          ((Place.entry known walk name).shape item budget.visit).2
        refine ⟨(name, item) :: taken, htaken.cons_cons _, .cons ?_ htells htold, ?_⟩
        · rw [Bool.and_eq_true, Bool.not_eq_true', not_and_or, Bool.not_eq_true,
            Bool.not_eq_false, Option.isNone_eq_false_iff] at hhidden
          exact hhidden
        · rw [List.length_cons, List.length_cons, ← hcount]
          exact Nat.add_right_comm _ _ _

theorem told_entries : (items : List Payload) →
    ∀ (known : List (CodePoints × Holds)) (walk : Bool) (budget : Budget),
      ∃ taken, taken <+: items ∧
        ItemsTold known walk taken (entries known walk items budget).1.1 ∧
        (entries known walk items budget).1.1.length + (entries known walk items budget).1.2 =
          items.length
  | [] => fun _ _ _ => ⟨[], List.prefix_rfl, .nil, rfl⟩
  | item :: items => by
    intro known walk budget
    by_cases hspent : budget.remaining = 0
    · rw [entries, if_pos hspent]
      exact ⟨[], List.nil_prefix, .nil, Nat.zero_add _⟩
    · rw [entries_cons known walk item items hspent]
      have htells := tells_shape item (.mapping known walk) budget.visit
      obtain ⟨taken, htaken, htold, hcount⟩ := told_entries items known walk
        ((Place.mapping known walk).shape item budget.visit).2
      refine ⟨item :: taken, List.cons_prefix_cons.mpr ⟨rfl, htaken⟩, .cons htells htold, ?_⟩
      rw [List.length_cons, List.length_cons, ← hcount]
      exact Nat.add_right_comm _ _ _

end

/-! ### The texts of a shape -/

mutual

/-- The texts at the values' places of a shape. -/
def Shape.texts : Shape → List CodePoints
  | .text text => [text]
  | .arr items => textsOfItems items
  | .obj members => textsOfMembers members

def textsOfItems : List Shape → List CodePoints
  | [] => []
  | item :: items => item.texts ++ textsOfItems items

def textsOfMembers : List (CodePoints × Shape) → List CodePoints
  | [] => []
  | (_, value) :: members => value.texts ++ textsOfMembers members

end

/-- A kind, with a size where the kind has one, or a count of what is hidden. -/
inductive IsTold : CodePoints → Prop
  | sized (kind : CodePoints) (size : ℕ)
    (h : kind ∈ (["object", "list", "str"] : List CodePoints)) : IsTold (sized kind size)
  | kind (kind : CodePoints) (h : kind ∈ (["bool", "null", "number"] : List CodePoints)) :
    IsTold kind
  | moreEntries (hidden : ℕ) : IsTold (more hidden)
  | moreItems (hidden : ℕ) : IsTold (hiddenMark ++ points [' '] ++ more hidden)

theorem isTold_described (value : Payload) : IsTold (described value) := by
  cases value with
  | obj members => exact .sized _ _ List.mem_cons_self
  | arr items => exact .sized _ _ (List.mem_cons_of_mem _ List.mem_cons_self)
  | str text =>
    exact .sized _ _ (List.mem_cons_of_mem _ (List.mem_cons_of_mem _ List.mem_cons_self))
  | bool => exact .kind _ List.mem_cons_self
  | null => exact .kind _ (List.mem_cons_of_mem _ List.mem_cons_self)
  | int | float | nonFinite =>
    exact .kind _ (List.mem_cons_of_mem _ (List.mem_cons_of_mem _ List.mem_cons_self))

theorem textsOfItems_append (items more : List Shape) :
    textsOfItems (items ++ more) = textsOfItems items ++ textsOfItems more := by
  induction items with
  | nil => rfl
  | cons item items ih => rw [List.cons_append, textsOfItems, textsOfItems, ih, List.append_assoc]

theorem textsOfMembers_append (members more : List (CodePoints × Shape)) :
    textsOfMembers (members ++ more) = textsOfMembers members ++ textsOfMembers more := by
  induction members with
  | nil => rfl
  | cons entry members ih =>
    rw [List.cons_append, textsOfMembers, textsOfMembers, ih, List.append_assoc]

mutual

theorem Tells.texts_told {place : Place} {value : Payload} {shape : Shape} :
    Tells place value shape → ∀ t ∈ shape.texts, IsTold t
  | .described _ => by
    intro t ht
    rw [Shape.texts, List.mem_singleton] at ht
    rw [ht]
    exact isTold_described _
  | .object _ _ htold _ => by
    intro t ht
    rw [shownObject, Shape.texts] at ht
    split_ifs at ht
    · exact htold.texts_told t ht
    · rw [textsOfMembers_append, List.mem_append] at ht
      obtain ht | ht := ht
      · exact htold.texts_told t ht
      · obtain rfl := List.mem_singleton.mp ht
        exact .moreEntries _
  | .list _ _ htold _ => by
    intro t ht
    rw [shownList, Shape.texts] at ht
    split_ifs at ht
    · exact htold.texts_told t ht
    · rw [textsOfItems_append, List.mem_append] at ht
      obtain ht | ht := ht
      · exact htold.texts_told t ht
      · obtain rfl := List.mem_singleton.mp ht
        exact .moreItems _

theorem EntriesTold.texts_told {known : List (CodePoints × Holds)} {walk : Bool}
    {members : List (CodePoints × Payload)} {shown : List (CodePoints × Shape)} :
    EntriesTold known walk members shown → ∀ t ∈ textsOfMembers shown, IsTold t
  | .nil => fun _ ht => absurd ht List.not_mem_nil
  | .cons _ htells htold => by
    intro t ht
    rw [textsOfMembers, List.mem_append] at ht
    exact ht.elim (htells.texts_told t) (htold.texts_told t)

theorem ItemsTold.texts_told {known : List (CodePoints × Holds)} {walk : Bool}
    {items : List Payload} {shown : List Shape} :
    ItemsTold known walk items shown → ∀ t ∈ textsOfItems shown, IsTold t
  | .nil => fun _ ht => absurd ht List.not_mem_nil
  | .cons htells htold => by
    intro t ht
    rw [textsOfItems, List.mem_append] at ht
    exact ht.elim (htells.texts_told t) (htold.texts_told t)

end

/-! ### One budget -/

/-- How many entries there were to visit. -/
def Budget.total (budget : Budget) : ℕ := budget.remaining + budget.visited

theorem Budget.total_visit {budget : Budget} (h : budget.remaining ≠ 0) :
    budget.visit.total = budget.total := by
  have hone : 1 ≤ budget.remaining := Nat.one_le_iff_ne_zero.mpr h
  calc budget.remaining - 1 + (budget.visited + 1)
      = budget.remaining - 1 + 1 + budget.visited := by omega
    _ = budget.remaining + budget.visited := by rw [Nat.sub_add_cancel hone]

mutual

/-- A walk visits an entry for each that it takes off the budget. -/
theorem total_shape : (value : Payload) → ∀ (place : Place) (budget : Budget),
    (place.shape value budget).2.total = budget.total
  | .obj members => by
    intro place budget
    cases h : place.object with
    | none => rw [Place.shape_of_not_walks (by rw [Place.walks, h]; rfl)]
    | some walked =>
      rw [Place.shape_obj h]
      exact total_mappingEntries members walked.1 walked.2 budget
  | .arr items => by
    intro place budget
    cases h : place.list with
    | none => rw [Place.shape_of_not_walks (by rw [Place.walks, h]; rfl)]
    | some walked =>
      rw [Place.shape_arr h]
      exact total_entries items walked.1 walked.2 budget
  | .null | .bool _ | .int _ | .float _ | .nonFinite _ | .str _ => by
    intro place budget
    rw [Place.shape_of_not_walks rfl]

theorem total_mappingEntries : (members : List (CodePoints × Payload)) →
    ∀ (known : List (CodePoints × Holds)) (walk : Bool) (budget : Budget),
      (mappingEntries known walk members budget).2.total = budget.total
  | [] => fun _ _ _ => rfl
  | (name, item) :: members => by
    intro known walk budget
    by_cases hspent : budget.remaining = 0
    · rw [mappingEntries, if_pos hspent]
    · rw [mappingEntries_cons known walk name item members hspent]
      split_ifs
      · exact (total_mappingEntries members known walk _).trans (Budget.total_visit hspent)
      · exact (total_mappingEntries members known walk _).trans
          ((total_shape item _ _).trans (Budget.total_visit hspent))

theorem total_entries : (items : List Payload) →
    ∀ (known : List (CodePoints × Holds)) (walk : Bool) (budget : Budget),
      (entries known walk items budget).2.total = budget.total
  | [] => fun _ _ _ => rfl
  | item :: items => by
    intro known walk budget
    by_cases hspent : budget.remaining = 0
    · rw [entries, if_pos hspent]
    · rw [entries_cons known walk item items hspent]
      exact (total_entries items known walk _).trans
        ((total_shape item _ _).trans (Budget.total_visit hspent))

end

theorem visited_bodyShape_le (body : Payload) (operation : Text) :
    (bodyShape body operation).2.visited ≤ shapeEntries := by
  have htotal := total_shape body (.ofBody operation) ⟨shapeEntries, 0⟩
  rw [Place.shape_ofBody, Budget.total] at htotal
  exact (Nat.le_add_left _ _).trans htotal.le

/-! ### What is described is not read -/

/-- A value's kind, and its size where the kind has one. -/
inductive Kind
  | object (size : ℕ)
  | list (size : ℕ)
  | str (size : ℕ)
  | bool
  | null
  | number

def kindOf : Payload → Kind
  | .obj members => .object members.length
  | .arr items => .list items.length
  | .str text => .str text.length
  | .bool _ => .bool
  | .null => .null
  | .int _ | .float _ | .nonFinite _ => .number

/-- A kind as it is told. -/
def Kind.told : Kind → CodePoints
  | object size => sized "object" size
  | list size => sized "list" size
  | str size => sized "str" size
  | bool => "bool"
  | null => "null"
  | number => "number"

theorem told_kindOf (value : Payload) : (kindOf value).told = described value := by
  cases value <;> rfl

mutual

/-- Two values at a place that differ only in what no request model walks into, where each has the
kind and the size of the other. -/
inductive Alike : Place → Payload → Payload → Prop
  | described {place value other} (hvalue : place.walks value = false)
    (hother : place.walks other = false) (hkind : kindOf other = kindOf value) :
    Alike place value other
  | object {place known walk members others} (hplace : place.object = some (known, walk))
    (halike : EntriesAlike known walk members others) : Alike place (.obj members) (.obj others)
  | list {place known walk items others} (hplace : place.list = some (known, walk))
    (halike : ItemsAlike known walk items others) : Alike place (.arr items) (.arr others)

inductive EntriesAlike : List (CodePoints × Holds) → Bool → List (CodePoints × Payload) →
    List (CodePoints × Payload) → Prop
  | nil {known walk} : EntriesAlike known walk [] []
  | cons {known walk name item other members others}
    (hitem : Alike (.entry known walk name) item other)
    (halike : EntriesAlike known walk members others) :
    EntriesAlike known walk ((name, item) :: members) ((name, other) :: others)

inductive ItemsAlike : List (CodePoints × Holds) → Bool → List Payload → List Payload → Prop
  | nil {known walk} : ItemsAlike known walk [] []
  | cons {known walk item other items others} (hitem : Alike (.mapping known walk) item other)
    (halike : ItemsAlike known walk items others) :
    ItemsAlike known walk (item :: items) (other :: others)

end

mutual

theorem EntriesAlike.length {known : List (CodePoints × Holds)} {walk : Bool}
    {members others : List (CodePoints × Payload)} :
    EntriesAlike known walk members others → others.length = members.length
  | .nil => rfl
  | .cons _ halike => congrArg (· + 1) halike.length

theorem ItemsAlike.length {known : List (CodePoints × Holds)} {walk : Bool}
    {items others : List Payload} : ItemsAlike known walk items others →
      others.length = items.length
  | .nil => rfl
  | .cons _ halike => congrArg (· + 1) halike.length

end

mutual

theorem Alike.shape_eq {place : Place} {value other : Payload} :
    Alike place value other → ∀ budget, place.shape other budget = place.shape value budget
  | .described hvalue hother hkind => by
    intro budget
    rw [Place.shape_of_not_walks hvalue, Place.shape_of_not_walks hother, ← told_kindOf, hkind,
      told_kindOf]
  | .object hplace halike => by
    intro budget
    rw [Place.shape_obj hplace, Place.shape_obj hplace, halike.mappingEntries_eq]
  | .list hplace halike => by
    intro budget
    rw [Place.shape_arr hplace, Place.shape_arr hplace, halike.entries_eq]

theorem EntriesAlike.mappingEntries_eq {known : List (CodePoints × Holds)} {walk : Bool}
    {members others : List (CodePoints × Payload)} :
    EntriesAlike known walk members others →
      ∀ budget, mappingEntries known walk others budget = mappingEntries known walk members budget
  | .nil => fun _ => rfl
  | @EntriesAlike.cons _ _ name item other members others hitem halike => by
    intro budget
    by_cases hspent : budget.remaining = 0
    · rw [mappingEntries, mappingEntries, if_pos hspent, if_pos hspent, halike.length]
    · rw [mappingEntries_cons known walk name other others hspent,
        mappingEntries_cons known walk name item members hspent, hitem.shape_eq,
        halike.mappingEntries_eq]
      simp only [halike.mappingEntries_eq]

theorem ItemsAlike.entries_eq {known : List (CodePoints × Holds)} {walk : Bool}
    {items others : List Payload} : ItemsAlike known walk items others →
      ∀ budget, entries known walk others budget = entries known walk items budget
  | .nil => fun _ => rfl
  | @ItemsAlike.cons _ _ item other items others hitem halike => by
    intro budget
    by_cases hspent : budget.remaining = 0
    · rw [entries, entries, if_pos hspent, if_pos hspent, halike.length]
    · rw [entries_cons known walk other others hspent, entries_cons known walk item items hspent,
        hitem.shape_eq]
      simp only [halike.entries_eq]

end

/-- What the logged shape of a body tells. -/
structure TellsNothing (operation : Text) (body : Payload) : Prop where
  told : Tells (.ofBody operation) body (bodyShape body operation).1
  texts : ∀ t ∈ (bodyShape body operation).1.texts, IsTold t
  visited : (bodyShape body operation).2.visited ≤ shapeEntries
  alike : ∀ other, Alike (.ofBody operation) body other →
    (bodyShape other operation).1 = (bodyShape body operation).1

/-- **The logged shape of a refused body says nothing the body holds.** -/
theorem bodyShape_tellsNothing (operation : Text) (body : Payload) :
    TellsNothing operation body := by
  have htold := tells_shape body (.ofBody operation) ⟨shapeEntries, 0⟩
  rw [Place.shape_ofBody] at htold
  refine ⟨htold, htold.texts_told, visited_bodyShape_le body operation, ?_⟩
  intro other halike
  rw [← Place.shape_ofBody, ← Place.shape_ofBody, halike.shape_eq]

-- a name of the caller's that could be content is counted, and so is what is under a part's name
example : (bodyShape (.obj [("request", .obj [("parts", .arr [.obj [("text", .str "hi")]])]),
      ("A. Person", .bool true), ("x-debug", .obj [("key", .null)])]) "chat").1 =
    .obj [("request", .obj [("parts", .arr [.obj [("text", .text "str(2)")]])]),
      ("x-debug", .text "object(1)"), ("…", .text "1 more")] := rfl

end AiraGateway.Kira.LogShape
