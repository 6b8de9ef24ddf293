import AiraGateway.Library.Json
import Mathlib.Data.Rat.Defs

/-!
# JSON Schema

Which values a schema accepts: every keyword of it holds, those that hold schemas of their own at
the members, the items or the variants they are for. What a pattern matches, what a format asks and
what a number with a fraction is worth is left to a reading.

* `Accepts.of_narrower`: a schema whose keywords ask at least as much, and whose inner schemas are
  narrower, accepts no more.
* A place in a schema (`schemaAt`) is a path of properties, items and variants.
-/

namespace AiraGateway

/-- A dictionary's values, each made into another. -/
theorem dictGet_map_values {κ α β : Type} [DecidableEq κ] (f : α → β) (dict : List (κ × α))
    (key : κ) :
    dictGet (dict.map fun entry => (entry.1, f entry.2)) key = (dictGet dict key).map f := by
  rw [dictGet, dictGet, List.find?_map, Option.map_map, Option.map_map]
  rfl

namespace JsonSchema

/-- What JSON Schema leaves to its reader. A format says nothing about null, and an empty name is
none. -/
structure Reading where
  matching : Text → Text → Prop
  format : Text → Json → Prop
  worth : Text → ℚ
  format_null : ∀ name, format name .null
  format_nameless : ∀ doc, format [] doc

variable (R : Reading)

/-- What a number is worth. -/
def Reading.number : Json → Option ℚ
  | .int n => some n
  | .float text => some (R.worth text)
  | _ => none

/-- The types of a value: a number without a fraction is an integer as well. -/
def Reading.types : Json → List Text
  | .null => ["null"]
  | .bool _ => ["boolean"]
  | .int _ => ["integer", "number"]
  | .float text => if (R.worth text).den = 1 then ["integer", "number"] else ["number"]
  | .str _ => ["string"]
  | .arr _ => ["array"]
  | .obj _ => ["object"]

/-- The types a `type` keyword names. -/
def typeNames : Json → List Text
  | .str name => [name]
  | .arr names => names.filterMap fun name =>
    match name with
    | .str name => some name
    | _ => none
  | _ => []

/-- A value's size under a bound keyword: a text's length, an array's or an object's count. -/
inductive Sized
  | length
  | items
  | properties

def Sized.of : Sized → Json → Option ℕ
  | .length, .str text => some text.length
  | .items, .arr values => some values.length
  | .properties, .obj members => some members.length
  | _, _ => none

def Sized.atLeast : Sized → Text
  | .length => "minLength"
  | .items => "minItems"
  | .properties => "minProperties"

def Sized.atMost : Sized → Text
  | .length => "maxLength"
  | .items => "maxItems"
  | .properties => "maxProperties"

/-- The names a schema's keywords declare. -/
def declaredNames (members : List (Text × Json)) : List Text :=
  match dictGet members "properties" with
  | some (.obj declared) => declared.map (·.1)
  | _ => []

/-- The keywords that hold no schemas. -/
structure Reading.Own (members : List (Text × Json)) (doc : Json) : Prop where
  type : ∀ value, dictGet members "type" = some value → ∃ name ∈ typeNames value, name ∈ R.types doc
  format : ∀ name, dictGet members "format" = some (.str name) → R.format name doc
  pattern : ∀ pattern, dictGet members "pattern" = some (.str pattern) →
    ∀ text, doc = .str text → R.matching pattern text
  enum : ∀ values, dictGet members "enum" = some (.arr values) → doc ∈ values
  minimum : ∀ bound, (dictGet members "minimum").bind R.number = some bound →
    ∀ x, R.number doc = some x → bound ≤ x
  maximum : ∀ bound, (dictGet members "maximum").bind R.number = some bound →
    ∀ x, R.number doc = some x → x ≤ bound
  atLeast : ∀ (sized : Sized) n, dictGet members sized.atLeast = some (.int n) →
    ∀ size, sized.of doc = some size → n ≤ size
  atMost : ∀ (sized : Sized) n, dictGet members sized.atMost = some (.int n) →
    ∀ size, sized.of doc = some size → (size : ℤ) ≤ n
  required : ∀ names, dictGet members "required" = some (.arr names) →
    ∀ name, .str name ∈ names → ∀ held, doc = .obj held → (dictGet held name).isSome = true
  closed : dictGet members "additionalProperties" = some (.bool false) →
    ∀ held, doc = .obj held → ∀ entry ∈ held, entry.1 ∈ declaredNames members

theorem sizeOf_lt_of_dictGet {members : List (Text × Json)} {key : Text} {value : Json}
    (h : dictGet members key = some value) : sizeOf value < sizeOf (Json.obj members) := by
  have hmem := List.sizeOf_lt_of_mem (dictGet_mem h)
  simp only [Prod.mk.sizeOf_spec, Json.obj.sizeOf_spec] at hmem ⊢
  omega

/-- The values a schema accepts. -/
def Accepts : Json → Json → Prop
  | .obj members, doc =>
    R.Own members doc ∧
    (∀ declared, dictGet members "properties" = some (.obj declared) →
      ∀ name schema, dictGet declared name = some schema → ∀ held, doc = .obj held →
        ∀ value, dictGet held name = some value → Accepts schema value) ∧
    (∀ items, dictGet members "items" = some items → ∀ values, doc = .arr values →
      ∀ value ∈ values, Accepts items value) ∧
    (∀ variants, dictGet members "anyOf" = some (.arr variants) →
      ∃ variant, ∃ _ : variant ∈ variants, Accepts variant doc)
  | .bool b, _ => b = true
  | _, _ => False
termination_by schema => sizeOf schema
decreasing_by
  · have hdeclared :=
      sizeOf_lt_of_dictGet ‹dictGet members "properties" = some (.obj declared)›
    have hschema := sizeOf_lt_of_dictGet ‹dictGet declared name = some schema›
    omega
  · exact sizeOf_lt_of_dictGet ‹_›
  · have hvariants := sizeOf_lt_of_dictGet ‹_›
    have hvariant := List.sizeOf_lt_of_mem ‹variant ∈ variants›
    simp only [Json.arr.sizeOf_spec] at hvariants
    omega

section Narrowing

variable {R} {members members' : List (Text × Json)} {doc : Json}

/-- What an object of keywords accepts. -/
theorem accepts_obj : Accepts R (.obj members) doc ↔
    R.Own members doc ∧
    (∀ declared, dictGet members "properties" = some (.obj declared) →
      ∀ name schema, dictGet declared name = some schema → ∀ held, doc = .obj held →
        ∀ value, dictGet held name = some value → Accepts R schema value) ∧
    (∀ items, dictGet members "items" = some items → ∀ values, doc = .arr values →
      ∀ value ∈ values, Accepts R items value) ∧
    (∀ variants, dictGet members "anyOf" = some (.arr variants) →
      ∃ variant ∈ variants, Accepts R variant doc) := by
  rw [Accepts]
  simp only [exists_prop]

/-- The keywords a dialect may have to say otherwise. -/
structure Reading.Stated (members : List (Text × Json)) (doc : Json) : Prop where
  format : ∀ name, dictGet members "format" = some (.str name) → R.format name doc
  required : ∀ names, dictGet members "required" = some (.arr names) →
    ∀ name, .str name ∈ names → ∀ held, doc = .obj held → (dictGet held name).isSome = true
  closed : dictGet members "additionalProperties" = some (.bool false) →
    ∀ held, doc = .obj held → ∀ entry ∈ held, entry.1 ∈ declaredNames members

/-- The others that hold no schemas. -/
def plainKeys : List Text :=
  ["type", "pattern", "enum", "minimum", "maximum", "minLength", "minItems", "minProperties",
    "maxLength", "maxItems", "maxProperties"]

theorem atLeast_mem_plainKeys (sized : Sized) : sized.atLeast ∈ plainKeys := by
  cases sized <;> decide +kernel

theorem atMost_mem_plainKeys (sized : Sized) : sized.atMost ∈ plainKeys := by
  cases sized <;> decide +kernel

theorem Reading.Own.stated (h : R.Own members doc) : R.Stated members doc :=
  ⟨h.format, h.required, h.closed⟩

/-- Keywords with the plain ones of others ask at least what those do, where the rest does. -/
theorem Reading.Own.of_same (h : R.Own members' doc)
    (hplain : ∀ key ∈ plainKeys, dictGet members' key = dictGet members key)
    (hstated : R.Stated members doc) : R.Own members doc where
  type := by
    rw [← hplain "type" (by decide +kernel)]
    exact h.type
  format := hstated.format
  pattern := by
    rw [← hplain "pattern" (by decide +kernel)]
    exact h.pattern
  enum := by
    rw [← hplain "enum" (by decide +kernel)]
    exact h.enum
  minimum := by
    rw [← hplain "minimum" (by decide +kernel)]
    exact h.minimum
  maximum := by
    rw [← hplain "maximum" (by decide +kernel)]
    exact h.maximum
  atLeast := by
    intro sized
    rw [← hplain sized.atLeast (atLeast_mem_plainKeys sized)]
    exact h.atLeast sized
  atMost := by
    intro sized
    rw [← hplain sized.atMost (atMost_mem_plainKeys sized)]
    exact h.atMost sized
  required := hstated.required
  closed := hstated.closed

/-- **Narrower keywords**: one object of keywords accepts no more than another where its own
keywords ask at least as much and each inner schema of the other stands in it narrower. -/
theorem Accepts.of_narrower (h : Accepts R (.obj members') doc)
    (hown : R.Own members' doc → R.Own members doc)
    (hproperties : ∀ declared, dictGet members "properties" = some (.obj declared) →
      ∃ declared', dictGet members' "properties" = some (.obj declared') ∧
        ∀ name schema, dictGet declared name = some schema →
          ∃ schema', dictGet declared' name = some schema' ∧
            ∀ value, Accepts R schema' value → Accepts R schema value)
    (hitems : ∀ items, dictGet members "items" = some items →
      ∃ items', dictGet members' "items" = some items' ∧
        ∀ value, Accepts R items' value → Accepts R items value)
    (hvariants : ∀ variants, dictGet members "anyOf" = some (.arr variants) →
      ∃ variants', dictGet members' "anyOf" = some (.arr variants') ∧
        ∀ variant' ∈ variants', ∃ variant ∈ variants,
          ∀ value, Accepts R variant' value → Accepts R variant value) :
    Accepts R (.obj members) doc := by
  obtain ⟨hown', hproperties', hitems', hvariants'⟩ := accepts_obj.mp h
  refine accepts_obj.mpr ⟨hown hown', ?_, ?_, ?_⟩
  · intro declared hdeclared name schema hschema held hdoc value hvalue
    obtain ⟨declared', hdeclared', hschemas⟩ := hproperties declared hdeclared
    obtain ⟨schema', hschema', hnarrow⟩ := hschemas name schema hschema
    exact hnarrow value
      (hproperties' declared' hdeclared' name schema' hschema' held hdoc value hvalue)
  · intro items hget values hdoc value hvalue
    obtain ⟨items', hget', hnarrow⟩ := hitems items hget
    exact hnarrow value (hitems' items' hget' values hdoc value hvalue)
  · intro variants hget
    obtain ⟨variants', hget', hnarrow⟩ := hvariants variants hget
    obtain ⟨variant', hvariant', haccepts⟩ := hvariants' variants' hget'
    obtain ⟨variant, hvariant, hvalue⟩ := hnarrow variant' hvariant'
    exact ⟨variant, hvariant, hvalue doc haccepts⟩

end Narrowing

/-! ### Places in a schema -/

/-- A step into a schema: to a property, by its place in the map, to the items or to a variant. -/
inductive Step
  | property (i : ℕ)
  | items
  | variant (i : ℕ)

def into : Step → Json → Option Json
  | .property i, schema =>
    match schema.get "properties" with
    | some (.obj declared) => declared[i]?.map (·.2)
    | _ => none
  | .items, schema => schema.get "items"
  | .variant i, schema =>
    match schema.get "anyOf" with
    | some (.arr variants) => variants[i]?
    | _ => none

/-- The schema at a place. -/
def schemaAt : List Step → Json → Option Json
  | [], schema => some schema
  | step :: path, schema => (into step schema).bind (schemaAt path)

end JsonSchema

end AiraGateway
