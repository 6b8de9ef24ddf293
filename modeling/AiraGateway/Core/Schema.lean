import AiraGateway.Core.Canonical
import AiraGateway.Library.JsonSchema
import Mathlib.Data.List.Nodup

/-!
# Response schemas in JSON Schema

A caller states the shape of an answer in Google's vocabulary, which is OpenAPI 3.0's
(`ResponseSchema`); other dialects take JSON Schema. `toJsonSchema` writes the one in the other:
the keywords under their names, and nullability, a flag here, as a union of types. `Satisfies` is
what a schema asks in OpenAPI 3.0.

* `toJsonSchema_faithful_iff`: every node of a schema accepts the same values in both exactly where
  every nullable node's translation accepts null.
* `null_lost`: a nullable union, and a nullable text of an `enum`, whose translations refuse null.
-/

namespace AiraGateway

/-! ### The vocabulary -/

/-- Google's types. -/
inductive SchemaType
  | string
  | integer
  | number
  | boolean
  | array
  | object
  | null
  deriving DecidableEq

/-- A type's name in JSON Schema. -/
def SchemaType.lower : SchemaType → Text
  | string => "string"
  | integer => "integer"
  | number => "number"
  | boolean => "boolean"
  | array => "array"
  | object => "object"
  | null => "null"

/-- What a node states apart from the schemas in it. A bound that is a `float` is its text. -/
structure SchemaKeywords where
  type : Option SchemaType := none
  required : Option (List Text) := none
  enum : Option (List Text) := none
  format : Option Text := none
  description : Option Text := none
  title : Option Text := none
  pattern : Option Text := none
  nullable : Option Bool := none
  default : Option Json := none
  minimum : Option Text := none
  maximum : Option Text := none
  minLength : Option ℤ := none
  maxLength : Option ℤ := none
  minItems : Option ℤ := none
  maxItems : Option ℤ := none
  minProperties : Option ℤ := none
  maxProperties : Option ℤ := none
  additionalProperties : Option Bool := none

/-- One node of a schema. Properties and variants that are absent are none. -/
structure ResponseSchema extends SchemaKeywords where
  properties : List (Text × ResponseSchema) := []
  items : Option ResponseSchema := none
  anyOf : List ResponseSchema := []

namespace ResponseSchema

theorem sizeOf_property {s : ResponseSchema} {entry : Text × ResponseSchema}
    (h : entry ∈ s.properties) : sizeOf entry.2 < sizeOf s := by
  obtain ⟨keywords, properties, items, anyOf⟩ := s
  have hmem := List.sizeOf_lt_of_mem h
  have hpair : sizeOf entry = 1 + sizeOf entry.1 + sizeOf entry.2 := rfl
  simp only [mk.sizeOf_spec] at hmem ⊢
  omega

theorem sizeOf_items {s inner : ResponseSchema} (h : s.items = some inner) :
    sizeOf inner < sizeOf s := by
  obtain ⟨keywords, properties, items, anyOf⟩ := s
  subst h
  simp only [mk.sizeOf_spec, Option.some.sizeOf_spec]
  omega

theorem sizeOf_variant {s variant : ResponseSchema} (h : variant ∈ s.anyOf) :
    sizeOf variant < sizeOf s := by
  obtain ⟨keywords, properties, items, anyOf⟩ := s
  have hmem := List.sizeOf_lt_of_mem h
  simp only [mk.sizeOf_spec] at hmem ⊢
  omega

/-- Induction over a schema: what holds of a node when it holds of the schemas in it. -/
theorem induct {P : ResponseSchema → Prop}
    (node : ∀ s : ResponseSchema, (∀ entry ∈ s.properties, P entry.2) →
      (∀ inner, s.items = some inner → P inner) → (∀ variant ∈ s.anyOf, P variant) → P s)
    (s : ResponseSchema) : P s := by
  exact node s (fun entry hentry => induct node entry.2)
    (fun inner hinner => induct node inner) (fun variant hvariant => induct node variant)
termination_by sizeOf s
decreasing_by
  · exact sizeOf_property hentry
  · exact sizeOf_items hinner
  · exact sizeOf_variant hvariant

end ResponseSchema

def texts (names : List Text) : Json := .arr (names.map .str)

/-- The members of an object whose absent ones are left out. -/
def present (fields : List (Text × Option Json)) : List (Text × Json) :=
  fields.filterMap fun field => field.2.map (field.1, ·)

/-- A node's type; a nullable one is a union. -/
def SchemaKeywords.typeWord (k : SchemaKeywords) : Option Json :=
  k.type.map fun type =>
    if k.nullable = some true then texts [type.lower, "null"] else .str type.lower

/-- The keywords of a node in JSON Schema. -/
def SchemaKeywords.fields (k : SchemaKeywords) : List (Text × Option Json) :=
  [("type", k.typeWord), ("format", (k.format.filter (· ≠ [])).map .str),
    ("description", k.description.map .str), ("title", k.title.map .str),
    ("pattern", k.pattern.map .str), ("default", k.default), ("minimum", k.minimum.map .float),
    ("maximum", k.maximum.map .float), ("enum", k.enum.map texts),
    ("required", k.required.map texts), ("minLength", k.minLength.map .int),
    ("maxLength", k.maxLength.map .int), ("minItems", k.minItems.map .int),
    ("maxItems", k.maxItems.map .int), ("minProperties", k.minProperties.map .int),
    ("maxProperties", k.maxProperties.map .int),
    ("additionalProperties", k.additionalProperties.map .bool)]

/-- What is there, if anything is. -/
def unlessEmpty {α : Type} (made : List α) (json : List α → Json) : Option Json :=
  if made.isEmpty then none else some (json made)

/-- The keywords that hold schemas. -/
def inner (properties items anyOf : Option Json) : List (Text × Option Json) :=
  [("properties", properties), ("items", items), ("anyOf", anyOf)]

mutual

def toJsonSchema : ResponseSchema → Json
  | ⟨keywords, properties, items, anyOf⟩ =>
    .obj (present (keywords.fields ++ inner (unlessEmpty (toJsonProperties properties) .obj)
      (toJsonItems items) (unlessEmpty (toJsonVariants anyOf) .arr)))

def toJsonProperties : List (Text × ResponseSchema) → List (Text × Json)
  | [] => []
  | (name, schema) :: rest => (name, toJsonSchema schema) :: toJsonProperties rest

def toJsonItems : Option ResponseSchema → Option Json
  | none => none
  | some schema => some (toJsonSchema schema)

def toJsonVariants : List ResponseSchema → List Json
  | [] => []
  | schema :: rest => toJsonSchema schema :: toJsonVariants rest

end

theorem toJsonProperties_eq_map (properties : List (Text × ResponseSchema)) :
    toJsonProperties properties = properties.map fun entry => (entry.1, toJsonSchema entry.2) := by
  induction properties with
  | nil => rfl
  | cons entry rest ih => rw [toJsonProperties, ih, List.map_cons]

theorem toJsonItems_eq_map (items : Option ResponseSchema) :
    toJsonItems items = items.map toJsonSchema := by
  cases items <;> rfl

theorem toJsonVariants_eq_map (variants : List ResponseSchema) :
    toJsonVariants variants = variants.map toJsonSchema := by
  induction variants with
  | nil => rfl
  | cons schema rest ih => rw [toJsonVariants, ih, List.map_cons]

/-! ### The keywords of a translation -/

section Present

variable {fields : List (Text × Option Json)} {key : Text} {value : Option Json}

theorem keys_present : ((present fields).map (·.1)).Sublist (fields.map (·.1)) := by
  induction fields with
  | nil => exact List.Sublist.refl _
  | cons field rest ih =>
    rw [present, List.filterMap_cons]
    cases hvalue : field.2 with
    | none => exact ih.cons _
    | some value => exact ih.cons_cons _

theorem dictGet_present (hnodup : (fields.map (·.1)).Nodup) (h : (key, value) ∈ fields) :
    dictGet (present fields) key = value := by
  have hkeys : ((present fields).map (·.1)).Nodup := hnodup.sublist keys_present
  cases value with
  | some value =>
    refine (dictGet_eq_some_iff hkeys).mpr (List.mem_filterMap.mpr ⟨_, h, rfl⟩)
  | none =>
    rw [Option.eq_none_iff_forall_ne_some]
    intro found hfound
    obtain ⟨field, hfield, hmade⟩ := List.mem_filterMap.mp (dictGet_mem hfound)
    obtain ⟨made, hvalue, hpair⟩ := Option.map_eq_some_iff.mp hmade
    -- one key has one field
    have hsame : field = (key, none) := List.inj_on_of_nodup_map hnodup hfield h (by
      have hkey := congrArg Prod.fst hpair
      exact hkey)
    rw [hsame] at hvalue
    cases hvalue

end Present

namespace ResponseSchema

/-- The keywords of a schema's translation, with the translations of the schemas in it. -/
def fields (s : ResponseSchema) : List (Text × Option Json) :=
  s.toSchemaKeywords.fields ++ inner
    (unlessEmpty (s.properties.map fun entry => (entry.1, toJsonSchema entry.2)) .obj)
    (s.items.map toJsonSchema) (unlessEmpty (s.anyOf.map toJsonSchema) .arr)

end ResponseSchema

theorem toJsonSchema_eq (s : ResponseSchema) : toJsonSchema s = .obj (present s.fields) := by
  obtain ⟨keywords, properties, items, anyOf⟩ := s
  rw [toJsonSchema, toJsonProperties_eq_map, toJsonItems_eq_map, toJsonVariants_eq_map]
  rfl

/-- The keywords a translation may have. -/
def schemaKeys : List Text :=
  ["type", "format", "description", "title", "pattern", "default", "minimum", "maximum", "enum",
    "required", "minLength", "maxLength", "minItems", "maxItems", "minProperties",
    "maxProperties", "additionalProperties", "properties", "items", "anyOf"]

theorem nodup_schemaKeys : schemaKeys.Nodup := by decide +kernel

theorem keys_fields (s : ResponseSchema) : s.fields.map (·.1) = schemaKeys := rfl

theorem keyword_eq {s : ResponseSchema} {key : Text} {value : Option Json} {i : ℕ}
    (h : s.fields[i]? = some (key, value)) : dictGet (present s.fields) key = value :=
  dictGet_present (by rw [keys_fields]; exact nodup_schemaKeys) (List.mem_of_getElem? h)

section Keywords

variable (s : ResponseSchema)

theorem keyword_type : dictGet (present s.fields) "type" = s.typeWord := keyword_eq (i := 0) rfl

theorem keyword_format :
    dictGet (present s.fields) "format" = (s.format.filter (· ≠ [])).map .str :=
  keyword_eq (i := 1) rfl

theorem keyword_pattern : dictGet (present s.fields) "pattern" = s.pattern.map .str :=
  keyword_eq (i := 4) rfl

theorem keyword_default : dictGet (present s.fields) "default" = s.default :=
  keyword_eq (i := 5) rfl

theorem keyword_minimum : dictGet (present s.fields) "minimum" = s.minimum.map .float :=
  keyword_eq (i := 6) rfl

theorem keyword_maximum : dictGet (present s.fields) "maximum" = s.maximum.map .float :=
  keyword_eq (i := 7) rfl

theorem keyword_enum : dictGet (present s.fields) "enum" = s.enum.map texts :=
  keyword_eq (i := 8) rfl

theorem keyword_required : dictGet (present s.fields) "required" = s.required.map texts :=
  keyword_eq (i := 9) rfl

theorem keyword_minLength : dictGet (present s.fields) "minLength" = s.minLength.map .int :=
  keyword_eq (i := 10) rfl

theorem keyword_maxLength : dictGet (present s.fields) "maxLength" = s.maxLength.map .int :=
  keyword_eq (i := 11) rfl

theorem keyword_minItems : dictGet (present s.fields) "minItems" = s.minItems.map .int :=
  keyword_eq (i := 12) rfl

theorem keyword_maxItems : dictGet (present s.fields) "maxItems" = s.maxItems.map .int :=
  keyword_eq (i := 13) rfl

theorem keyword_minProperties :
    dictGet (present s.fields) "minProperties" = s.minProperties.map .int :=
  keyword_eq (i := 14) rfl

theorem keyword_maxProperties :
    dictGet (present s.fields) "maxProperties" = s.maxProperties.map .int :=
  keyword_eq (i := 15) rfl

theorem keyword_additionalProperties :
    dictGet (present s.fields) "additionalProperties" = s.additionalProperties.map .bool :=
  keyword_eq (i := 16) rfl

theorem keyword_properties : dictGet (present s.fields) "properties"
    = unlessEmpty (s.properties.map fun entry => (entry.1, toJsonSchema entry.2)) .obj :=
  keyword_eq (i := 17) rfl

theorem keyword_items : dictGet (present s.fields) "items" = s.items.map toJsonSchema :=
  keyword_eq (i := 18) rfl

theorem keyword_anyOf :
    dictGet (present s.fields) "anyOf" = unlessEmpty (s.anyOf.map toJsonSchema) .arr :=
  keyword_eq (i := 19) rfl

end Keywords

/-! ### What a schema asks -/

open JsonSchema

section Meaning

variable (R : Reading)

/-- The bounds of a node on a length or a count. -/
def SchemaKeywords.least (k : SchemaKeywords) : Sized → Option ℤ
  | .length => k.minLength
  | .items => k.minItems
  | .properties => k.minProperties

def SchemaKeywords.most (k : SchemaKeywords) : Sized → Option ℤ
  | .length => k.maxLength
  | .items => k.maxItems
  | .properties => k.maxProperties

/-- What a node's keywords ask of a value but for its type, as OpenAPI 3.0 has them. -/
structure ResponseSchema.Asks (s : ResponseSchema) (doc : Json) : Prop where
  format : ∀ name, s.format = some name → R.format name doc
  pattern : ∀ pattern, s.pattern = some pattern → ∀ text, doc = .str text →
    R.matching pattern text
  enum : ∀ values, s.enum = some values → ∃ value ∈ values, doc = .str value
  minimum : ∀ bound, s.minimum = some bound → ∀ x, R.number doc = some x → R.worth bound ≤ x
  maximum : ∀ bound, s.maximum = some bound → ∀ x, R.number doc = some x → x ≤ R.worth bound
  least : ∀ (sized : Sized) n, s.least sized = some n → ∀ size, sized.of doc = some size → n ≤ size
  most : ∀ (sized : Sized) n, s.most sized = some n →
    ∀ size, sized.of doc = some size → (size : ℤ) ≤ n
  required : ∀ names, s.required = some names → ∀ name ∈ names, ∀ held, doc = .obj held →
    (dictGet held name).isSome = true
  closed : s.additionalProperties = some false → ∀ held, doc = .obj held → ∀ entry ∈ held,
    entry.1 ∈ s.properties.map (·.1)

/-- The values a schema is satisfied by in OpenAPI 3.0: null as well, where a node that states a
type or variants is nullable. -/
def Satisfies (s : ResponseSchema) (doc : Json) : Prop :=
  (s.nullable = some true ∧ (s.type.isSome = true ∨ s.anyOf ≠ []) ∧ doc = .null) ∨
  (∀ type, s.type = some type → type.lower ∈ R.types doc) ∧ s.Asks R doc ∧
  (∀ name inner, ∀ _ : dictGet s.properties name = some inner, ∀ held, doc = .obj held →
    ∀ value, dictGet held name = some value → Satisfies inner value) ∧
  (∀ inner, ∀ _ : s.items = some inner, ∀ values, doc = .arr values →
    ∀ value ∈ values, Satisfies inner value) ∧
  (s.anyOf = [] ∨ ∃ variant, ∃ _ : variant ∈ s.anyOf, Satisfies variant doc)
termination_by sizeOf s
decreasing_by
  · exact ResponseSchema.sizeOf_property
      (dictGet_mem ‹dictGet s.properties name = some inner›)
  · exact ResponseSchema.sizeOf_items ‹_›
  · exact ResponseSchema.sizeOf_variant ‹_›

end Meaning

section Equivalence

variable {R : Reading} {s : ResponseSchema} {doc : Json}

theorem satisfies_iff : Satisfies R s doc ↔
    (s.nullable = some true ∧ (s.type.isSome = true ∨ s.anyOf ≠ []) ∧ doc = .null) ∨
    (∀ type, s.type = some type → type.lower ∈ R.types doc) ∧ s.Asks R doc ∧
    (∀ name inner, dictGet s.properties name = some inner → ∀ held, doc = .obj held →
      ∀ value, dictGet held name = some value → Satisfies R inner value) ∧
    (∀ inner, s.items = some inner → ∀ values, doc = .arr values →
      ∀ value ∈ values, Satisfies R inner value) ∧
    (s.anyOf = [] ∨ ∃ variant ∈ s.anyOf, Satisfies R variant doc) := by
  rw [Satisfies]
  simp only [exists_prop]

theorem unlessEmpty_eq_some_iff {α : Type} {made : List α} {json : List α → Json} {value : Json} :
    unlessEmpty made json = some value ↔ made ≠ [] ∧ json made = value := by
  rw [unlessEmpty]
  cases made <;> simp

theorem null_mem_types : ("null" : Text) ∈ R.types doc ↔ doc = .null := by
  cases doc with
  | float text =>
    rw [Reading.types]
    split <;> simp
  | _ => simp [Reading.types]

/-- A nullable type is the type or null. -/
theorem typeWord_holds_iff :
    (∀ value, s.typeWord = some value → ∃ name ∈ typeNames value, name ∈ R.types doc) ↔
      ∀ type, s.type = some type →
        type.lower ∈ R.types doc ∨ s.nullable = some true ∧ doc = .null := by
  rw [SchemaKeywords.typeWord]
  cases s.type with
  | none => simp
  | some type =>
    simp only [Option.map_some, Option.some.injEq, forall_eq']
    by_cases hnullable : s.nullable = some true
    · have hnames : typeNames (texts [type.lower, "null"]) = [type.lower, "null"] := rfl
      rw [if_pos hnullable, hnames, List.exists_mem_cons_iff, List.exists_mem_cons_iff,
        null_mem_types]
      simp [hnullable]
    · simp [hnullable, typeNames]

theorem keyword_atLeast (s : ResponseSchema) (sized : Sized) :
    dictGet (present s.fields) sized.atLeast = (s.least sized).map .int := by
  cases sized with
  | length => exact keyword_minLength s
  | items => exact keyword_minItems s
  | properties => exact keyword_minProperties s

theorem keyword_atMost (s : ResponseSchema) (sized : Sized) :
    dictGet (present s.fields) sized.atMost = (s.most sized).map .int := by
  cases sized with
  | length => exact keyword_maxLength s
  | items => exact keyword_maxItems s
  | properties => exact keyword_maxProperties s

/-- A translation declares the names of the schema's properties. -/
theorem declaredNames_present (s : ResponseSchema) :
    declaredNames (present s.fields) = s.properties.map (·.1) := by
  rw [declaredNames, keyword_properties]
  cases s.properties with
  | nil => rfl
  | cons entry rest => simp [unlessEmpty]

/-- What the own keywords of a translation ask: the node's own, and its type or null. -/
theorem own_iff : R.Own (present s.fields) doc ↔
    (∀ type, s.type = some type →
      type.lower ∈ R.types doc ∨ s.nullable = some true ∧ doc = .null) ∧ s.Asks R doc := by
  rw [← typeWord_holds_iff, ← keyword_type]
  constructor
  · intro h
    refine ⟨h.type, ⟨?_, ?_, ?_, ?_, ?_, ?_, ?_, ?_, ?_⟩⟩
    · intro name hname
      by_cases hempty : name = []
      · rw [hempty]
        exact R.format_nameless doc
      · exact h.format name (by rw [keyword_format, hname, Option.filter_some]; simp [hempty])
    · exact fun pattern hpattern => h.pattern pattern (by rw [keyword_pattern, hpattern]; rfl)
    · intro values hvalues
      have hmem := h.enum (values.map .str) (by rw [keyword_enum, hvalues]; rfl)
      obtain ⟨value, hvalue, hdoc⟩ := List.mem_map.mp hmem
      exact ⟨value, hvalue, hdoc.symm⟩
    · exact fun bound hbound => h.minimum _ (by rw [keyword_minimum, hbound]; rfl)
    · exact fun bound hbound => h.maximum _ (by rw [keyword_maximum, hbound]; rfl)
    · exact fun sized n hn => h.atLeast sized n (by rw [keyword_atLeast, hn]; rfl)
    · exact fun sized n hn => h.atMost sized n (by rw [keyword_atMost, hn]; rfl)
    · intro names hnames name hname held hdoc
      exact h.required (names.map .str) (by rw [keyword_required, hnames]; rfl) name
        (List.mem_map_of_mem hname) held hdoc
    · intro hclosed held hdoc entry hentry
      rw [← declaredNames_present]
      exact h.closed (by rw [keyword_additionalProperties, hclosed]; rfl) held hdoc entry hentry
  · rintro ⟨htype, h⟩
    refine ⟨htype, ?_, ?_, ?_, ?_, ?_, ?_, ?_, ?_, ?_⟩
    · intro name hname
      rw [keyword_format] at hname
      obtain ⟨found, hfound, hstr⟩ := Option.map_eq_some_iff.mp hname
      obtain rfl := Json.str.inj hstr
      exact h.format _ (Option.filter_eq_some_iff.mp hfound).1
    · intro pattern hpattern
      rw [keyword_pattern] at hpattern
      obtain ⟨found, hfound, hstr⟩ := Option.map_eq_some_iff.mp hpattern
      obtain rfl := Json.str.inj hstr
      exact h.pattern _ hfound
    · intro values hvalues
      rw [keyword_enum] at hvalues
      obtain ⟨found, hfound, harr⟩ := Option.map_eq_some_iff.mp hvalues
      obtain rfl := Json.arr.inj harr
      obtain ⟨value, hvalue, rfl⟩ := h.enum _ hfound
      exact List.mem_map_of_mem hvalue
    · intro bound hbound
      rw [keyword_minimum] at hbound
      cases hminimum : s.minimum with
      | none => rw [hminimum] at hbound; cases hbound
      | some found =>
        rw [hminimum] at hbound
        obtain rfl := Option.some.inj hbound
        exact h.minimum _ hminimum
    · intro bound hbound
      rw [keyword_maximum] at hbound
      cases hmaximum : s.maximum with
      | none => rw [hmaximum] at hbound; cases hbound
      | some found =>
        rw [hmaximum] at hbound
        obtain rfl := Option.some.inj hbound
        exact h.maximum _ hmaximum
    · intro sized n hn
      rw [keyword_atLeast] at hn
      obtain ⟨found, hfound, hint⟩ := Option.map_eq_some_iff.mp hn
      obtain rfl := Json.int.inj hint
      exact h.least sized _ hfound
    · intro sized n hn
      rw [keyword_atMost] at hn
      obtain ⟨found, hfound, hint⟩ := Option.map_eq_some_iff.mp hn
      obtain rfl := Json.int.inj hint
      exact h.most sized _ hfound
    · intro names hnames name hname held hdoc
      rw [keyword_required] at hnames
      obtain ⟨found, hfound, harr⟩ := Option.map_eq_some_iff.mp hnames
      obtain rfl := Json.arr.inj harr
      obtain ⟨stated, hstated, hstr⟩ := List.mem_map.mp hname
      obtain rfl := Json.str.inj hstr
      exact h.required _ hfound _ hstated held hdoc
    · intro hclosed held hdoc entry hentry
      rw [keyword_additionalProperties] at hclosed
      obtain ⟨found, hfound, hbool⟩ := Option.map_eq_some_iff.mp hclosed
      obtain rfl := Json.bool.inj hbool
      rw [declaredNames_present]
      exact h.closed hfound held hdoc entry hentry

end Equivalence

/-! ### Places in a schema -/

namespace ResponseSchema

def into : JsonSchema.Step → ResponseSchema → Option ResponseSchema
  | .property i, s => s.properties[i]?.map (·.2)
  | .items, s => s.items
  | .variant i, s => s.anyOf[i]?

/-- The node at a place. -/
def standing : List JsonSchema.Step → ResponseSchema → Option ResponseSchema
  | [], s => some s
  | step :: path, s => (into step s).bind (standing path)

theorem standing_append (s : ResponseSchema) (path path' : List JsonSchema.Step) :
    s.standing (path ++ path') = (s.standing path).bind (standing path') := by
  induction path generalizing s with
  | nil => rfl
  | cons step path ih =>
    rw [List.cons_append, standing, standing, Option.bind_assoc]
    exact congrArg _ (funext ih)

/-- What holds of every node of a schema holds of every node of the schemas in it. -/
theorem standing_into {P : ResponseSchema → Prop} {s inner : ResponseSchema}
    (h : ∀ path t, s.standing path = some t → P t) {step : JsonSchema.Step}
    (hinner : into step s = some inner) :
    ∀ path t, inner.standing path = some t → P t := by
  intro path t ht
  refine h (step :: path) t ?_
  rw [standing, hinner, Option.bind_some, ht]

end ResponseSchema

/-! ### Null -/

mutual

/-- Whether a translation accepts null: its type is none, null or nullable, it has no `enum`, and
one of its variants accepts it, if it has any. -/
def ResponseSchema.takesNull : ResponseSchema → Bool
  | ⟨keywords, _, _, anyOf⟩ =>
    (keywords.type.all (· = .null) || keywords.nullable = some true) && keywords.enum.isNone &&
      (anyOf.isEmpty || someTakesNull anyOf)

def someTakesNull : List ResponseSchema → Bool
  | [] => false
  | schema :: rest => schema.takesNull || someTakesNull rest

end

theorem someTakesNull_iff {schemas : List ResponseSchema} :
    someTakesNull schemas = true ↔ ∃ schema ∈ schemas, schema.takesNull = true := by
  induction schemas with
  | nil => simp [someTakesNull]
  | cons schema rest ih => simp [someTakesNull, ih]

theorem takesNull_iff {s : ResponseSchema} : s.takesNull = true ↔
    ((∀ type, s.type = some type → type = .null) ∨ s.nullable = some true) ∧ s.enum = none ∧
      (s.anyOf = [] ∨ ∃ variant ∈ s.anyOf, variant.takesNull = true) := by
  obtain ⟨keywords, properties, items, anyOf⟩ := s
  simp [ResponseSchema.takesNull, someTakesNull_iff, and_assoc, Option.all_eq_true]

/-- A node that admits null by its flag keeps it in its translation. -/
def ResponseSchema.KeepsNull (s : ResponseSchema) : Prop :=
  s.nullable = some true → (s.type.isSome = true ∨ s.anyOf ≠ []) → s.takesNull = true

section Equivalence

variable {R : Reading} {s : ResponseSchema} {doc : Json}

/-- What a translation accepts, by the translations in it. -/
theorem accepts_toJsonSchema : Accepts R (toJsonSchema s) doc ↔
    ((∀ type, s.type = some type →
      type.lower ∈ R.types doc ∨ s.nullable = some true ∧ doc = .null) ∧ s.Asks R doc) ∧
    (∀ name inner, dictGet s.properties name = some inner → ∀ held, doc = .obj held →
      ∀ value, dictGet held name = some value → Accepts R (toJsonSchema inner) value) ∧
    (∀ inner, s.items = some inner → ∀ values, doc = .arr values →
      ∀ value ∈ values, Accepts R (toJsonSchema inner) value) ∧
    (s.anyOf = [] ∨ ∃ variant ∈ s.anyOf, Accepts R (toJsonSchema variant) doc) := by
  rw [toJsonSchema_eq, accepts_obj, own_iff]
  refine and_congr_right fun _ => and_congr ?_ (and_congr ?_ ?_)
  · constructor
    · intro h name inner hinner held hdoc value hvalue
      have hne : s.properties ≠ [] := by
        intro hnone
        rw [hnone] at hinner
        cases hinner
      have hdeclared : dictGet (present s.fields) "properties"
          = some (.obj (s.properties.map fun entry => (entry.1, toJsonSchema entry.2))) := by
        rw [keyword_properties, unlessEmpty_eq_some_iff]
        exact ⟨by simpa using hne, rfl⟩
      exact h _ hdeclared name _ (by rw [dictGet_map_values, hinner]; rfl) held hdoc value hvalue
    · intro h declared hdeclared name schema hschema held hdoc value hvalue
      rw [keyword_properties, unlessEmpty_eq_some_iff] at hdeclared
      obtain rfl := Json.obj.inj hdeclared.2
      rw [dictGet_map_values] at hschema
      obtain ⟨inner, hinner, rfl⟩ := Option.map_eq_some_iff.mp hschema
      exact h name inner hinner held hdoc value hvalue
  · rw [keyword_items]
    constructor
    · intro h inner hinner
      exact h _ (by rw [hinner]; rfl)
    · intro h items hitems
      obtain ⟨inner, hinner, rfl⟩ := Option.map_eq_some_iff.mp hitems
      exact h inner hinner
  · rw [keyword_anyOf]
    constructor
    · intro h
      by_cases hnone : s.anyOf = []
      · exact .inl hnone
      · obtain ⟨variant, hvariant, haccepts⟩ :=
          h _ (unlessEmpty_eq_some_iff.mpr ⟨by simpa using hnone, rfl⟩)
        obtain ⟨inner, hinner, rfl⟩ := List.mem_map.mp hvariant
        exact .inr ⟨inner, hinner, haccepts⟩
    · intro h variants hvariants
      obtain ⟨hne, harr⟩ := unlessEmpty_eq_some_iff.mp hvariants
      obtain rfl := Json.arr.inj harr
      obtain hnone | ⟨variant, hvariant, haccepts⟩ := h
      · exact absurd (by rw [hnone]; rfl) hne
      · exact ⟨_, List.mem_map_of_mem hvariant, haccepts⟩

theorem lower_eq_null_iff {type : SchemaType} : type.lower = "null" ↔ type = .null := by
  cases type <;> decide +kernel

/-- What a node's own keywords ask of null: that there is no `enum`. -/
theorem asks_null_iff : s.Asks R .null ↔ s.enum = none := by
  constructor
  · intro h
    by_contra hsome
    obtain ⟨values, hvalues⟩ := Option.ne_none_iff_exists'.mp hsome
    obtain ⟨value, -, hdoc⟩ := h.enum values hvalues
    cases hdoc
  · intro h
    refine ⟨fun name _ => R.format_null name, ?_, ?_, ?_, ?_, ?_, ?_, ?_, ?_⟩
    · intro _ _ text hdoc
      cases hdoc
    · intro values hvalues
      rw [h] at hvalues
      cases hvalues
    · intro _ _ x hx
      cases hx
    · intro _ _ x hx
      cases hx
    · intro sized n _ size hsize
      cases sized <;> cases hsize
    · intro sized n _ size hsize
      cases sized <;> cases hsize
    · intro _ _ _ _ held hdoc
      cases hdoc
    · intro _ held hdoc
      cases hdoc

theorem accepts_null_iff (s : ResponseSchema) :
    Accepts R (toJsonSchema s) .null ↔ s.takesNull = true := by
  induction s using ResponseSchema.induct with
  | node s _ _ hvariants =>
    have htype : (∀ type, s.type = some type →
        type.lower ∈ R.types .null ∨ s.nullable = some true ∧ Json.null = .null) ↔
        (∀ type, s.type = some type → type = .null) ∨ s.nullable = some true := by
      have hnull : ∀ type : SchemaType, type.lower ∈ R.types .null ↔ type = .null := fun type =>
        List.mem_singleton.trans lower_eq_null_iff
      simp only [hnull, and_true]
      by_cases hnullable : s.nullable = some true <;> simp [hnullable]
    have hsome : (∃ variant ∈ s.anyOf, Accepts R (toJsonSchema variant) .null) ↔
        ∃ variant ∈ s.anyOf, variant.takesNull = true :=
      exists_congr fun variant => and_congr_right fun hvariant => hvariants variant hvariant
    rw [accepts_toJsonSchema, takesNull_iff, htype, asks_null_iff, hsome, and_assoc]
    refine and_congr_right fun _ => and_congr_right fun _ => ?_
    refine ⟨fun h => h.2.2, fun h => ⟨fun _ _ _ held hdoc => ?_, fun _ _ values hdoc => ?_, h⟩⟩
    · cases hdoc
    · cases hdoc

/-- A schema whose nodes keep their null means what its translation accepts. -/
theorem accepts_iff_satisfies (s : ResponseSchema)
    (h : ∀ path t, s.standing path = some t → t.KeepsNull) (doc : Json) :
    Accepts R (toJsonSchema s) doc ↔ Satisfies R s doc := by
  induction s using ResponseSchema.induct generalizing doc with
  | node s hproperties hitems hvariants =>
    by_cases hflag : s.nullable = some true ∧ (s.type.isSome = true ∨ s.anyOf ≠ []) ∧ doc = .null
    · obtain ⟨hnullable, hstates, rfl⟩ := hflag
      have htakes := h [] s rfl hnullable hstates
      exact ⟨fun _ => satisfies_iff.mpr (.inl ⟨hnullable, hstates, rfl⟩),
        fun _ => (accepts_null_iff s).mpr htakes⟩
    · rw [satisfies_iff, or_iff_right hflag, accepts_toJsonSchema, and_assoc]
      refine and_congr ?_ (and_congr_right fun _ => and_congr ?_ (and_congr ?_ ?_))
      · refine forall_congr' fun type => forall_congr' fun htype => or_iff_left ?_
        rintro ⟨hnullable, hdoc⟩
        exact hflag ⟨hnullable, .inl (by rw [htype]; rfl), hdoc⟩
      · refine forall_congr' fun name => forall_congr' fun inner => forall_congr' fun hinner => ?_
        have hmem := dictGet_mem hinner
        obtain ⟨i, hi⟩ := List.mem_iff_getElem?.mp hmem
        have hinto : s.into (.property i) = some inner := by
          rw [ResponseSchema.into, hi, Option.map_some]
        have hrest := @ResponseSchema.standing_into _ s inner h (.property i) hinto
        simp only [hproperties _ hmem hrest]
      · refine forall_congr' fun inner => forall_congr' fun hinner => ?_
        have hrest := @ResponseSchema.standing_into _ s inner h .items hinner
        simp only [hitems inner hinner hrest]
      · refine or_congr_right (exists_congr fun variant => and_congr_right fun hvariant => ?_)
        obtain ⟨i, hi⟩ := List.mem_iff_getElem?.mp hvariant
        exact hvariants variant hvariant
          (@ResponseSchema.standing_into _ s variant h (.variant i) hi) doc

/-- **The translation keeps what every node asks** exactly where every node that is nullable keeps
its null. -/
theorem toJsonSchema_faithful_iff (R : Reading) (s : ResponseSchema) :
    (∀ path t, s.standing path = some t →
      ∀ doc, Accepts R (toJsonSchema t) doc ↔ Satisfies R t doc) ↔
    ∀ path t, s.standing path = some t → t.KeepsNull := by
  constructor
  · intro h path t ht hnullable hstates
    exact (accepts_null_iff t).mp ((h path t ht .null).mpr
      (satisfies_iff.mpr (.inl ⟨hnullable, hstates, rfl⟩)))
  · intro h path t ht
    refine accepts_iff_satisfies t fun path' t' ht' => h (path ++ path') t' ?_
    rw [ResponseSchema.standing_append, ht, Option.bind_some, ht']

end Equivalence

/-- A reading that asks nothing. -/
def openReading : Reading where
  matching _ _ := True
  format _ _ := True
  worth _ := 0
  format_null _ := trivial
  format_nameless _ := trivial

/-- A text or null, stated as a union. -/
def nullableUnion : ResponseSchema where
  anyOf := [{ type := some .string }]
  nullable := some true

/-- One of a list of texts, or null. -/
def nullableChoice : ResponseSchema where
  type := some .string
  enum := some ["a"]
  nullable := some true

/-- **A null that is lost**: both admit it and neither translation does. -/
theorem null_lost :
    (Satisfies openReading nullableUnion .null ∧
      ¬Accepts openReading (toJsonSchema nullableUnion) .null) ∧
    Satisfies openReading nullableChoice .null ∧
      ¬Accepts openReading (toJsonSchema nullableChoice) .null := by
  refine ⟨⟨?_, ?_⟩, ?_, ?_⟩
  · exact satisfies_iff.mpr (.inl ⟨rfl, .inr (List.cons_ne_nil _ _), rfl⟩)
  · rw [accepts_null_iff]
    decide
  · exact satisfies_iff.mpr (.inl ⟨rfl, .inl rfl, rfl⟩)
  · rw [accepts_null_iff]
    decide

end AiraGateway
