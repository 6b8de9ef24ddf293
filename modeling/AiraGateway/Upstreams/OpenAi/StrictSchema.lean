import AiraGateway.Pipeline.NamedModels
import AiraGateway.Upstreams.SchemaRewriting

/-!
# Strict schemas on the OpenAI dialect

Strict mode takes a schema whose objects are closed and require every property; `strictSchema`
rewrites the translation of a caller's schema into one (`closeStrict`).

* `strictSchema_narrows`: the rewriting keeps a schema's words and accepts no more than its
  translation where every default is left as it is and no object requires a name it does not
  declare.
* `required_lost`: an object that requires an undeclared name, accepted without it, and a default
  that is rewritten.
-/

namespace AiraGateway.OpenAi

open JsonSchema

/-! ### The rewriting -/

/-- An object closed: no other name allowed and every property required. -/
def closeStrict (members : List (Text × Json)) : Option (List (Text × Json)) :=
  if isObjectType (dictGet members "type") then
    (entries (dictGet members "properties")).map fun names =>
      dictSet (dictSet members "additionalProperties" (.bool false)) "required" (.arr names)
  else some members

def strict : Json → Option Json := rewriteAll closeStrict

/-- A schema as strict mode accepts it; nothing where the rewriting fails. -/
def strictSchema (schema : ResponseSchema) : Option Json := strict (toJsonSchema schema)

/-- The constraints strict mode lacks that a node uses. -/
def unsupportedStrict (k : SchemaKeywords) : List Text :=
  ([("max_length", k.maxLength.isSome), ("max_properties", k.maxProperties.isSome),
      ("min_length", k.minLength.isSome), ("min_properties", k.minProperties.isSome),
      ("additionalProperties: true", k.additionalProperties = some true)] :
    List (Text × Bool)).filterMap fun (name, used) => if used then some name else none

def strictRefusal (used : List Text) : Option Text :=
  if used = [] then none
  else some (("this platform's strict structured output does not support " : Text) ++
    List.intercalate (", " : Text) used ++
    (", and a schema sent without them would be satisfied by an answer the caller's " : Text) ++
    ("constraint excludes" : Text))

mutual

/-- Why strict mode cannot express a schema: the first node in it that says why, then its own. -/
def schemaRefusal : ResponseSchema → Option Text
  | ⟨keywords, properties, items, anyOf⟩ =>
    (((refusalOfProperties properties).or (refusalOfItems items)).or (refusalOfVariants anyOf)).or
      (strictRefusal (unsupportedStrict keywords))

def refusalOfProperties : List (Text × ResponseSchema) → Option Text
  | [] => none
  | (_, schema) :: rest => (schemaRefusal schema).or (refusalOfProperties rest)

def refusalOfItems : Option ResponseSchema → Option Text
  | none => none
  | some schema => schemaRefusal schema

def refusalOfVariants : List ResponseSchema → Option Text
  | [] => none
  | schema :: rest => (schemaRefusal schema).or (refusalOfVariants rest)

end

/-! ### Closing an object -/

theorem closeStrict_eq_some_iff {members closed : List (Text × Json)} :
    closeStrict members = some closed ↔
      (isObjectType (dictGet members "type") = false ∧ members = closed) ∨
      ∃ names, isObjectType (dictGet members "type") = true ∧
        entries (dictGet members "properties") = some names ∧
        dictSet (dictSet members "additionalProperties" (.bool false)) "required" (.arr names)
          = closed := by
  rw [closeStrict]
  cases isObjectType (dictGet members "type") <;> simp [Option.map_eq_some_iff]

def strictClosing : Closing where
  close := closeStrict
  onProperties := by
    intro declared closed hobjects hclose
    obtain ⟨-, heq⟩ | ⟨names, hobject, -⟩ := closeStrict_eq_some_iff.mp hclose
    · exact heq.symm
    · -- a property named `type` is a schema and no type
      exfalso
      cases htype : dictGet declared "type" with
      | none => rw [htype] at hobject; cases hobject
      | some value =>
        obtain ⟨members, hmembers⟩ := hobjects _ (dictGet_mem htype)
        obtain rfl : value = .obj members := hmembers
        rw [htype, isObjectType_obj] at hobject
        cases hobject
  onKeywords := by
    intro keywords closed hclose key _ hadditional hrequired
    obtain ⟨-, rfl⟩ | ⟨names, -, -, rfl⟩ := closeStrict_eq_some_iff.mp hclose
    · rfl
    · rw [dictGet_dictSet, if_neg hrequired, dictGet_dictSet, if_neg hadditional]

theorem strictSchema_eq (s : ResponseSchema) : strictSchema s = strictClosing.rewritten s := rfl

/-! ### What a strict schema says -/

section Strict

variable {s : ResponseSchema} {closed : List (Text × Json)}

/-- A strict node: its keywords walked, and closed where its type is an object. -/
theorem exists_of_strict {made : Json} (h : strictSchema s = some made) :
    ∃ walked closed, made = .obj closed ∧ closeStrict walked = some closed ∧
      dictGet walked "type" = s.typeWord ∧ declaredNames walked = s.properties.map (·.1) ∧
      (∀ key, dictGet walked key
        = (dictGet (present s.fields) key).bind (rewriteAll closeStrict)) := by
  obtain ⟨walked, closed, rfl, hclose, hwalked⟩ :=
    @Closing.exists_of_rewritten strictClosing s made h
  have htype : dictGet walked "type" = s.typeWord := by
    rw [(hwalked "type").1, keyword_type]
    exact @Closing.rewriteAll_typeWord strictClosing s.toSchemaKeywords
  have hproperties : dictGet walked "properties" = dictGet closed "properties" :=
    (strictClosing.onKeywords hclose "properties" (by decide +kernel) (by decide +kernel)
      (by decide +kernel)).symm
  have hnames : declaredNames walked = declaredNames closed := by
    rw [declaredNames, declaredNames, hproperties]
  exact ⟨walked, closed, rfl, hclose, htype,
    hnames.trans (@Closing.declaredNames_rewritten strictClosing s closed h),
    fun key => (hwalked key).1⟩

/-- What closing says of an object type. -/
structure Closed (t : ResponseSchema) (members : List (Text × Json)) : Prop where
  additional : dictGet members "additionalProperties" = some (.bool false)
  required : dictGet members "required" = some (texts (t.properties.map (·.1)))

/-- **Every object of a strict schema is closed** and requires its properties. -/
theorem closed_of_strict (h : strictSchema s = some (.obj closed))
    (hobject : s.type = some .object) : Closed s closed := by
  obtain ⟨walked, closed', hmade, hclose, htype, hnames, hwalked⟩ := exists_of_strict h
  obtain rfl := Json.obj.inj hmade
  obtain ⟨hother, -⟩ | ⟨names, -, hentries, rfl⟩ := closeStrict_eq_some_iff.mp hclose
  · rw [htype, isObjectType_typeWord.mpr hobject] at hother
    cases hother
  · rw [entries_properties (@Closing.walked_properties_obj strictClosing _ _ (hwalked "properties"))] at hentries
    obtain rfl := Option.some.inj hentries
    refine ⟨?_, ?_⟩
    · rw [dictGet_dictSet, if_neg (by decide +kernel), dictGet_dictSet, if_pos rfl]
    · rw [dictGet_dictSet, if_pos rfl, hnames]
      rfl

/-- What a strict node says of formats, required names and other names. -/
theorem stated_of_strict {R : Reading} {doc : Json} (h : strictSchema s = some (.obj closed))
    (hrequires : s.type = some .object → ∀ names, s.required = some names →
      ∀ name ∈ names, name ∈ s.properties.map (·.1))
    (hstated : R.Stated closed doc) : R.Stated (present s.fields) doc := by
  have hdeclared : declaredNames closed = declaredNames (present s.fields) := by
    rw [@Closing.declaredNames_rewritten strictClosing s closed h, declaredNames_present]
  obtain ⟨walked, closed', hmade, hclose, htype, hnames, hwalked⟩ := exists_of_strict h
  obtain rfl := Json.obj.inj hmade
  have hformat : dictGet walked "format" = dictGet (present s.fields) "format" := by
    rw [hwalked, keyword_format]
    exact @Closing.bind_map_rewriteAll strictClosing _ _ (fun text => rfl) _
  by_cases hobject : s.type = some .object
  · have hclosed := closed_of_strict h hobject
    have hkept : dictGet closed "format" = dictGet walked "format" := by
      obtain ⟨-, rfl⟩ | ⟨names, -, -, rfl⟩ := closeStrict_eq_some_iff.mp hclose
      · rfl
      · rw [dictGet_dictSet, if_neg (by decide +kernel), dictGet_dictSet,
          if_neg (by decide +kernel)]
    refine ⟨?_, ?_, ?_⟩
    · rw [← hformat, ← hkept]
      exact hstated.format
    · intro stated hrequired name hname held hdoc
      rw [keyword_required] at hrequired
      obtain ⟨required, hnamed, harr⟩ := Option.map_eq_some_iff.mp hrequired
      obtain rfl := Json.arr.inj harr
      obtain ⟨asked, hasked, hstr⟩ := List.mem_map.mp hname
      obtain rfl := Json.str.inj hstr
      exact hstated.required _ hclosed.required asked
        (List.mem_map_of_mem (hrequires hobject required hnamed asked hasked)) held hdoc
    · rw [← hdeclared]
      exact fun _ => hstated.closed hclosed.additional
  · -- what is no object is left as it was walked
    obtain ⟨-, rfl⟩ | ⟨names, hother, -⟩ := closeStrict_eq_some_iff.mp hclose
    · refine ⟨?_, ?_, ?_⟩
      · rw [← hformat]
        exact hstated.format
      · have hrequired : dictGet walked "required" = dictGet (present s.fields) "required" := by
          rw [hwalked, keyword_required]
          exact @Closing.bind_map_rewriteAll strictClosing _ _ rewriteAll_texts _
        rw [← hrequired]
        exact hstated.required
      · have hadditional : dictGet walked "additionalProperties"
            = dictGet (present s.fields) "additionalProperties" := by
          rw [hwalked, keyword_additionalProperties]
          exact @Closing.bind_map_rewriteAll strictClosing _ _ (fun b => rfl) _
        rw [← hadditional, ← hdeclared]
        exact hstated.closed
    · rw [htype] at hother
      exact absurd (isObjectType_typeWord.mp hother) hobject

end Strict

/-! ### Literals -/

/-- An object of a literal that closing leaves as it is. -/
def leftClosed (members : List (Text × Json)) : Bool :=
  !isObjectType (dictGet members "type") ||
    match entries (dictGet members "properties") with
    | some names =>
      holdsAs members "additionalProperties" (.bool false) &&
        holdsAs members "required" (.arr names)
    | none => false

theorem additional_ne_required : ("additionalProperties" : Text) ≠ "required" := by decide +kernel

theorem closeStrict_eq_self_iff (members : List (Text × Json)) :
    closeStrict members = some members ↔ leftClosed members = true := by
  rw [closeStrict_eq_some_iff, leftClosed]
  cases isObjectType (dictGet members "type") with
  | false => simp
  | true =>
    cases hentries : entries (dictGet members "properties") with
    | none => simp
    | some names =>
      simp only [Bool.true_eq_false, false_and, false_or, true_and, Option.some.injEq,
        exists_eq_left', Bool.not_true, Bool.false_or, Bool.and_eq_true]
      constructor
      · intro h
        rw [← h]
        exact ⟨holdsAs_dictSet_of_ne additional_ne_required holdsAs_dictSet, holdsAs_dictSet⟩
      · rintro ⟨hadditional, hrequired⟩
        rw [dictSet_eq_self hadditional, dictSet_eq_self hrequired]

/-- What closes to what it was walked from is that. -/
theorem eq_of_closeStrict {members walked : List (Text × Json)}
    (hwalked : rewriteMembers closeStrict members = some walked)
    (hclose : closeStrict walked = some members) : walked = members := by
  obtain ⟨-, heq⟩ | ⟨names, hobject, hentries, heq⟩ := closeStrict_eq_some_iff.mp hclose
  · exact heq
  · have hproperties : dictGet members "properties" = dictGet walked "properties" :=
      strictClosing.onKeywords hclose "properties" (by decide +kernel) (by decide +kernel)
        (by decide +kernel)
    have hnames : rewriteAll closeStrict (.arr names) = some (.arr names) := by
      have hget := dictGet_rewriteMembers hwalked "properties"
      rw [hproperties] at hget
      cases hvalue : dictGet walked "properties" with
      | none =>
        rw [hvalue] at hentries
        obtain rfl := Option.some.inj hentries
        rfl
      | some value =>
        rw [hvalue] at hget hentries
        exact rewriteAll_entries hget.symm hentries
    have hadditional : holdsAs walked "additionalProperties" (.bool false) = true := by
      refine holdsAs_of_rewriteMembers hwalked rfl ?_
      rw [← heq]
      exact holdsAs_dictSet_of_ne additional_ne_required holdsAs_dictSet
    have hrequired : holdsAs walked "required" (.arr names) = true := by
      refine holdsAs_of_rewriteMembers hwalked hnames ?_
      rw [← heq]
      exact holdsAs_dictSet
    rw [← heq, dictSet_eq_self hadditional, dictSet_eq_self hrequired]

/-- A literal the rewriting leaves as it is: each object in it is of no object type, or closed and
requiring what it declares. -/
def leftByStrict : Json → Bool := eachObject leftClosed

theorem strict_eq_self_iff (value : Json) : strict value = some value ↔ leftByStrict value = true :=
  rewriteAll_eq_self_iff closeStrict_eq_self_iff (fun _ _ => eq_of_closeStrict) value

/-! ### Soundness -/

/-- A strict schema that only narrows: at every place it keeps the node's words and closes an object
type, and it accepts no more than the translation. -/
structure Narrows (s : ResponseSchema) (made : Json) : Prop where
  words : ∀ path t, s.standing path = some t → ∃ members,
    schemaAt path made = some (.obj members) ∧ Closing.KeepsWords t members ∧
      (t.type = some .object → Closed t members)
  narrower : ∀ (R : Reading) doc, Accepts R made doc → Accepts R (toJsonSchema s) doc

/-- Every default is left as it is. -/
def DefaultsLeft (s : ResponseSchema) : Prop :=
  ∀ path t, s.standing path = some t → ∀ value, t.default = some value → leftByStrict value = true

/-- Every object requires only what it declares. -/
def RequiresDeclared (s : ResponseSchema) : Prop :=
  ∀ path t, s.standing path = some t → t.type = some .object → ∀ names, t.required = some names →
    ∀ name ∈ names, name ∈ t.properties.map (·.1)

theorem closable_of_left {t : ResponseSchema}
    (h : ∀ value, t.default = some value → leftByStrict value = true) :
    Closing.Closable strictClosing t where
  default := fun value hvalue => ⟨value, (strict_eq_self_iff value).mpr (h value hvalue)⟩
  map := by
    intro declared hobjects _
    refine ⟨declared, closeStrict_eq_some_iff.mpr (.inl ⟨?_, rfl⟩)⟩
    cases htype : dictGet declared "type" with
    | none => rfl
    | some value =>
      obtain ⟨members, hmembers⟩ := hobjects _ (dictGet_mem htype)
      obtain rfl : value = .obj members := hmembers
      exact isObjectType_obj members
  node := by
    intro walked hwalked
    have hentries := entries_properties (@Closing.walked_properties_obj strictClosing _ _ (hwalked "properties"))
    have hclose : strictClosing.close walked = closeStrict walked := rfl
    rw [hclose, closeStrict, hentries]
    split
    · exact ⟨_, rfl⟩
    · exact ⟨_, rfl⟩

/-- A node requires a name it does not declare. -/
def RequiresUndeclared (t : ResponseSchema) : Prop :=
  t.type = some .object ∧
    ∃ names, t.required = some names ∧ ∃ name ∈ names, name ∉ t.properties.map (·.1)

/-- The object that stands at a place of a strict schema. -/
theorem exists_closed {s t : ResponseSchema} {path : List Step} {made : Json}
    (h : strictSchema s = some made) (ht : s.standing path = some t) :
    ∃ closed, strictSchema t = some (.obj closed) ∧ schemaAt path made = some (.obj closed) := by
  obtain ⟨made', hmade', hat⟩ := @Closing.schemaAt_rewritten strictClosing s path t made h ht
  obtain ⟨-, closed, rfl, -, -⟩ := Closing.exists_of_rewritten hmade'
  exact ⟨closed, hmade', hat⟩

theorem narrows_of_left {s : ResponseSchema} (hdefaults : DefaultsLeft s)
    (hrequires : RequiresDeclared s) : ∃ made, strictSchema s = some made ∧ Narrows s made := by
  obtain ⟨made, hmade⟩ := @Closing.exists_rewritten strictClosing s
    fun path t ht => closable_of_left (hdefaults path t ht)
  refine ⟨made, hmade, fun path t ht => ?_, fun R doc haccepts => ?_⟩
  · obtain ⟨closed, hclosed, hat⟩ := exists_closed hmade ht
    refine ⟨closed, hat, (@Closing.keepsWords_iff strictClosing t closed hclosed).mpr
      fun value hvalue => ?_, fun hobject => closed_of_strict hclosed hobject⟩
    exact (strict_eq_self_iff value).mpr (hdefaults path t ht value hvalue)
  · refine @Closing.narrower_of_rewritten strictClosing s R made hmade ?_ doc haccepts
    intro path t closed ht hclosed doc hown
    exact hown.of_same
      (fun key hkey => @Closing.keyword_kept strictClosing t closed hclosed key hkey)
      (stated_of_strict hclosed (hrequires path t ht) hown.stated)

/-- An object type that requires an undeclared name: no object is accepted by both. -/
theorem not_accepts_of_undeclared {t : ResponseSchema} {closed held : List (Text × Json)}
    {R : Reading} (h : strictSchema t = some (.obj closed)) (hrequires : RequiresUndeclared t)
    (haccepts : Accepts R (.obj closed) (.obj held)) : ¬Accepts R (toJsonSchema t) (.obj held) := by
  intro htranslation
  obtain ⟨hobject, names, hnames, name, hname, hundeclared⟩ := hrequires
  have hadditional := (closed_of_strict h hobject).additional
  have hdeclared := (accepts_obj.mp haccepts).1.closed hadditional held rfl
  rw [@Closing.declaredNames_rewritten strictClosing t closed h] at hdeclared
  rw [toJsonSchema_eq] at htranslation
  have hrequired := (accepts_obj.mp htranslation).1.required (names.map .str)
    (by rw [keyword_required, hnames]; rfl) name (List.mem_map_of_mem hname) held rfl
  obtain ⟨value, hvalue⟩ := Option.isSome_iff_exists.mp hrequired
  exact hundeclared (hdeclared _ (dictGet_mem hvalue))

/-- **A strict schema only narrows** where every default is left as it is and every object requires
only what it declares. One that only narrows has left every default, and where an object requires
an undeclared name, no object that the strict schema there accepts satisfies the translation. -/
theorem strictSchema_narrows (s : ResponseSchema) :
    (DefaultsLeft s → RequiresDeclared s → ∃ made, strictSchema s = some made ∧ Narrows s made) ∧
    ∀ made, strictSchema s = some made →
      (Narrows s made → DefaultsLeft s) ∧
      ∀ path t, s.standing path = some t → RequiresUndeclared t →
        ∃ made', schemaAt path made = some made' ∧ ∀ R held,
          Accepts R made' (.obj held) → ¬Accepts R (toJsonSchema t) (.obj held) := by
  refine ⟨narrows_of_left, fun made hmade => ⟨fun hnarrows path t ht value hvalue => ?_,
    fun path t ht hrequires => ?_⟩⟩
  · obtain ⟨closed, hclosed, hat⟩ := exists_closed hmade ht
    obtain ⟨members, hat', hwords, -⟩ := hnarrows.words path t ht
    obtain rfl := Json.obj.inj (Option.some.inj (hat.symm.trans hat'))
    exact (strict_eq_self_iff value).mp
      ((@Closing.keepsWords_iff strictClosing t closed hclosed).mp hwords value hvalue)
  · obtain ⟨closed, hclosed, hat⟩ := exists_closed hmade ht
    exact ⟨_, hat, fun R held => not_accepts_of_undeclared hclosed hrequires⟩

/-- An object of which nothing more is said. -/
def anyObject : ResponseSchema where
  type := some .object

/-- A schema without inner schemas is all that stands in it. -/
theorem standing_anyObject {path : List Step} {t : ResponseSchema}
    (h : anyObject.standing path = some t) : t = anyObject := by
  cases path with
  | nil => exact (Option.some.inj h).symm
  | cons step path =>
    have hnone : anyObject.into step = none := by cases step <;> rfl
    rw [ResponseSchema.standing, hnone] at h
    cases h

theorem strictSchema_narrows_anyObject :
    ∃ made, strictSchema anyObject = some made ∧ Narrows anyObject made := by
  refine (strictSchema_narrows anyObject).1 (fun path t ht value hvalue => ?_)
    (fun path t ht _ names hnames => ?_)
  · obtain rfl := standing_anyObject ht
    cases hvalue
  · obtain rfl := standing_anyObject ht
    cases hnames

/-- An object that requires a name it does not declare. -/
def undeclared : ResponseSchema where
  type := some .object
  required := some ["b"]

/-- An object with a default that looks like a schema. -/
def schemaLike : ResponseSchema where
  type := some .object
  default := some (.obj [("type", .str "object")])

/-- What strict mode is sent for `undeclared`. -/
def undeclaredStrict : List (Text × Json) :=
  [("type", .str "object"), ("required", .arr []), ("additionalProperties", .bool false)]

theorem accepts_undeclaredStrict : Accepts openReading (.obj undeclaredStrict) (.obj []) := by
  have habsent : ∀ key ∈ (["format", "pattern", "enum", "minimum", "maximum", "minLength",
      "minItems", "minProperties", "maxLength", "maxItems", "maxProperties", "properties", "items",
      "anyOf"] : List Text), dictGet undeclaredStrict key = none := by decide +kernel
  have hsized : ∀ sized : Sized, dictGet undeclaredStrict sized.atLeast = none ∧
      dictGet undeclaredStrict sized.atMost = none := by
    intro sized
    cases sized <;> exact ⟨habsent _ (by decide +kernel), habsent _ (by decide +kernel)⟩
  refine accepts_obj.mpr ⟨⟨?_, ?_, ?_, ?_, ?_, ?_, ?_, ?_, ?_, ?_⟩, ?_, ?_, ?_⟩
  · intro value hvalue
    have htype : dictGet undeclaredStrict "type" = some (.str "object") := by decide +kernel
    obtain rfl := Option.some.inj (htype.symm.trans hvalue)
    exact ⟨"object", List.mem_cons_self, List.mem_cons_self⟩
  · intro name hname
    trivial
  · intro pattern hpattern
    rw [habsent "pattern" (by decide +kernel)] at hpattern
    cases hpattern
  · intro values hvalues
    rw [habsent "enum" (by decide +kernel)] at hvalues
    cases hvalues
  · intro bound _ x hx
    cases hx
  · intro bound _ x hx
    cases hx
  · intro sized n hn
    rw [(hsized sized).1] at hn
    cases hn
  · intro sized n hn
    rw [(hsized sized).2] at hn
    cases hn
  · intro names hnames name hname
    have hrequired : dictGet undeclaredStrict "required" = some (.arr []) := by decide +kernel
    obtain rfl := Json.arr.inj (Option.some.inj (hrequired.symm.trans hnames))
    cases hname
  · intro _ held hdoc entry hentry
    obtain rfl := Json.obj.inj hdoc
    cases hentry
  · intro declared hdeclared
    rw [habsent "properties" (by decide +kernel)] at hdeclared
    cases hdeclared
  · intro items hitems
    rw [habsent "items" (by decide +kernel)] at hitems
    cases hitems
  · intro variants hvariants
    rw [habsent "anyOf" (by decide +kernel)] at hvariants
    cases hvariants

/-- **A requirement that is lost**, and a default that is changed: neither schema is refused. -/
theorem required_lost :
    (schemaRefusal undeclared = none ∧
      strictSchema undeclared = some (.obj undeclaredStrict) ∧
      Accepts openReading (.obj undeclaredStrict) (.obj []) ∧
      ¬Accepts openReading (toJsonSchema undeclared) (.obj [])) ∧
    schemaRefusal schemaLike = none ∧
      (strictSchema schemaLike).bind (·.get "default")
        = some (.obj [("type", .str "object"), ("additionalProperties", .bool false),
          ("required", .arr [])]) ∧
      (toJsonSchema schemaLike).get "default" = some (.obj [("type", .str "object")]) := by
  refine ⟨⟨rfl, by decide +kernel, accepts_undeclaredStrict, fun haccepts => ?_⟩, rfl,
    by decide +kernel, by decide +kernel⟩
  rw [toJsonSchema_eq] at haccepts
  have hrequired := (accepts_obj.mp haccepts).1.required [.str "b"]
    (by rw [keyword_required]; rfl) "b" List.mem_cons_self [] rfl
  cases hrequired

end AiraGateway.OpenAi
