import AiraGateway.Library.Json

/-!
# A stored pipeline as the gateway reads it

A pipeline is an ordered list of steps and one chain of fallback models for each kind of request.
It arrives as JSON from a read-model that other programs can write as well, so it is read
leniently: `Pipeline.fromDict` gives a pipeline for every document. A value of the wrong type is
left out, a word that a closed vocabulary does not hold is read as the one that refuses or reads
more, and what is too long is cut.

A step's configuration stays a dictionary here, as its evaluation reads it.

* `dictGet_readConfig`: what is read under a key depends on what is written there alone.
* `fromDict_within`: whatever the document, every word is of its vocabulary and every text and
  list is within its bound.
* `fromDict_toJson`: the pipeline written back as JSON is read as the same pipeline.
-/

namespace AiraGateway

/-! ### Vocabularies and bounds -/

def maxSteps : ℕ := 32

/-- The length of a chain, a step's own included. -/
def maxFallbackModels : ℕ := 16

def maxModelLength : ℕ := 128

def maxTextLength : ℕ := 4000

def maxCategories : ℕ := 32

/-- How many custom patterns one filter may carry. -/
def maxPatterns : ℕ := 64

def maxPatternLength : ℕ := 256

/-- The steps a pipeline may run before dispatch. -/
inductive StepType
  | injectionFilter
  | modelRoute
  | piiFilter
  deriving DecidableEq, Repr

namespace StepType

def value : StepType → Text
  | injectionFilter => "injection_filter"
  | modelRoute => "model_route"
  | piiFilter => "pii_filter"

def all : List StepType := [injectionFilter, modelRoute, piiFilter]

/-- The type a word names, if it names one. -/
def ofText? (word : Text) : Option StepType := all.find? (·.value = word)

end StepType

/-- The kinds of model access a use case keeps a chain for. -/
inductive FallbackKind
  | generate
  | embed
  | rerank
  deriving DecidableEq, Repr

/-- The pipeline field that holds a use case's chain for a kind. -/
def FallbackKind.chainField : FallbackKind → Text
  | generate => "fallback_models"
  | embed => "embedding_fallback_models"
  | rerank => "ranking_fallback_models"

def FallbackKind.all : List FallbackKind := [generate, embed, rerank]

/-- A closed vocabulary: the words it knows, and how a word it does not know is read. -/
structure Vocabulary where
  words : List Text
  unknown : Text

def injectionModes : List Text := ["heuristic", "llm"]

def filterActions : List Text := ["block", "flag"]

def scanScopes : List Text := ["user", "system_user"]

def failurePolicies : List Text := ["block", "allow"]

/-- The closed vocabularies a step of each type reads. A word that one of them does not hold is
read in the direction that refuses or reads more. -/
def vocabularies : StepType → List (Text × Vocabulary)
  | .injectionFilter =>
    [("mode", ⟨injectionModes, "heuristic"⟩), ("action", ⟨filterActions, "block"⟩),
      ("scope", ⟨scanScopes, "system_user"⟩), ("on_undetermined", ⟨failurePolicies, "block"⟩)]
  | .modelRoute => []
  | .piiFilter => [("on_failure", ⟨failurePolicies, "block"⟩)]

/-- The keys a step's evaluation reads. -/
def stepConfigKeys : StepType → List Text
  | .injectionFilter =>
    ["mode", "action", "scope", "patterns", "use_builtins", "instruction", "on_undetermined",
      "model", "fallback_models"]
  | .modelRoute => ["model", "fallback_models", "categories", "default_model", "notice"]
  | .piiFilter => ["model", "fallback_models", "instruction", "notice", "on_failure"]

/-- What one routing category says. -/
def categoryKeys : List Text := ["name", "description", "model"]

def nameFields : List Text := ["model", "default_model"]

def textFields : List Text := ["instruction", "notice"]

def listFields : List Text := ["fallback_models", "categories", "patterns"]

/-- The fields of a step that belong to no vocabulary. -/
def otherFields : List Text :=
  nameFields ++ textFields ++ listFields ++ (["use_builtins"] : List Text)

/-! ### What a value is -/

namespace Json

def text? : Json → Option Text
  | str text => some text
  | _ => none

def isText (v : Json) : Bool := v.text?.isSome

def isList : Json → Bool
  | arr _ => true
  | _ => false

def isFlag : Json → Bool
  | bool _ => true
  | _ => false

/-- Text, or an explicit null. -/
def isTextOrNull (v : Json) : Bool := v.isText || v = null

/-- One of the words, compared as text. -/
def isWord (v : Json) (words : List Text) : Bool := words.any fun word => v = str word

end Json

/-! ### A step's configuration -/

/-- The text entries of a list; anything else is not a name or a pattern. -/
def strings (values : List Json) : List Text := values.filterMap Json.text?

/-- A list with its text entries alone. -/
def textEntries : Json → Json
  | .arr values => .arr ((strings values).map .str)
  | v => v

/-- A value as one of a vocabulary's words. -/
def Vocabulary.read (vocabulary : Vocabulary) (v : Json) : Json :=
  if v.isWord vocabulary.words then v else .str vocabulary.unknown

/-- A value as a step of this type reads it under a key: the text entries of a list of patterns, a
flag that only a real `false` turns off, a word of its vocabulary. -/
def typedValue (stepType : StepType) (key : Text) (v : Json) : Json :=
  if key = "patterns" then textEntries v
  else if key = "use_builtins" then if v.isFlag then v else .bool true
  else ((dictGet (vocabularies stepType) key).map (·.read v)).getD v

/-- The configuration with every field a step reads holding the type it reads, or left out. -/
def typed (stepType : StepType) (config : List (Text × Json)) : List (Text × Json) :=
  let config := (nameFields ++ textFields).foldl
    (fun config key => dictKeepIf config key Json.isTextOrNull) config
  let config := listFields.foldl (fun config key => dictKeepIf config key Json.isList) config
  dictMap config (typedValue stepType)

/-- A text at or under its bound. -/
def clipped : Json → Json
  | .str text => .str (text.take maxTextLength)
  | v => v

/-- The first names of a list as the bounds allow them: no empty one, each no longer than a
catalogue name. -/
def boundedNames (names : List Json) : List Text :=
  (((strings names).take maxFallbackModels).filter (· ≠ [])).map (·.take maxModelLength)

/-- A routing category with every field held to its bound and every known field text. -/
def boundedCategory (category : List (Text × Json)) : List (Text × Json) :=
  dictMap (category.filter fun entry => entry.1 ∉ categoryKeys || entry.2.isTextOrNull)
    fun _ => clipped

/-- A category that is not an object is left out. -/
def boundedCategory? : Json → Option Json
  | .obj category => some (.obj (boundedCategory category))
  | _ => none

def boundedChain : Json → Json
  | .arr names => .arr ((boundedNames names).map .str)
  | v => v

def boundedCategories : Json → Json
  | .arr categories => .arr ((categories.take maxCategories).filterMap boundedCategory?)
  | v => v

/-- A value held to the bound of its key. -/
def boundedValue (key : Text) (v : Json) : Json :=
  if key = "fallback_models" then boundedChain (clipped v)
  else if key = "categories" then boundedCategories (clipped v)
  else clipped v

/-- The configuration with everything an operator wrote held to its bound. -/
def bounded (config : List (Text × Json)) : List (Text × Json) := dictMap config boundedValue

/-- A step's configuration as it is read. -/
def readConfig (stepType : StepType) (config : List (Text × Json)) : List (Text × Json) :=
  bounded (typed stepType config)

/-! ### A pipeline -/

structure PipelineStep where
  type : StepType
  config : List (Text × Json) := []
  deriving DecidableEq

structure Pipeline where
  steps : List PipelineStep := []
  fallbackModels : List Text := []
  embeddingFallbackModels : List Text := []
  rankingFallbackModels : List Text := []
  deriving DecidableEq

namespace Pipeline

/-- The models a request of a kind falls back to, in order. -/
def chainFor (p : Pipeline) : FallbackKind → List Text
  | .generate => p.fallbackModels
  | .embed => p.embeddingFallbackModels
  | .rerank => p.rankingFallbackModels

/-- The entries of a stored list; what is no list has none. -/
def listed (data : List (Text × Json)) (key : Text) : List Json :=
  match dictGet data key with
  | some (.arr items) => items
  | _ => []

/-- A stored step: one whose type this build does not know, and a value that is no step at all,
are skipped. -/
def step? (raw : Json) : Option PipelineStep :=
  match raw.get "type" with
  | some (.str word) =>
    (StepType.ofText? word).map fun stepType =>
      { type := stepType
        config := match raw.get "config" with
          | some (.obj config) => readConfig stepType config
          | _ => [] }
  | _ => none

/-- The use case's chain for a kind. -/
def chain (data : List (Text × Json)) (kind : FallbackKind) : List Text :=
  boundedNames (listed data kind.chainField)

/-- Read a stored or published pipeline; every malformed value is read the safe way. -/
def fromDict : Json → Pipeline
  | .obj data =>
    { steps := ((listed data "steps").take maxSteps).filterMap step?
      fallbackModels := chain data .generate
      embeddingFallbackModels := chain data .embed
      rankingFallbackModels := chain data .rerank }
  | _ => {}

/-- The pipeline as a document. -/
def toJson (p : Pipeline) : Json :=
  .obj
    [("steps", .arr (p.steps.map fun step =>
        .obj [("type", .str step.type.value), ("config", .obj step.config)])),
      (FallbackKind.generate.chainField, .arr (p.fallbackModels.map .str)),
      (FallbackKind.embed.chainField, .arr (p.embeddingFallbackModels.map .str)),
      (FallbackKind.rerank.chainField, .arr (p.rankingFallbackModels.map .str))]

end Pipeline

/-! ### What is read under a key -/

/-- Whether a value stays under its key. -/
def kept (key : Text) (v : Json) : Bool :=
  (key ∈ nameFields ++ textFields → v.isTextOrNull) ∧ (key ∈ listFields → v.isList)

private theorem filter_true (o : Option Json) : (o.filter fun _ => true) = o := by
  cases o <;> rfl

private theorem ite_filter (c : Prop) [Decidable c] (o : Option Json) (ok : Json → Bool) :
    (if c then o.filter ok else o) = o.filter fun v => c → ok v := by
  split_ifs with hc
  · simp [hc]
  · simp [hc, filter_true]

private theorem dictGet_foldl_keepIf (keys : List Text) (ok : Json → Bool)
    (config : List (Text × Json)) (key : Text) :
    dictGet (keys.foldl (fun config key => dictKeepIf config key ok) config) key =
      (dictGet config key).filter fun v => key ∈ keys → ok v := by
  induction keys generalizing config with
  | nil => simp [filter_true]
  | cons first keys ih =>
    rw [List.foldl_cons, ih, dictGet_dictKeepIf, ite_filter, Option.filter_filter]
    congr 1
    funext v
    by_cases hfirst : key = first
    · cases ok v <;> simp [hfirst]
    · simp [hfirst]

private theorem dictGet_typed (stepType : StepType) (config : List (Text × Json)) (key : Text) :
    dictGet (typed stepType config) key =
      ((dictGet config key).filter (kept key)).map (typedValue stepType key) := by
  rw [typed, dictGet_dictMap, dictGet_foldl_keepIf, dictGet_foldl_keepIf, Option.filter_filter]
  congr 2
  funext v
  rw [kept, Bool.decide_and]

/-- **What is read under a key** is what is written there, if it stays, corrected and bounded. -/
theorem dictGet_readConfig (stepType : StepType) (config : List (Text × Json)) (key : Text) :
    dictGet (readConfig stepType config) key =
      ((dictGet config key).filter (kept key)).map fun v =>
        boundedValue key (typedValue stepType key v) := by
  rw [readConfig, bounded, dictGet_dictMap, dictGet_typed, Option.map_map]
  rfl

/-! ### What is within its bound -/

/-- A text, where it is one, no longer than a bound. -/
def Json.TextWithin (bound : ℕ) (v : Json) : Prop := ∀ text, v = str text → text.length ≤ bound

structure NamesWithin (names : List Text) : Prop where
  length_le : names.length ≤ maxFallbackModels
  name : ∀ name ∈ names, name ≠ [] ∧ name.length ≤ maxModelLength

def CategoryWithin (category : List (Text × Json)) : Prop :=
  ∀ entry ∈ category, (entry.1 ∈ categoryKeys → entry.2.isTextOrNull) ∧
    entry.2.TextWithin maxTextLength

/-- A configuration whose words are of their vocabularies and whose texts and lists are within
their bounds. -/
structure ConfigWithin (stepType : StepType) (config : List (Text × Json)) : Prop where
  word : ∀ key vocabulary v, dictGet (vocabularies stepType) key = some vocabulary →
    dictGet config key = some v → v.isWord vocabulary.words
  text : ∀ entry ∈ config, entry.2.TextWithin maxTextLength
  names : ∀ v, dictGet config "fallback_models" = some v →
    ∃ names : List Text, v = .arr (names.map .str) ∧ NamesWithin names
  categories : ∀ v, dictGet config "categories" = some v →
    ∃ categories : List (List (Text × Json)), v = .arr (categories.map .obj) ∧
      categories.length ≤ maxCategories ∧ ∀ category ∈ categories, CategoryWithin category

structure Pipeline.Within (p : Pipeline) : Prop where
  steps : p.steps.length ≤ maxSteps
  config : ∀ step ∈ p.steps, ConfigWithin step.type step.config
  chain : ∀ kind, NamesWithin (p.chainFor kind)

theorem clipped_within (v : Json) : (clipped v).TextWithin maxTextLength := by
  rintro text htext
  cases v with
  | str t =>
    obtain rfl : t.take maxTextLength = text := by simpa [clipped] using htext
    exact List.length_take_le ..
  | _ => simp [clipped] at htext

theorem clipped_eq_self {v : Json} (h : v.TextWithin maxTextLength) : clipped v = v := by
  cases v with
  | str t => rw [clipped, List.take_of_length_le (h t rfl)]
  | _ => rfl

theorem boundedNames_within (names : List Json) : NamesWithin (boundedNames names) := by
  constructor
  · rw [boundedNames, List.length_map]
    exact (List.length_filter_le ..).trans (List.length_take_le ..)
  · intro name hname
    obtain ⟨whole, hwhole, rfl⟩ := List.mem_map.mp hname
    have hne : whole ≠ [] := by simpa using (List.mem_filter.mp hwhole).2
    refine ⟨?_, List.length_take_le ..⟩
    simpa [maxModelLength] using hne

@[simp]
theorem strings_map_str (names : List Text) : strings (names.map .str) = names := by
  rw [strings, List.filterMap_map]
  exact List.filterMap_some

/-- Names within their bounds are read as they are. -/
theorem boundedNames_map_str {names : List Text} (h : NamesWithin names) :
    boundedNames (names.map .str) = names := by
  rw [boundedNames, strings_map_str, List.take_of_length_le h.length_le,
    List.filter_eq_self.mpr fun name hname => by simpa using (h.name name hname).1]
  conv_rhs => rw [← List.map_id names]
  exact List.map_congr_left fun name hname => List.take_of_length_le (h.name name hname).2

theorem boundedCategory_within (category : List (Text × Json)) :
    CategoryWithin (boundedCategory category) := by
  intro entry hentry
  obtain ⟨whole, hwhole, rfl⟩ := List.mem_map.mp hentry
  have hkept := (List.mem_filter.mp hwhole).2
  refine ⟨fun hkey => ?_, clipped_within _⟩
  -- a text stays one when it is cut
  have hvalue : whole.2.isTextOrNull = true := by simpa [hkey] using hkept
  cases hv : whole.2 with
  | str t => rfl
  | null => rfl
  | _ => rw [hv] at hvalue; cases hvalue

theorem boundedCategory_eq_self {category : List (Text × Json)} (h : CategoryWithin category) :
    boundedCategory category = category := by
  have hkept : (category.filter fun entry =>
      entry.1 ∉ categoryKeys || entry.2.isTextOrNull) = category := by
    refine List.filter_eq_self.mpr fun entry hentry => ?_
    by_cases hkey : entry.1 ∈ categoryKeys
    · simp [(h entry hentry).1 hkey]
    · simp [hkey]
  rw [boundedCategory, hkept]
  exact dictMap_eq_self fun entry hentry => clipped_eq_self (h entry hentry).2

/-- The categories that stay are within their bounds. -/
theorem boundedCategories_spec (categories : List Json) :
    ∃ within : List (List (Text × Json)), categories.filterMap boundedCategory? = within.map .obj ∧
      within.length ≤ categories.length ∧ ∀ category ∈ within, CategoryWithin category := by
  induction categories with
  | nil => exact ⟨[], rfl, le_rfl, by simp⟩
  | cons category categories ih =>
    obtain ⟨within, hwithin, hlength, hall⟩ := ih
    cases category with
    | obj members =>
      refine ⟨boundedCategory members :: within, ?_, Nat.succ_le_succ hlength, ?_⟩
      · rw [List.filterMap_cons, boundedCategory?, hwithin]
        rfl
      · rintro category hcategory
        rcases List.mem_cons.mp hcategory with rfl | hrest
        · exact boundedCategory_within members
        · exact hall category hrest
    | _ => exact ⟨within, hwithin, hlength.trans (Nat.le_succ _), hall⟩

theorem boundedCategories_map_obj {categories : List (List (Text × Json))}
    (h : ∀ category ∈ categories, CategoryWithin category) :
    (categories.map Json.obj).filterMap boundedCategory? = categories.map .obj := by
  induction categories with
  | nil => rfl
  | cons category categories ih =>
    have hrest := ih fun c hc => h c (List.mem_cons_of_mem _ hc)
    rw [List.map_cons, List.filterMap_cons, boundedCategory?,
      boundedCategory_eq_self (h category List.mem_cons_self), hrest]

/-! ### What the reader leaves under each key -/

/-- A vocabulary's word for what it does not know is its own, its words are short, and its key is
not one of the others that a reader treats by name. -/
private theorem vocabularies_spec (stepType : StepType) : ∀ entry ∈ vocabularies stepType,
    entry.1 ∉ otherFields ∧ entry.2.unknown ∈ entry.2.words ∧
      ∀ word ∈ entry.2.words, word.length ≤ maxTextLength := by
  cases stepType <;> decide

section Keys

variable {stepType : StepType} {key : Text} {vocabulary : Vocabulary}

theorem word_key_spec (h : dictGet (vocabularies stepType) key = some vocabulary) :
    key ∉ otherFields ∧ vocabulary.unknown ∈ vocabulary.words ∧
      ∀ word ∈ vocabulary.words, word.length ≤ maxTextLength :=
  vocabularies_spec stepType _ (dictGet_mem h)

theorem isWord_iff {v : Json} {words : List Text} :
    v.isWord words = true ↔ ∃ word ∈ words, v = .str word := by
  simp [Json.isWord]

theorem vocabularies_eq_none (h : key ∈ otherFields) :
    dictGet (vocabularies stepType) key = none := by
  cases hget : dictGet (vocabularies stepType) key with
  | none => rfl
  | some vocabulary => exact absurd h (word_key_spec hget).1

theorem typedValue_of_word (h : dictGet (vocabularies stepType) key = some vocabulary) (v : Json) :
    typedValue stepType key v = vocabulary.read v := by
  have hkey := (word_key_spec h).1
  have hpatterns : key ≠ "patterns" := fun heq => hkey (heq ▸ by decide)
  have hflag : key ≠ "use_builtins" := fun heq => hkey (heq ▸ by decide)
  rw [typedValue, if_neg hpatterns, if_neg hflag, h, Option.map_some, Option.getD_some]

theorem typedValue_of_other (hpatterns : key ≠ "patterns") (hflag : key ≠ "use_builtins")
    (h : dictGet (vocabularies stepType) key = none) (v : Json) :
    typedValue stepType key v = v := by
  rw [typedValue, if_neg hpatterns, if_neg hflag, h, Option.map_none, Option.getD_none]

theorem boundedValue_of_other (hnames : key ≠ "fallback_models") (hcategories : key ≠ "categories")
    (v : Json) : boundedValue key v = clipped v := by
  rw [boundedValue, if_neg hnames, if_neg hcategories]

/-- A word of its vocabulary passes both corrections. -/
theorem isWord_typedValue (h : dictGet (vocabularies stepType) key = some vocabulary) (v : Json) :
    (typedValue stepType key v).isWord vocabulary.words = true := by
  rw [typedValue_of_word h, Vocabulary.read]
  split_ifs with hword
  · exact hword
  · exact isWord_iff.mpr ⟨_, (word_key_spec h).2.1, rfl⟩

theorem boundedValue_of_isWord (h : dictGet (vocabularies stepType) key = some vocabulary)
    {v : Json} (hv : v.isWord vocabulary.words = true) : boundedValue key v = v := by
  have hkey := (word_key_spec h).1
  have hnames : key ≠ "fallback_models" := fun heq => hkey (heq ▸ by decide)
  have hcategories : key ≠ "categories" := fun heq => hkey (heq ▸ by decide)
  rw [boundedValue_of_other hnames hcategories]
  obtain ⟨word, hword, rfl⟩ := isWord_iff.mp hv
  refine clipped_eq_self fun text htext => ?_
  obtain rfl : word = text := by simpa using htext
  exact (word_key_spec h).2.2 word hword

theorem boundedValue_within (key : Text) (v : Json) :
    (boundedValue key v).TextWithin maxTextLength := by
  have harr : ∀ items, (Json.arr items).TextWithin maxTextLength := by simp [Json.TextWithin]
  have hclipped := clipped_within v
  unfold boundedValue
  split_ifs
  · cases hv : clipped v with
    | arr names => exact harr _
    | _ => rw [hv] at hclipped; exact hclipped
  · cases hv : clipped v with
    | arr categories => exact harr _
    | _ => rw [hv] at hclipped; exact hclipped
  · exact hclipped

/-- A value that is within the bound of its key is read as it is. -/
theorem boundedValue_boundedValue (key : Text) (v : Json) :
    boundedValue key (boundedValue key v) = boundedValue key v := by
  have hclip := clipped_eq_self (boundedValue_within key v)
  unfold boundedValue at hclip ⊢
  split_ifs at hclip ⊢
  · rw [hclip]
    cases clipped v with
    | arr names => rw [boundedChain, boundedChain, boundedNames_map_str (boundedNames_within names)]
    | _ => rfl
  · rw [hclip]
    cases clipped v with
    | arr categories =>
      obtain ⟨within, hwithin, hlength, hall⟩ :=
        boundedCategories_spec (categories.take maxCategories)
      have hshort : (within.map Json.obj).length ≤ maxCategories := by
        rw [List.length_map]
        exact hlength.trans (List.length_take_le ..)
      rw [boundedCategories, boundedCategories, hwithin, List.take_of_length_le hshort,
        boundedCategories_map_obj hall]
    | _ => rfl
  · exact hclip

/-- A value that has been read once is read as it is. -/
theorem typedValue_boundedValue (stepType : StepType) (key : Text) (v : Json) :
    typedValue stepType key (boundedValue key (typedValue stepType key v)) =
      boundedValue key (typedValue stepType key v) := by
  cases hvocabulary : dictGet (vocabularies stepType) key with
  | some vocabulary =>
    have hword := isWord_typedValue hvocabulary v
    rw [boundedValue_of_isWord hvocabulary hword, typedValue_of_word hvocabulary,
      Vocabulary.read, if_pos hword]
  | none =>
    by_cases hpatterns : key = "patterns"
    · have hother : ∀ v, boundedValue key v = clipped v :=
        boundedValue_of_other (hpatterns ▸ by decide) (hpatterns ▸ by decide)
      rw [hother]
      simp only [typedValue, if_pos hpatterns]
      cases v with
      | arr values => simp [textEntries, clipped]
      | _ => rfl
    · by_cases hflag : key = "use_builtins"
      · have hother : ∀ v, boundedValue key v = clipped v :=
          boundedValue_of_other (hflag ▸ by decide) (hflag ▸ by decide)
        rw [hother]
        simp only [typedValue, if_neg hpatterns, if_pos hflag]
        cases v <;> rfl
      · rw [typedValue_of_other hpatterns hflag hvocabulary]

end Keys

theorem kept_iff {key : Text} {v : Json} : kept key v = true ↔
    (key ∈ nameFields ++ textFields → v.isTextOrNull = true) ∧
      (key ∈ listFields → v.isList = true) := by
  rw [kept, decide_eq_true_eq]

theorem isList_iff {v : Json} : v.isList = true ↔ ∃ items, v = .arr items := by
  cases v <;> simp [Json.isList]

theorem isTextOrNull_iff {v : Json} :
    v.isTextOrNull = true ↔ v = .null ∨ ∃ text, v = .str text := by
  cases v <;> simp [Json.isTextOrNull, Json.isText, Json.text?]

/-- Under the key of a list only a list is read. -/
theorem of_dictGet_readConfig_list {stepType : StepType} {config : List (Text × Json)}
    {key : Text} {v : Json} (hkey : key ∈ listFields)
    (hget : dictGet (readConfig stepType config) key = some v) :
    ∃ items, v = boundedValue key (typedValue stepType key (.arr items)) := by
  rw [dictGet_readConfig] at hget
  obtain ⟨written, hwritten, rfl⟩ := Option.map_eq_some_iff.mp hget
  have hkept := (Option.filter_eq_some_iff.mp hwritten).2
  obtain ⟨items, rfl⟩ := isList_iff.mp ((kept_iff.mp hkept).2 hkey)
  exact ⟨items, rfl⟩

theorem readConfig_within (stepType : StepType) (config : List (Text × Json)) :
    ConfigWithin stepType (readConfig stepType config) := by
  constructor
  · intro key vocabulary v hvocabulary hget
    rw [dictGet_readConfig] at hget
    obtain ⟨written, -, rfl⟩ := Option.map_eq_some_iff.mp hget
    have hword := isWord_typedValue hvocabulary written
    rw [boundedValue_of_isWord hvocabulary hword]
    exact hword
  · intro entry hentry
    obtain ⟨whole, -, rfl⟩ := List.mem_map.mp hentry
    exact boundedValue_within _ _
  · intro v hget
    obtain ⟨names, rfl⟩ := of_dictGet_readConfig_list (by decide) hget
    rw [typedValue_of_other (by decide) (by decide) (vocabularies_eq_none (by decide))]
    exact ⟨_, rfl, boundedNames_within names⟩
  · intro v hget
    obtain ⟨categories, rfl⟩ := of_dictGet_readConfig_list (by decide) hget
    rw [typedValue_of_other (by decide) (by decide) (vocabularies_eq_none (by decide))]
    obtain ⟨within, hwithin, hlength, hall⟩ :=
      boundedCategories_spec (categories.take maxCategories)
    refine ⟨within, ?_, hlength.trans (List.length_take_le ..), hall⟩
    rw [← hwithin]
    rfl

/-- What is read stays under its key when it is read again. -/
theorem kept_readValue {stepType : StepType} {key : Text} {v : Json} (h : kept key v = true) :
    kept key (boundedValue key (typedValue stepType key v)) = true := by
  obtain ⟨htext, hlist⟩ := kept_iff.mp h
  have hdisjoint : ∀ key ∈ nameFields ++ textFields, key ≠ "patterns" ∧ key ≠ "use_builtins" ∧
      key ≠ "fallback_models" ∧ key ≠ "categories" ∧ key ∈ otherFields := by decide
  refine kept_iff.mpr ⟨fun hkey => ?_, fun hkey => ?_⟩
  · obtain ⟨hpatterns, hflag, hnames, hcategories, hother⟩ := hdisjoint key hkey
    rw [typedValue_of_other hpatterns hflag (vocabularies_eq_none hother),
      boundedValue_of_other hnames hcategories]
    rcases isTextOrNull_iff.mp (htext hkey) with rfl | ⟨text, rfl⟩
    · rfl
    · rfl
  · obtain ⟨items, rfl⟩ := isList_iff.mp (hlist hkey)
    have htyped : (typedValue stepType key (.arr items)).isList = true := by
      by_cases hpatterns : key = "patterns"
      · rw [typedValue, if_pos hpatterns]
        rfl
      · have hflag : key ≠ "use_builtins" := by
          rintro rfl
          exact absurd hkey (by decide)
        have hother : key ∈ otherFields := by
          simp only [otherFields, List.mem_append]
          exact .inl (.inr hkey)
        rw [typedValue_of_other hpatterns hflag (vocabularies_eq_none hother)]
        rfl
    obtain ⟨items', heq⟩ := isList_iff.mp htyped
    rw [heq]
    unfold boundedValue
    split_ifs <;> rfl

private theorem foldl_keepIf_eq_self {keys : List Text} {ok : Json → Bool}
    {config : List (Text × Json)} (h : ∀ key ∈ keys, (dictGet config key).all ok = true) :
    keys.foldl (fun config key => dictKeepIf config key ok) config = config := by
  induction keys with
  | nil => rfl
  | cons key keys ih =>
    rw [List.foldl_cons, dictKeepIf, if_pos (h key List.mem_cons_self)]
    exact ih fun key hkey => h key (List.mem_cons_of_mem _ hkey)

/-- **A configuration that has been read is read as it is.** -/
theorem readConfig_readConfig (stepType : StepType) (config : List (Text × Json)) :
    readConfig stepType (readConfig stepType config) = readConfig stepType config := by
  have hkept : ∀ key v, dictGet (readConfig stepType config) key = some v →
      kept key v = true := by
    intro key v hget
    rw [dictGet_readConfig] at hget
    obtain ⟨written, hwritten, rfl⟩ := Option.map_eq_some_iff.mp hget
    exact kept_readValue (Option.filter_eq_some_iff.mp hwritten).2
  have htexts : ∀ key ∈ nameFields ++ textFields,
      (dictGet (readConfig stepType config) key).all Json.isTextOrNull = true := fun key hkey =>
    (Option.all_eq_true ..).mpr fun v hget => (kept_iff.mp (hkept key v hget)).1 hkey
  have hlists : ∀ key ∈ listFields,
      (dictGet (readConfig stepType config) key).all Json.isList = true := fun key hkey =>
    (Option.all_eq_true ..).mpr fun v hget => (kept_iff.mp (hkept key v hget)).2 hkey
  have htyped : typed stepType (readConfig stepType config) = readConfig stepType config := by
    rw [typed, foldl_keepIf_eq_self htexts, foldl_keepIf_eq_self hlists]
    refine dictMap_eq_self fun entry hentry => ?_
    obtain ⟨typedEntry, htyped, rfl⟩ := List.mem_map.mp hentry
    obtain ⟨whole, -, rfl⟩ := List.mem_map.mp htyped
    exact typedValue_boundedValue stepType whole.1 whole.2
  conv_lhs => rw [readConfig, htyped, bounded]
  refine dictMap_eq_self fun entry hentry => ?_
  obtain ⟨typedEntry, -, rfl⟩ := List.mem_map.mp hentry
  exact boundedValue_boundedValue typedEntry.1 typedEntry.2

/-! ### Whatever the document -/

theorem StepType.ofText?_eq_some_iff {word : Text} {stepType : StepType} :
    StepType.ofText? word = some stepType ↔ word = stepType.value := by
  constructor
  · intro h
    have hvalue := List.find?_some h
    exact (of_decide_eq_true hvalue).symm
  · rintro rfl
    cases stepType <;> decide

namespace Pipeline

/-- What a stored step states as its configuration; what is no object states nothing. -/
def writtenConfig (raw : Json) : List (Text × Json) :=
  match raw.get "config" with
  | some (.obj config) => config
  | _ => []

/-- **A stored step that is read**: its type is the word it states, and its configuration is what
it states, as it is read. -/
theorem step?_eq_some_iff {raw : Json} {step : PipelineStep} :
    step? raw = some step ↔ raw.get "type" = some (.str step.type.value) ∧
      step.config = readConfig step.type (writtenConfig raw) := by
  have hread : ∀ stepType, (match raw.get "config" with
      | some (.obj config) => readConfig stepType config
      | _ => []) = readConfig stepType (writtenConfig raw) := by
    intro stepType
    rw [writtenConfig]
    split <;> rfl
  unfold step?
  simp only [hread]
  constructor
  · intro h
    split at h
    next word htype =>
      obtain ⟨stepType, hword, rfl⟩ := Option.map_eq_some_iff.mp h
      obtain rfl := StepType.ofText?_eq_some_iff.mp hword
      exact ⟨htype, rfl⟩
    next => cases h
  · rintro ⟨htype, hconfig⟩
    rw [htype]
    dsimp only
    rw [StepType.ofText?_eq_some_iff.mpr rfl, Option.map_some, ← hconfig]

theorem chain_within (data : List (Text × Json)) (kind : FallbackKind) :
    NamesWithin (chain data kind) := boundedNames_within _

theorem namesWithin_nil : NamesWithin [] := ⟨Nat.zero_le _, by simp⟩

/-- **Whatever the document**, every word is of its vocabulary, and every text and list is within
its bound. -/
theorem fromDict_within (d : Json) : (fromDict d).Within := by
  cases d with
  | obj data =>
    refine ⟨?_, fun step hstep => ?_, fun kind => ?_⟩
    · exact (List.length_filterMap_le ..).trans (List.length_take_le ..)
    · obtain ⟨raw, -, hraw⟩ := List.mem_filterMap.mp hstep
      rw [(step?_eq_some_iff.mp hraw).2]
      exact readConfig_within _ _
    · cases kind <;> exact chain_within data _
  | _ =>
    refine ⟨Nat.zero_le _, by simp [fromDict], fun kind => ?_⟩
    cases kind <;> exact namesWithin_nil

/-- The entries a pipeline is written with are the ones that are read back. -/
private theorem listed_toJson (steps generate embed rerank : List Json) :
    let data : List (Text × Json) :=
      [("steps", .arr steps), (FallbackKind.generate.chainField, .arr generate),
        (FallbackKind.embed.chainField, .arr embed), (FallbackKind.rerank.chainField, .arr rerank)]
    listed data "steps" = steps ∧ listed data FallbackKind.generate.chainField = generate ∧
      listed data FallbackKind.embed.chainField = embed ∧
      listed data FallbackKind.rerank.chainField = rerank :=
  ⟨rfl, rfl, rfl, rfl⟩

/-- **The pipeline written back as JSON is read as the same pipeline.** -/
theorem fromDict_toJson (d : Json) : fromDict (fromDict d).toJson = fromDict d := by
  have hwithin := fromDict_within d
  have hread : ∀ step ∈ (fromDict d).steps, readConfig step.type step.config = step.config := by
    intro step hstep
    cases d with
    | obj data =>
      obtain ⟨raw, -, hraw⟩ := List.mem_filterMap.mp hstep
      rw [(step?_eq_some_iff.mp hraw).2]
      exact readConfig_readConfig _ _
    | _ => simp [fromDict] at hstep
  generalize fromDict d = p at hwithin hread
  obtain ⟨hsteps, hgenerate, hembed, hrerank⟩ := listed_toJson
    (p.steps.map fun step =>
      .obj [("type", .str step.type.value), ("config", .obj step.config)])
    (p.fallbackModels.map .str) (p.embeddingFallbackModels.map .str)
    (p.rankingFallbackModels.map .str)
  have hback : ∀ step ∈ p.steps,
      step? (.obj [("type", .str step.type.value), ("config", .obj step.config)]) = some step := by
    intro step hstep
    exact step?_eq_some_iff.mpr ⟨rfl, (hread step hstep).symm⟩
  have hall : (p.steps.map fun step =>
      Json.obj [("type", .str step.type.value), ("config", .obj step.config)]).filterMap step? =
        p.steps := by
    rw [List.filterMap_map]
    exact (List.filterMap_congr hback).trans List.filterMap_some
  have hfallback : boundedNames (p.fallbackModels.map .str) = p.fallbackModels :=
    boundedNames_map_str (hwithin.chain .generate)
  have hembedding : boundedNames (p.embeddingFallbackModels.map .str) = p.embeddingFallbackModels :=
    boundedNames_map_str (hwithin.chain .embed)
  have hranking : boundedNames (p.rankingFallbackModels.map .str) = p.rankingFallbackModels :=
    boundedNames_map_str (hwithin.chain .rerank)
  rw [toJson, fromDict, hsteps, List.take_of_length_le (by simpa using hwithin.steps), hall,
    chain, chain, chain, hgenerate, hembed, hrerank, hfallback, hembedding, hranking]

end Pipeline

end AiraGateway
