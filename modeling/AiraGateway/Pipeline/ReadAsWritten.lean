import AiraGateway.Pipeline.StrictReaders

/-!
# What a strict reader accepts is read as it is written

`Pipeline.fromDict` reads every document; a strict reader accepts those in which there is nothing
to correct. Here the two are held together, field by field.

* `accepted_read_as_written_iff`: what a strict reader accepts is read as it is written if and
  only if no step writes an explicit null for a word of a vocabulary or for the flag. Both
  readers take such a null for an absent field; the lenient one takes it for an unknown word.
* `null_scope_reads_more`: a filter whose `scope` is null is accepted as one without, and reads
  the system messages as well.
-/

namespace AiraGateway

/-! ### What is read of what is accepted -/

/-- A list of names without the empty ones. -/
def namedEntries : Json → Json
  | .arr names => .arr (names.filter (· ≠ .str []))
  | v => v

/-- A category with what is read of it. -/
def categoryReading : Json → Json
  | .obj category =>
    .obj (categoryKeys.filterMap fun key => (stated category key).map (key, ·))
  | v => v

def categoryReadings : Json → Json
  | .arr categories => .arr (categories.map categoryReading)
  | v => v

/-- What a field says: nothing where it is null, its names without the empty ones, and of its
categories what is read of them. -/
def reading (config : List (Text × Json)) (key : Text) : Option Json :=
  (stated config key).map fun v =>
    if key = "fallback_models" then namedEntries v
    else if key = "categories" then categoryReadings v
    else v

/-- A step has its entry's type and every field that its type reads as the entry states it. -/
def StepAsWritten (raw : Json) (step : PipelineStep) : Prop :=
  raw.get "type" = some (.str step.type.value) ∧
    ∀ key ∈ stepConfigKeys step.type,
      reading step.config key = reading (Pipeline.writtenConfig raw) key

/-- The members of a document. -/
def Json.members : Json → List (Text × Json)
  | obj members => members
  | _ => []

/-- A pipeline has one step for each entry of a document, in order and as it is written, and each
chain lists exactly the names the document lists that are not empty. -/
structure UsedAsWritten (d : Json) (p : Pipeline) : Prop where
  steps : List.Forall₂ StepAsWritten (Pipeline.listed d.members "steps") p.steps
  chain : ∀ kind : FallbackKind, (p.chainFor kind).map .str =
    (Pipeline.listed d.members kind.chainField).filter (· ≠ .str [])

/-- The fields of which the lenient reader takes a null for something that is written: the words
of a vocabulary, and the flag. -/
def wordKeys : StepType → List Text
  | .injectionFilter => ["mode", "action", "scope", "on_undetermined", "use_builtins"]
  | .modelRoute => []
  | .piiFilter => ["on_failure"]

/-- A step writes no explicit null for a word of its type's, or for the flag. -/
def NoNullWord (raw : Json) : Prop := ∀ stepType : StepType,
  raw.get "type" = some (.str stepType.value) →
    ∀ key ∈ wordKeys stepType, dictGet (Pipeline.writtenConfig raw) key ≠ some .null

/-- No step of a document writes one. -/
def NoNullWords (d : Json) : Prop := ∀ raw ∈ Pipeline.listed d.members "steps", NoNullWord raw

theorem reading_congr {config config' : List (Text × Json)} {key : Text}
    (h : dictGet config key = dictGet config' key) : reading config key = reading config' key := by
  rw [reading, reading, stated, stated, h]

theorem reading_eq_none_iff {config : List (Text × Json)} {key : Text} :
    reading config key = none ↔ stated config key = none := by
  rw [reading, Option.map_eq_none_iff]

/-- A correction that keeps what is stated and makes something of a null changes what a field
says exactly where it is null. -/
theorem reading_iff_of_corrected {config used : List (Text × Json)} {key : Text}
    (correct : Json → Json) (hused : dictGet used key = (dictGet config key).map correct)
    (hnull : correct .null ≠ .null)
    (hkeep : ∀ v, stated config key = some v → correct v = v) :
    reading used key = reading config key ↔ dictGet config key ≠ some .null := by
  constructor
  · intro hread hget
    have hconfig : stated config key = none := by
      rw [stated, hget]
      rfl
    have hstated : stated used key = some (correct .null) := by
      rw [stated_eq_some_iff, hused, hget]
      exact ⟨rfl, hnull⟩
    rw [reading_eq_none_iff.mpr hconfig, reading_eq_none_iff, hstated] at hread
    cases hread
  · intro hget
    apply reading_congr
    rw [hused]
    cases hv : dictGet config key with
    | none => rfl
    | some v =>
      have hstated := stated_eq_some_iff.mpr ⟨hv, fun heq => hget (by rw [hv, heq])⟩
      rw [Option.map_some, hkeep v hstated]

section Fields

variable {stepType : StepType} {config : List (Text × Json)} {key : Text}

/-- Under a key that is neither a text's nor a list's every value stays. -/
theorem kept_of_notMem (htext : key ∉ nameFields ++ textFields) (hlist : key ∉ listFields)
    (v : Json) : kept key v = true :=
  kept_iff.mpr ⟨fun h => absurd h htext, fun h => absurd h hlist⟩

/-- A name or a text is read as it is written. -/
theorem dictGet_readConfig_text (h : ConfigAccepted stepType config)
    (hkey : key ∈ nameFields ++ textFields) (hread : key ∈ stepConfigKeys stepType) :
    dictGet (readConfig stepType config) key = dictGet config key := by
  have hother : ∀ key ∈ nameFields ++ textFields, key ≠ "patterns" ∧ key ≠ "use_builtins" ∧
      key ≠ "fallback_models" ∧ key ≠ "categories" ∧ key ∉ listFields ∧ key ∈ otherFields := by
    decide
  obtain ⟨hpatterns, hflag, hnames, hcategories, hlist, hother⟩ := hother key hkey
  rw [dictGet_readConfig]
  cases hv : dictGet config key with
  | none => rfl
  | some v =>
    have hvalue : v = .null ∨ v.isTextWithin maxTextLength = true := by
      by_cases hnull : v = .null
      · exact .inl hnull
      · exact .inr ((Option.all_eq_true ..).mp (h.text key hkey hread) v
          (stated_eq_some_iff.mpr ⟨hv, hnull⟩))
    have hkept : kept key v = true := by
      refine kept_iff.mpr ⟨fun _ => ?_, fun h => absurd h hlist⟩
      rcases hvalue with rfl | hwithin
      · rfl
      · obtain ⟨text, rfl, -⟩ := isTextWithin_iff.mp hwithin
        rfl
    rw [Option.filter_some_pos hkept, Option.map_some,
      typedValue_of_other hpatterns hflag (vocabularies_eq_none hother),
      boundedValue_of_other hnames hcategories]
    rcases hvalue with rfl | hwithin
    · rfl
    · obtain ⟨text, rfl, hlength⟩ := isTextWithin_iff.mp hwithin
      rw [clipped, List.take_of_length_le hlength]

/-- A word is what its vocabulary makes of what is written. -/
theorem dictGet_readConfig_word {vocabulary : Vocabulary}
    (hkey : dictGet (vocabularies stepType) key = some vocabulary) :
    dictGet (readConfig stepType config) key = (dictGet config key).map vocabulary.read := by
  have hnone : key ∉ otherFields := (word_key_spec hkey).1
  have hkept : ∀ v, kept key v = true := by
    simp only [otherFields, List.mem_append, not_or] at hnone
    exact kept_of_notMem (by simpa using ⟨hnone.1.1.1, hnone.1.1.2⟩) hnone.1.2
  rw [dictGet_readConfig]
  cases hv : dictGet config key with
  | none => rfl
  | some v =>
    rw [Option.filter_some_pos (hkept v), Option.map_some, Option.map_some,
      boundedValue_of_isWord hkey (isWord_typedValue hkey v), typedValue_of_word hkey]

/-- A word says what is written, unless that is a null. -/
theorem reading_word_iff (h : ConfigAccepted stepType config) {vocabulary : Vocabulary}
    (hkey : dictGet (vocabularies stepType) key = some vocabulary) :
    reading (readConfig stepType config) key = reading config key ↔
      dictGet config key ≠ some .null := by
  refine reading_iff_of_corrected vocabulary.read (dictGet_readConfig_word hkey) ?_ fun v hv => ?_
  · have hnull : Json.null.isWord vocabulary.words = false := by simp [Json.isWord]
    rw [Vocabulary.read, hnull]
    simp
  · have hword := (Option.all_eq_true ..).mp (h.word _ (dictGet_mem hkey)) v hv
    rw [Vocabulary.read, if_pos hword]

/-- The flag says what is written, unless that is a null. -/
theorem reading_flag_iff (h : ConfigAccepted .injectionFilter config) :
    reading (readConfig .injectionFilter config) "use_builtins" = reading config "use_builtins" ↔
      dictGet config "use_builtins" ≠ some .null := by
  have hread : ∀ v, boundedValue "use_builtins" (typedValue .injectionFilter "use_builtins" v) =
      if v.isFlag then v else .bool true := by
    intro v
    rw [boundedValue_of_other (by decide) (by decide), typedValue, if_neg (by decide),
      if_pos rfl]
    cases v <;> rfl
  refine reading_iff_of_corrected (fun v => if v.isFlag then v else .bool true)
    ?_ (by decide) fun v hv => ?_
  · rw [dictGet_readConfig]
    cases hv : dictGet config "use_builtins" with
    | none => rfl
    | some v =>
      rw [Option.filter_some_pos (kept_of_notMem (by decide) (by decide) v), Option.map_some,
        Option.map_some, hread]
  · exact if_pos ((Option.all_eq_true ..).mp (h.flag rfl) v hv)

theorem strings_of_isText {values : List Json} (h : ∀ v ∈ values, v.isText = true) :
    (strings values).map Json.str = values := by
  induction values with
  | nil => rfl
  | cons v values ih =>
    have hrest := ih fun w hw => h w (List.mem_cons_of_mem _ hw)
    cases v with
    | str text => rw [strings, List.filterMap_cons, Json.text?, List.map_cons, ← strings, hrest]
    | _ => exact absurd (h _ List.mem_cons_self) (by simp [Json.isText, Json.text?])

/-- A list of patterns is read as it is written. -/
theorem dictGet_readConfig_patterns (h : ConfigAccepted .injectionFilter config) :
    dictGet (readConfig .injectionFilter config) "patterns" = dictGet config "patterns" := by
  rw [dictGet_readConfig]
  cases hv : dictGet config "patterns" with
  | none => rfl
  | some v =>
    obtain ⟨patterns, rfl, htexts⟩ := h.patterns rfl v hv
    have hkept : kept "patterns" (.arr patterns) = true := by rfl
    rw [Option.filter_some_pos hkept, Option.map_some,
      boundedValue_of_other (by decide) (by decide), typedValue, if_pos rfl, textEntries,
      strings_of_isText htexts, clipped]
    simp

/-- Names within their bounds are read without the empty ones. -/
theorem boundedNames_of_within {names : List Json} (hlength : names.length ≤ maxFallbackModels)
    (hwithin : ∀ name ∈ names, name.isTextWithin maxModelLength = true) :
    (boundedNames names).map .str = names.filter (· ≠ .str []) := by
  have htexts : ∀ name ∈ names, name.isText = true := fun name hname => by
    obtain ⟨text, rfl, -⟩ := isTextWithin_iff.mp (hwithin name hname)
    rfl
  have hnames := strings_of_isText htexts
  have hstrings : (strings names).length ≤ maxFallbackModels := by
    rw [← List.length_map (f := Json.str), hnames]
    exact hlength
  have hshort : ∀ text ∈ strings names, text.length ≤ maxModelLength := by
    intro text htext
    have hmem : Json.str text ∈ names := by
      rw [← hnames]
      exact List.mem_map_of_mem htext
    obtain ⟨text', heq, hle⟩ := isTextWithin_iff.mp (hwithin _ hmem)
    rwa [Json.str.inj heq]
  have hclip : ((strings names).filter (· ≠ [])).map (·.take maxModelLength) =
      (strings names).filter (· ≠ []) := by
    conv_rhs => rw [← List.map_id ((strings names).filter (· ≠ []))]
    exact List.map_congr_left fun text htext =>
      List.take_of_length_le (hshort text (List.mem_filter.mp htext).1)
  rw [boundedNames, List.take_of_length_le hstrings, hclip]
  conv_rhs => rw [← hnames, List.filter_map]
  congr 2
  funext text
  simp

/-- A chain of a step's own says its names without the empty ones. -/
theorem reading_names (h : ConfigAccepted stepType config) :
    reading (readConfig stepType config) "fallback_models" = reading config "fallback_models" := by
  have hvalue : ∀ v, boundedValue "fallback_models"
      (typedValue stepType "fallback_models" v) = boundedChain (clipped v) := by
    intro v
    rw [typedValue_of_other (by decide) (by decide) (vocabularies_eq_none (by decide)),
      boundedValue, if_pos rfl]
  cases hv : dictGet config "fallback_models" with
  | none =>
    refine reading_congr ?_
    rw [dictGet_readConfig, hv]
    rfl
  | some v =>
    by_cases hnull : v = .null
    · -- a null is no list, so it is left out
      have hused : dictGet (readConfig stepType config) "fallback_models" = none := by
        rw [dictGet_readConfig, hv, hnull]
        rfl
      rw [reading, reading, stated, stated, hused, hv, hnull]
      rfl
    · obtain ⟨names, rfl, hlength, hwithin⟩ := h.names v (stated_eq_some_iff.mpr ⟨hv, hnull⟩)
      have hused : dictGet (readConfig stepType config) "fallback_models" =
          some (.arr (names.filter (· ≠ .str []))) := by
        have hkept : kept "fallback_models" (.arr names) = true := by rfl
        rw [dictGet_readConfig, hv, Option.filter_some_pos hkept, Option.map_some, hvalue, clipped,
          boundedChain, boundedNames_of_within hlength hwithin]
        simp
      have hstated := stated_eq_some_iff.mpr ⟨hused, by simp⟩
      rw [reading, reading, hstated, stated_eq_some_iff.mpr ⟨hv, hnull⟩, Option.map_some,
        Option.map_some, if_pos rfl, if_pos rfl, namedEntries, namedEntries, List.filter_filter]
      simp

/-- A category within its bounds keeps what is read of it. -/
theorem dictGet_boundedCategory {category : List (Text × Json)}
    (h : ∀ key ∈ categoryKeys, (stated category key).all (Json.isTextWithin maxTextLength) = true)
    (hkey : key ∈ categoryKeys) :
    dictGet (boundedCategory category) key = dictGet category key := by
  have hvalue : ∀ v, dictGet category key = some v →
      v = .null ∨ v.isTextWithin maxTextLength = true := by
    intro v hv
    by_cases hnull : v = .null
    · exact .inl hnull
    · exact .inr ((Option.all_eq_true ..).mp (h key hkey) v
        (stated_eq_some_iff.mpr ⟨hv, hnull⟩))
  rw [boundedCategory, dictGet_dictMap, dictGet_filter]
  · cases hv : dictGet category key with
    | none => rfl
    | some v =>
      rcases hvalue v hv with rfl | hwithin
      · rfl
      · obtain ⟨text, rfl, hlength⟩ := isTextWithin_iff.mp hwithin
        rw [Option.map_some, clipped, List.take_of_length_le hlength]
  · intro v hv
    rcases hvalue v hv with rfl | hwithin
    · simp [Json.isTextOrNull]
    · obtain ⟨text, rfl, -⟩ := isTextWithin_iff.mp hwithin
      simp [Json.isTextOrNull, Json.isText, Json.text?]

/-- A category within its bounds says what it says when it is bounded. -/
theorem categoryReading_boundedCategory {category : List (Text × Json)}
    (h : ∀ key ∈ categoryKeys,
      (stated category key).all (Json.isTextWithin maxTextLength) = true) :
    categoryReading (.obj (boundedCategory category)) = categoryReading (.obj category) := by
  rw [categoryReading, categoryReading]
  congr 1
  refine List.filterMap_congr fun key hkey => ?_
  rw [stated, stated, dictGet_boundedCategory h hkey]

theorem categoryReadings_bounded {categories : List Json}
    (h : ∀ category ∈ categories, ∃ members, category = .obj members ∧
      ∀ key ∈ categoryKeys, (stated members key).all (Json.isTextWithin maxTextLength) = true) :
    (categories.filterMap boundedCategory?).map categoryReading =
      categories.map categoryReading := by
  induction categories with
  | nil => rfl
  | cons category categories ih =>
    obtain ⟨members, rfl, hmembers⟩ := h category List.mem_cons_self
    have hrest := ih fun c hc => h c (List.mem_cons_of_mem _ hc)
    rw [List.filterMap_cons, boundedCategory?, List.map_cons, List.map_cons, hrest,
      categoryReading_boundedCategory hmembers]

/-- Categories within their bounds are all read. -/
theorem dictGet_readConfig_categories {categories : List Json}
    (hget : dictGet config "categories" = some (.arr categories))
    (hlength : categories.length ≤ maxCategories) :
    dictGet (readConfig .modelRoute config) "categories" =
      some (.arr (categories.filterMap boundedCategory?)) := by
  have hkept : kept "categories" (.arr categories) = true := by rfl
  rw [dictGet_readConfig, hget, Option.filter_some_pos hkept, Option.map_some,
    typedValue_of_other (by decide) (by decide) (vocabularies_eq_none (by decide)),
    boundedValue, if_neg (by decide), if_pos rfl, clipped, boundedCategories,
    List.take_of_length_le hlength]
  simp

/-- Categories say what is written of them. -/
theorem reading_categories (h : ConfigAccepted .modelRoute config) :
    reading (readConfig .modelRoute config) "categories" = reading config "categories" := by
  cases hv : dictGet config "categories" with
  | none =>
    refine reading_congr ?_
    rw [dictGet_readConfig, hv]
    rfl
  | some v =>
    obtain ⟨categories, rfl, hlength, hall⟩ := h.categories rfl v hv
    have hused := dictGet_readConfig_categories hv hlength
    have hstated := stated_eq_some_iff.mpr ⟨hused, by simp⟩
    have hwritten := stated_eq_some_iff.mpr ⟨hv, by simp⟩
    rw [reading, reading, hstated, hwritten, Option.map_some, Option.map_some,
      if_neg (by decide), if_pos rfl, if_neg (by decide), if_pos rfl, categoryReadings,
      categoryReadings, categoryReadings_bounded hall]

private theorem stepConfigKeys_spec (stepType : StepType) : ∀ key ∈ stepConfigKeys stepType,
    (key ∉ wordKeys stepType ∧ (key ∈ nameFields ++ textFields ∨ key = "fallback_models" ∨
      key = "categories" ∧ stepType = .modelRoute ∨
      key = "patterns" ∧ stepType = .injectionFilter)) ∨
    (key ∈ wordKeys stepType ∧ (key = "use_builtins" ∧ stepType = .injectionFilter ∨
      (dictGet (vocabularies stepType) key).isSome)) := by
  cases stepType <;> decide

/-- **What is read of a field** says what is written of it, unless that is a null for a word. -/
theorem reading_iff (h : ConfigAccepted stepType config) (hkey : key ∈ stepConfigKeys stepType) :
    reading (readConfig stepType config) key = reading config key ↔
      (key ∈ wordKeys stepType → dictGet config key ≠ some .null) := by
  rcases stepConfigKeys_spec stepType key hkey with ⟨hword, hfield⟩ | ⟨hword, hfield⟩
  · have hsame : reading (readConfig stepType config) key = reading config key := by
      rcases hfield with htext | rfl | ⟨rfl, rfl⟩ | ⟨rfl, rfl⟩
      · exact reading_congr (dictGet_readConfig_text h htext hkey)
      · exact reading_names h
      · exact reading_categories h
      · exact reading_congr (dictGet_readConfig_patterns h)
    exact iff_of_true hsame fun h => absurd h hword
  · have hiff : reading (readConfig stepType config) key = reading config key ↔
        dictGet config key ≠ some .null := by
      rcases hfield with ⟨rfl, rfl⟩ | hvocabulary
      · exact reading_flag_iff h
      · obtain ⟨vocabulary, hvocabulary⟩ := Option.isSome_iff_exists.mp hvocabulary
        exact reading_word_iff h hvocabulary
    rw [hiff]
    exact ⟨fun hnull _ => hnull, fun hnull => hnull hword⟩

end Fields

/-! ### A whole document -/

theorem stepAsWritten_iff {raw : Json} {step : PipelineStep} (hread : Pipeline.step? raw = some step)
    (h : ConfigAccepted step.type (Pipeline.writtenConfig raw)) :
    NoNullWord raw ↔ StepAsWritten raw step := by
  obtain ⟨htype, hconfig⟩ := Pipeline.step?_eq_some_iff.mp hread
  have hkeys : ∀ key ∈ wordKeys step.type, key ∈ stepConfigKeys step.type := by
    cases step.type <;> decide
  rw [StepAsWritten, hconfig]
  constructor
  · intro hnull
    exact ⟨htype, fun key hkey => (reading_iff h hkey).mpr (hnull step.type htype key)⟩
  · rintro ⟨-, hwritten⟩ stepType htype' key hkey
    obtain rfl : stepType = step.type := by
      rw [htype'] at htype
      have hvalue : stepType.value = step.type.value := Json.str.inj (Option.some.inj htype)
      have hword := StepType.ofText?_eq_some_iff.mpr hvalue
      rw [StepType.ofText?_eq_some_iff.mpr rfl] at hword
      exact Option.some.inj hword
    exact (reading_iff h (hkeys key hkey)).mp (hwritten key (hkeys key hkey)) hkey

/-- What holds of the first lists' entries is what holds of the pairs. -/
private theorem forall_iff_forall₂ {α β : Type} {R S : α → β → Prop} {P : α → Prop} {as : List α}
    {bs : List β} (h : List.Forall₂ R as bs) (hiff : ∀ a ∈ as, ∀ b, R a b → (P a ↔ S a b)) :
    (∀ a ∈ as, P a) ↔ List.Forall₂ S as bs := by
  induction h with
  | nil => simp
  | cons hab _ ih =>
    have hrest := ih fun a ha => hiff a (List.mem_cons_of_mem _ ha)
    rw [List.forall_mem_cons, List.forall₂_cons, hiff _ List.mem_cons_self _ hab, hrest]

private theorem forall₂_filterMap {α β : Type} (f : α → Option β) (as : List α)
    (h : ∀ a ∈ as, (f a).isSome) : List.Forall₂ (fun a b => f a = some b) as (as.filterMap f) := by
  induction as with
  | nil => exact .nil
  | cons a as ih =>
    obtain ⟨b, hb⟩ := Option.isSome_iff_exists.mp (h a List.mem_cons_self)
    rw [List.filterMap_cons, hb]
    exact .cons hb (ih fun a' ha => h a' (List.mem_cons_of_mem _ ha))

/-- What both strict readers ensure is read as it is written exactly where no step writes a null
for a word. -/
theorem usedAsWritten_iff {data : List (Text × Json)} (h : DocumentAccepted data) :
    UsedAsWritten (.obj data) (Pipeline.fromDict (.obj data)) ↔ NoNullWords (.obj data) := by
  have hstep : ∀ raw ∈ Pipeline.listed data "steps", ∃ step, Pipeline.step? raw = some step ∧
      ConfigAccepted step.type (Pipeline.writtenConfig raw) := by
    intro raw hraw
    obtain ⟨stepType, htype, hconfig⟩ := h.step raw hraw
    exact ⟨⟨stepType, readConfig stepType (Pipeline.writtenConfig raw)⟩,
      Pipeline.step?_eq_some_iff.mpr ⟨htype, rfl⟩, hconfig⟩
  have hread := forall₂_filterMap Pipeline.step? (Pipeline.listed data "steps")
    fun raw hraw => by
      obtain ⟨step, hread, -⟩ := hstep raw hraw
      rw [hread]
      rfl
  have hiff := forall_iff_forall₂ (P := NoNullWord) (S := StepAsWritten) hread
    fun raw hraw step hread => by
      obtain ⟨step', hread', hconfig⟩ := hstep raw hraw
      obtain rfl : step' = step := Option.some.inj (hread'.symm.trans hread)
      exact stepAsWritten_iff hread hconfig
  have hsteps : (Pipeline.fromDict (.obj data)).steps =
      (Pipeline.listed data "steps").filterMap Pipeline.step? := by
    rw [Pipeline.fromDict, List.take_of_length_le h.length_le]
  have hchain : ∀ kind : FallbackKind,
      ((Pipeline.fromDict (.obj data)).chainFor kind).map .str =
        (Pipeline.listed data kind.chainField).filter (· ≠ .str []) := by
    intro kind
    obtain ⟨hlength, hwithin⟩ := h.chain kind
    have hbounded := boundedNames_of_within hlength hwithin
    cases kind <;> exact hbounded
  constructor
  · intro hused
    have hsteps' := hused.steps
    rw [hsteps] at hsteps'
    exact hiff.mpr hsteps'
  · intro hnull
    refine ⟨?_, hchain⟩
    rw [hsteps]
    exact hiff.mp hnull

/-- **What a strict reader accepts is read as it is written** if and only if no step of it writes
a null for a word. Every document whatsoever is read as a pipeline within the bounds, and that
pipeline written back is read as the same one. -/
theorem accepted_read_as_written_iff (repr : Json → Text) (catastrophicReason : Text → Option Text)
    (d : Json) :
    let accepted := problemIn repr catastrophicReason d = none ∨
      managementProblem repr catastrophicReason d = none
    ((accepted → UsedAsWritten d (Pipeline.fromDict d)) ∧ (Pipeline.fromDict d).Within ∧
      Pipeline.fromDict (Pipeline.fromDict d).toJson = Pipeline.fromDict d) ↔
    (accepted → NoNullWords d) := by
  intro accepted
  have hdocument : accepted → ∃ data, d = .obj data ∧ DocumentAccepted data := by
    rintro (hdry | hsaved)
    · exact problemIn_eq_none hdry
    · exact managementProblem_eq_none hsaved
  constructor
  · rintro ⟨hused, -, -⟩ haccepted
    obtain ⟨data, rfl, hdata⟩ := hdocument haccepted
    exact (usedAsWritten_iff hdata).mp (hused haccepted)
  · intro hnull
    refine ⟨fun haccepted => ?_, Pipeline.fromDict_within d, Pipeline.fromDict_toJson d⟩
    obtain ⟨data, rfl, hdata⟩ := hdocument haccepted
    exact (usedAsWritten_iff hdata).mpr (hnull haccepted)

/-- A pipeline of one injection filter whose `scope` is an explicit null. -/
def nullScope : Json :=
  .obj [("steps", .arr [.obj [("type", .str "injection_filter"),
    ("config", .obj [("scope", .null)])]])]

/-- **Both strict readers accept a null `scope`, and it is not read as an absent one**: the filter
that is read has the word `system_user`. -/
theorem null_scope_reads_more :
    problemIn (fun _ => []) (fun _ => none) nullScope = none ∧
      managementProblem (fun _ => []) (fun _ => none) nullScope = none ∧
      (Pipeline.fromDict nullScope).steps =
        [{ type := .injectionFilter, config := [("scope", .str "system_user")] }] ∧
      ¬UsedAsWritten nullScope (Pipeline.fromDict nullScope) := by
  refine ⟨by decide, by decide, by decide, fun hused => ?_⟩
  cases hused.steps with
  | cons hstep _ => exact absurd (hstep.2 "scope" (by decide)) (by decide)

end AiraGateway
