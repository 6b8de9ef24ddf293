import AiraGateway.Pipeline.Config
import Mathlib.Data.List.Sort

/-!
# The strict readers of a pipeline

A pipeline somebody typed is refused with the first field that is wrong, where a stored one is
read leniently. Two readers are strict: the gateway's own for a dry run (`problemIn`), and
Management's for what is saved (`managementProblem`). They differ in what a null may stand for
and in how long a name may be; what both ensure of a document is `DocumentAccepted`
(`problemIn_eq_none`, `managementProblem_eq_none`).

What Python shows of a value and which patterns can hang the gateway are arguments.
-/

namespace AiraGateway

/-! ### What the readers say -/

/-- A number as text. -/
def numeral (n : ℕ) : Text := Nat.toDigits 10 n

/-- A list of words as Python shows it. -/
def shownWords (words : List Text) : Text :=
  let quoted := words.map fun word => ("'" : Text) ++ word ++ ("'" : Text)
  ("[" : Text) ++ List.intercalate ", " quoted ++ ("]" : Text)

/-- What a field states: an explicit null is as good as an absent field. -/
def stated (config : List (Text × Json)) (key : Text) : Option Json :=
  (dictGet config key).filter (· ≠ .null)

/-- Text of at most this many characters. -/
def Json.isTextWithin (bound : ℕ) : Json → Bool
  | str text => text.length ≤ bound
  | _ => false

/-- Whether Python takes a value for true. -/
def Json.truthy : Json → Bool
  | null => false
  | bool b => b
  | int n => n ≠ 0
  -- a number is zero when every digit before its exponent is
  | float text => (text.takeWhile fun c => c ≠ 'e' && c ≠ 'E').any fun c => c.isDigit && c ≠ '0'
  | str text => text ≠ []
  | arr items => items ≠ []
  | obj members => members ≠ []

section Readers

variable (repr : Json → Text) (catastrophicReason : Text → Option Text)

/-! ### The dry run's reader -/

def namesProblem (names : Json) (place : Text) : Option Text :=
  match names with
  | .arr items =>
    if maxFallbackModels < items.length then
      some (place ++ " must be a list of at most " ++ numeral maxFallbackModels ++ " model names.")
    else if items.any fun name => !name.isTextWithin maxModelLength then
      some (place ++ " must hold model names of at most " ++ numeral maxModelLength ++
        " characters.")
    else none
  | _ =>
    some (place ++ " must be a list of at most " ++ numeral maxFallbackModels ++ " model names.")

def patternProblem (place : Text) (pattern : Json) : Option Text :=
  match pattern with
  | .str text =>
    if maxPatternLength < text.length then
      some (place ++ ".patterns must hold text of at most " ++ numeral maxPatternLength ++
        " characters.")
    else
      (catastrophicReason text).map fun reason =>
        place ++ ".patterns: " ++ repr pattern ++ " can hang the gateway: " ++ reason ++ "."
  | _ =>
    some (place ++ ".patterns must hold text of at most " ++ numeral maxPatternLength ++
      " characters.")

def patternsProblem (config : List (Text × Json)) (place : Text) : Option Text :=
  if !((dictGet config "use_builtins").getD (.bool true)).isFlag then
    some (place ++ ".use_builtins must be true or false.")
  else
    match (dictGet config "patterns").getD (.arr []) with
    | .arr patterns =>
      if maxPatterns < patterns.length then
        some (place ++ ".patterns must be a list of at most " ++ numeral maxPatterns ++ " patterns.")
      else patterns.findSome? (patternProblem repr catastrophicReason place)
    | _ =>
      some (place ++ ".patterns must be a list of at most " ++ numeral maxPatterns ++ " patterns.")

def categoryProblem (place : Text) (entry : Json × ℕ) : Option Text :=
  let place := place ++ "[" ++ numeral entry.2 ++ "]"
  match entry.1 with
  | .obj category =>
    categoryKeys.findSome? fun key =>
      if (stated category key).all (Json.isTextWithin maxTextLength) then none
      else some (place ++ "." ++ key ++ " must be text of at most " ++ numeral maxTextLength ++
        " characters.")
  | _ => some (place ++ " must be an object.")

def categoriesProblem (categories : Json) (place : Text) : Option Text :=
  match categories with
  | .arr items =>
    if maxCategories < items.length then
      some (place ++ " must be a list of at most " ++ numeral maxCategories ++ " categories.")
    else items.zipIdx.findSome? (categoryProblem place)
  | _ => some (place ++ " must be a list of at most " ++ numeral maxCategories ++ " categories.")

def nameProblem (config : List (Text × Json)) (place key : Text) : Option Text :=
  if (stated config key).all (Json.isTextWithin maxModelLength) then none
  else some (place ++ "." ++ key ++ " must be a model name of at most " ++ numeral maxModelLength ++
    " characters.")

def textProblem (config : List (Text × Json)) (place key : Text) : Option Text :=
  if (stated config key).all (Json.isTextWithin maxTextLength) then none
  else some (place ++ "." ++ key ++ " must be text of at most " ++ numeral maxTextLength ++
    " characters.")

def wordProblem (config : List (Text × Json)) (place : Text) (entry : Text × Vocabulary) :
    Option Text :=
  if (stated config entry.1).all (·.isWord entry.2.words) then none
  else some (place ++ "." ++ entry.1 ++ " must be one of " ++ shownWords entry.2.words ++ ", not " ++
    repr ((dictGet config entry.1).getD .null) ++ ".")

def configProblem (stepType : StepType) (config : List (Text × Json)) (place : Text) :
    Option Text :=
  nameFields.findSome? (nameProblem config place) <|>
    textFields.findSome? (textProblem config place) <|>
    namesProblem ((dictGet config "fallback_models").getD (.arr []))
      (place ++ ".fallback_models") <|>
    (vocabularies stepType).findSome? (wordProblem repr config place) <|>
    match stepType with
    | .injectionFilter => patternsProblem repr catastrophicReason config place
    | .modelRoute =>
      categoriesProblem ((dictGet config "categories").getD (.arr [])) (place ++ ".categories")
    | .piiFilter => none

def stepProblem (entry : Json × ℕ) : Option Text :=
  let place := ("pipeline.steps[" : Text) ++ numeral entry.2 ++ "]"
  match entry.1 with
  | .obj step =>
    match (dictGet step "type").bind fun v => v.text?.bind StepType.ofText? with
    | some stepType =>
      match (dictGet step "config").filter Json.truthy with
      | none => configProblem repr catastrophicReason stepType [] (place ++ ".config")
      | some (.obj config) =>
        configProblem repr catastrophicReason stepType config (place ++ ".config")
      | some _ => some (place ++ ".config must be an object.")
    | none =>
      some (place ++ ".type must be one of " ++ shownWords (StepType.all.map StepType.value) ++ ".")
  | _ => some (place ++ " must be an object.")

/-- The first thing in a caller's pipeline that the lenient reader would have to correct, named by
where it is. -/
def problemIn : Json → Option Text
  | .obj data =>
    match (dictGet data "steps").getD (.arr []) with
    | .arr steps =>
      if maxSteps < steps.length then
        some (("pipeline.steps allows at most " : Text) ++ numeral maxSteps ++ " steps.")
      else
        steps.zipIdx.findSome? (stepProblem repr catastrophicReason) <|>
          FallbackKind.all.findSome? fun kind =>
            namesProblem ((dictGet data kind.chainField).getD (.arr []))
              (("pipeline." : Text) ++ kind.chainField)
    | _ => some "pipeline.steps must be a list."
  | _ => some "pipeline must be an object."

/-! ### Management's reader -/

/-- Every key that the gateway does not read is refused, by name. -/
def keysProblem (block : List (Text × Json)) (allowed : List Text) (place : Text) : Option Text :=
  let sorted (keys : List Text) : List Text := keys.insertionSort (· ≤ ·)
  let extra := sorted ((block.map (·.1)).filter (· ∉ allowed))
  if extra = [] then none
  else some (place ++ " does not take " ++
    List.intercalate ", " (extra.map fun key => repr (.str key)) ++ ": it carries " ++
    List.intercalate ", " (sorted allowed) ++ ".")

def strListProblem (values : Json) (field : Text) (maxItems maxLength : ℕ) : Option Text :=
  let place := ("step.config." : Text) ++ field
  match values with
  | .arr items =>
    if maxItems < items.length then
      some (place ++ " allows at most " ++ numeral maxItems ++ " items.")
    else if items.any fun v => !v.isTextWithin maxLength then
      some (place ++ " must contain strings of at most " ++ numeral maxLength ++ " characters.")
    else none
  | _ => some (place ++ " must be a list.")

def regexProblem (pattern : Json) : Option Text :=
  pattern.text?.bind fun text => (catastrophicReason text).map fun reason =>
    ("Pattern '" : Text) ++ text ++ "' can hang the gateway: " ++ reason ++
      ". Rewrite it so the engine has only one way to match."

def choiceProblem (config : List (Text × Json)) (field : Text) (words : List Text) : Option Text :=
  if (stated config field).all (·.isWord words) then none
  else some (("step.config." : Text) ++ field ++ " must be one of " ++ shownWords words ++ ", not " ++
    repr ((dictGet config field).getD .null) ++ ".")

def flagProblem (config : List (Text × Json)) (field : Text) : Option Text :=
  if (stated config field).all Json.isFlag then none
  else some (("step.config." : Text) ++ field ++ " must be true or false.")

/-- A model a step names, or nothing yet: an empty name is one that is not set. -/
def modelNameProblem (config : List (Text × Json)) (place key : Text) : Option Text :=
  if ((stated config key).filter (· ≠ .str [])).all (Json.isTextWithin maxModelLength) then none
  else some (place ++ "." ++ key ++ " must be a model name of at most " ++ numeral maxModelLength ++
    " characters.")

def stepChainProblem (config : List (Text × Json)) : Option Text :=
  (stated config "fallback_models").bind fun chain =>
    strListProblem chain "fallback_models" maxFallbackModels maxModelLength

def savedCategoryProblem (entry : Json × ℕ) : Option Text :=
  match entry.1 with
  | .obj category =>
    let place := ("step.config.categories[" : Text) ++ numeral entry.2 ++ "]"
    keysProblem repr category categoryKeys place <|>
      textProblem category place "name" <|>
      textProblem category place "description" <|>
      modelNameProblem category place "model"
  | _ => some "Each category must be an object."

def savedCategoriesProblem (categories : Json) : Option Text :=
  let refused : Text := ("step.config.categories must be a list of at most " : Text) ++
    numeral maxCategories ++ " entries."
  match categories with
  | .arr items =>
    if maxCategories < items.length then some refused
    else items.zipIdx.findSome? (savedCategoryProblem repr)
  | _ => some refused

def savedPatternsProblem (patterns : Json) : Option Text :=
  strListProblem patterns "patterns" maxPatterns maxPatternLength <|>
    match patterns with
    | .arr items => items.findSome? (regexProblem catastrophicReason)
    | _ => none

def stepConfigProblem (stepType : StepType) (config : List (Text × Json)) : Option Text :=
  keysProblem repr config (stepConfigKeys stepType) (("step.config of " : Text) ++ stepType.value) <|>
    stepChainProblem config <|>
    modelNameProblem config "step.config" "model" <|>
    match stepType with
    | .injectionFilter =>
      savedPatternsProblem catastrophicReason ((dictGet config "patterns").getD (.arr [])) <|>
        textProblem config "step.config" "instruction" <|>
        choiceProblem repr config "mode" injectionModes <|>
        choiceProblem repr config "action" filterActions <|>
        choiceProblem repr config "scope" scanScopes <|>
        flagProblem config "use_builtins" <|>
        choiceProblem repr config "on_undetermined" failurePolicies
    | .piiFilter =>
      textProblem config "step.config" "instruction" <|>
        textProblem config "step.config" "notice" <|>
        choiceProblem repr config "on_failure" failurePolicies
    | .modelRoute =>
      textProblem config "step.config" "notice" <|>
        modelNameProblem config "step.config" "default_model" <|>
        savedCategoriesProblem repr ((dictGet config "categories").getD (.arr []))

/-- What one step carries. -/
def stepKeys : List Text := ["config", "type"]

def savedStepProblem (raw : Json) : Option Text :=
  match raw with
  | .obj step =>
    match (dictGet step "type").bind fun v => v.text?.bind StepType.ofText? with
    | some stepType =>
      keysProblem repr step stepKeys "A step" <|>
        match (dictGet step "config").getD (.obj []) with
        | .obj config => stepConfigProblem repr catastrophicReason stepType config
        | _ => some "step.config must be an object."
    | none =>
      some (("Each step needs a type in " : Text) ++
        shownWords (StepType.all.map StepType.value) ++ ".")
  | _ =>
    some (("Each step needs a type in " : Text) ++
      shownWords (StepType.all.map StepType.value) ++ ".")

def stepsProblem (value : Json) : Option Text :=
  match value with
  | .arr steps =>
    if maxSteps < steps.length then
      some (("A pipeline may have at most " : Text) ++ numeral maxSteps ++ " steps.")
    else steps.findSome? (savedStepProblem repr catastrophicReason)
  | _ => some "steps must be a list."

/-- One kind's chain as it may be written: names, none of them empty and none twice. -/
def chainProblem (value : Json) : Option Text :=
  match value with
  | .arr items =>
    if items.any fun item => !item.isText then
      some "A fallback chain must be a list of model names."
    else if maxFallbackModels < items.length then
      some (("At most " : Text) ++ numeral maxFallbackModels ++ " fallback models are allowed.")
    else if items.any fun item => !item.isTextWithin maxModelLength then
      some (("Model names are limited to " : Text) ++ numeral maxModelLength ++ " characters.")
    else if items.any (· = .str []) then some "A fallback chain names no empty model."
    else if ¬items.Nodup then some "A model is named twice; each is tried once."
    else none
  | _ => some "A fallback chain must be a list of model names."

/-- The first thing Management refuses in what somebody saves. A field that is not sent is not
checked. -/
def managementProblem : Json → Option Text
  | .obj data =>
    (dictGet data "steps").bind (stepsProblem repr catastrophicReason) <|>
      FallbackKind.all.findSome? fun kind => (dictGet data kind.chainField).bind chainProblem
  | _ => some "Invalid data. Expected a dictionary."

end Readers

/-! ### What a strict reader ensures -/

/-- What both strict readers ensure of the fields a step of this type reads. -/
structure ConfigAccepted (stepType : StepType) (config : List (Text × Json)) : Prop where
  text : ∀ key ∈ nameFields ++ textFields, key ∈ stepConfigKeys stepType →
    (stated config key).all (Json.isTextWithin maxTextLength) = true
  names : ∀ v, stated config "fallback_models" = some v → ∃ names, v = .arr names ∧
    names.length ≤ maxFallbackModels ∧ ∀ name ∈ names, name.isTextWithin maxModelLength
  categories : stepType = .modelRoute → ∀ v, dictGet config "categories" = some v →
    ∃ categories, v = .arr categories ∧ categories.length ≤ maxCategories ∧
      ∀ category ∈ categories, ∃ members, category = .obj members ∧
        ∀ key ∈ categoryKeys, (stated members key).all (Json.isTextWithin maxTextLength) = true
  patterns : stepType = .injectionFilter → ∀ v, dictGet config "patterns" = some v →
    ∃ patterns, v = .arr patterns ∧ ∀ pattern ∈ patterns, pattern.isText = true
  flag : stepType = .injectionFilter → (stated config "use_builtins").all Json.isFlag = true
  word : ∀ entry ∈ vocabularies stepType,
    (stated config entry.1).all (·.isWord entry.2.words) = true

/-- What both strict readers ensure of a document. -/
structure DocumentAccepted (data : List (Text × Json)) : Prop where
  length_le : (Pipeline.listed data "steps").length ≤ maxSteps
  step : ∀ raw ∈ Pipeline.listed data "steps", ∃ stepType : StepType,
    raw.get "type" = some (.str stepType.value) ∧
      ConfigAccepted stepType (Pipeline.writtenConfig raw)
  chain : ∀ kind : FallbackKind, (Pipeline.listed data kind.chainField).length ≤ maxFallbackModels ∧
    ∀ name ∈ Pipeline.listed data kind.chainField, name.isTextWithin maxModelLength

theorem isTextWithin_iff {bound : ℕ} {v : Json} :
    v.isTextWithin bound = true ↔ ∃ text : Text, v = .str text ∧ text.length ≤ bound := by
  cases v <;> simp [Json.isTextWithin]

/-- A shorter bound is within a longer one. -/
theorem isTextWithin_mono {bound bound' : ℕ} (h : bound ≤ bound') {v : Json}
    (hv : v.isTextWithin bound = true) : v.isTextWithin bound' = true := by
  obtain ⟨text, rfl, hlength⟩ := isTextWithin_iff.mp hv
  exact isTextWithin_iff.mpr ⟨text, rfl, hlength.trans h⟩

/-- What a field states is what is written there, unless it is a null. -/
theorem stated_eq_some_iff {config : List (Text × Json)} {key : Text} {v : Json} :
    stated config key = some v ↔ dictGet config key = some v ∧ v ≠ .null := by
  rw [stated, Option.filter_eq_some_iff, decide_eq_true_eq]

private theorem ite_none_eq_none {c : Prop} [Decidable c] {text : Text} :
    (if c then none else some text) = none ↔ c := by
  split_ifs with hc <;> simp [hc]

private theorem ite_some_eq_none {c : Prop} [Decidable c] {text : Text} {rest : Option Text} :
    (if c then some text else rest) = none ↔ ¬c ∧ rest = none := by
  split_ifs with hc <;> simp [hc]

/-- Names with no problem are a list of them within its bounds. -/
theorem namesProblem_eq_none {names : Json} {place : Text} (h : namesProblem names place = none) :
    ∃ items, names = .arr items ∧ items.length ≤ maxFallbackModels ∧
      ∀ name ∈ items, name.isTextWithin maxModelLength = true := by
  cases names with
  | arr items =>
    rw [namesProblem, ite_some_eq_none, ite_some_eq_none] at h
    obtain ⟨hlength, hnames, -⟩ := h
    exact ⟨items, rfl, not_lt.mp hlength, by simpa using hnames⟩
  | _ => cases h

/-- Strings with no problem are a list of them within its bounds. -/
theorem strListProblem_eq_none {values : Json} {field : Text} {maxItems maxLength : ℕ}
    (h : strListProblem values field maxItems maxLength = none) :
    ∃ items, values = .arr items ∧ items.length ≤ maxItems ∧
      ∀ v ∈ items, v.isTextWithin maxLength = true := by
  cases values with
  | arr items =>
    rw [strListProblem, ite_some_eq_none, ite_some_eq_none] at h
    obtain ⟨hlength, hitems, -⟩ := h
    exact ⟨items, rfl, not_lt.mp hlength, by simpa using hitems⟩
  | _ => cases h

private theorem exists_mem_zipIdx {items : List Json} {v : Json} (h : v ∈ items) :
    ∃ i, (v, i) ∈ items.zipIdx := by
  obtain ⟨i, hi⟩ := List.mem_iff_getElem?.mp h
  exact ⟨i, List.mk_mem_zipIdx_iff_getElem?.mpr hi⟩

/-- Where something is written, the default of a field does not matter. -/
private theorem getD_of_some {config : List (Text × Json)} {key : Text} {v : Json}
    (h : dictGet config key = some v) (default : Json) : (dictGet config key).getD default = v := by
  rw [h, Option.getD_some]

section Accepted

variable {repr : Json → Text} {catastrophicReason : Text → Option Text} {stepType : StepType}
  {config : List (Text × Json)} {place : Text}

/-- Names read with a default, without a problem. -/
theorem names_of_namesProblem {key : Text}
    (h : namesProblem ((dictGet config key).getD (.arr [])) place = none) :
    ∀ v, dictGet config key = some v → ∃ names, v = .arr names ∧
      names.length ≤ maxFallbackModels ∧
      ∀ name ∈ names, name.isTextWithin maxModelLength = true := by
  intro v hv
  rw [getD_of_some hv] at h
  exact namesProblem_eq_none h

theorem categoryProblem_eq_none {entry : Json × ℕ} (h : categoryProblem place entry = none) :
    ∃ members, entry.1 = .obj members ∧
      ∀ key ∈ categoryKeys, (stated members key).all (Json.isTextWithin maxTextLength) = true := by
  unfold categoryProblem at h
  dsimp only at h
  split at h
  next members hmembers =>
    rw [List.findSome?_eq_none_iff] at h
    exact ⟨members, hmembers, fun key hkey => ite_none_eq_none.mp (h key hkey)⟩
  next => cases h

theorem categoriesProblem_eq_none {categories : Json}
    (h : categoriesProblem categories place = none) :
    ∃ items, categories = .arr items ∧ items.length ≤ maxCategories ∧
      ∀ category ∈ items, ∃ members, category = .obj members ∧
        ∀ key ∈ categoryKeys, (stated members key).all (Json.isTextWithin maxTextLength) = true := by
  cases categories with
  | arr items =>
    rw [categoriesProblem, ite_some_eq_none, List.findSome?_eq_none_iff] at h
    obtain ⟨hlength, hitems⟩ := h
    refine ⟨items, rfl, not_lt.mp hlength, fun category hcategory => ?_⟩
    obtain ⟨i, hi⟩ := exists_mem_zipIdx hcategory
    exact categoryProblem_eq_none (hitems _ hi)
  | _ => cases h

theorem patternsProblem_eq_none
    (h : patternsProblem repr catastrophicReason config place = none) :
    (stated config "use_builtins").all Json.isFlag = true ∧
      ∀ v, dictGet config "patterns" = some v →
        ∃ patterns, v = .arr patterns ∧ ∀ pattern ∈ patterns, pattern.isText = true := by
  rw [patternsProblem, ite_some_eq_none] at h
  obtain ⟨hflag, hpatterns⟩ := h
  constructor
  · refine (Option.all_eq_true ..).mpr fun v hv => ?_
    rw [getD_of_some (stated_eq_some_iff.mp hv).1] at hflag
    simpa using hflag
  · intro v hv
    rw [getD_of_some hv] at hpatterns
    cases v with
    | arr patterns =>
      dsimp only at hpatterns
      rw [ite_some_eq_none, List.findSome?_eq_none_iff] at hpatterns
      refine ⟨patterns, rfl, fun pattern hpattern => ?_⟩
      have hproblem := hpatterns.2 pattern hpattern
      cases pattern with
      | str text => rfl
      | _ => cases hproblem
    | _ => cases hpatterns

/-- **What the dry run's reader accepts** of a step's configuration. -/
theorem configProblem_eq_none
    (h : configProblem repr catastrophicReason stepType config place = none) :
    ConfigAccepted stepType config := by
  simp only [configProblem, Option.orElse_eq_orElse, Option.orElse_eq_or, Option.or_eq_none_iff,
    List.findSome?_eq_none_iff] at h
  obtain ⟨hnames, htexts, hchain, hwords, htype⟩ := h
  constructor
  · intro key hkey _
    rcases List.mem_append.mp hkey with hname | htext
    · have hwithin := ite_none_eq_none.mp (hnames key hname)
      refine (Option.all_eq_true ..).mpr fun v hv => ?_
      exact isTextWithin_mono (by decide) ((Option.all_eq_true ..).mp hwithin v hv)
    · exact ite_none_eq_none.mp (htexts key htext)
  · intro v hv
    exact names_of_namesProblem hchain v (stated_eq_some_iff.mp hv).1
  · rintro rfl v hv
    rw [getD_of_some hv] at htype
    exact categoriesProblem_eq_none htype
  · rintro rfl
    exact (patternsProblem_eq_none htype).2
  · rintro rfl
    exact (patternsProblem_eq_none htype).1
  · intro entry hentry
    exact ite_none_eq_none.mp (hwords entry hentry)

/-- A type word that is read names a type of its own. -/
theorem of_typeWord {step : List (Text × Json)} {stepType : StepType}
    (h : ((dictGet step "type").bind fun v => v.text?.bind StepType.ofText?) = some stepType) :
    dictGet step "type" = some (.str stepType.value) := by
  obtain ⟨v, hv, hword⟩ := Option.bind_eq_some_iff.mp h
  obtain ⟨word, htext, htype⟩ := Option.bind_eq_some_iff.mp hword
  obtain rfl := StepType.ofText?_eq_some_iff.mp htype
  cases v with
  | str text =>
    obtain rfl : text = stepType.value := Option.some.inj htext
    exact hv
  | _ => cases htext

theorem stepProblem_eq_none {entry : Json × ℕ}
    (h : stepProblem repr catastrophicReason entry = none) :
    ∃ stepType : StepType, entry.1.get "type" = some (.str stepType.value) ∧
      ConfigAccepted stepType (Pipeline.writtenConfig entry.1) := by
  unfold stepProblem at h
  dsimp only at h
  split at h
  next step hstep =>
    split at h
    next stepType htype =>
      refine ⟨stepType, by rw [hstep]; exact of_typeWord htype, ?_⟩
      rw [hstep]
      split at h
      next hfalsy =>
        -- a configuration that Python takes for false states nothing
        have hempty : Pipeline.writtenConfig (.obj step) = [] := by
          unfold Pipeline.writtenConfig
          split
          next config hconfig =>
            have hconfig : dictGet step "config" = some (.obj config) := hconfig
            rw [hconfig, Option.filter_some] at hfalsy
            simpa [Json.truthy] using hfalsy
          next => rfl
        rw [hempty]
        exact configProblem_eq_none h
      next config hconfig =>
        have hwritten : Pipeline.writtenConfig (.obj step) = config := by
          have hget := (Option.filter_eq_some_iff.mp hconfig).1
          rw [Pipeline.writtenConfig, Json.get, hget]
        rw [hwritten]
        exact configProblem_eq_none h
      next => cases h
    next => cases h
  next => cases h

/-- **What the dry run's reader accepts.** -/
theorem problemIn_eq_none {d : Json} (h : problemIn repr catastrophicReason d = none) :
    ∃ data, d = .obj data ∧ DocumentAccepted data := by
  cases d with
  | obj data =>
    refine ⟨data, rfl, ?_⟩
    simp only [problemIn] at h
    split at h
    next steps hsteps =>
      simp only [ite_some_eq_none, Option.orElse_eq_orElse, Option.orElse_eq_or,
        Option.or_eq_none_iff, List.findSome?_eq_none_iff] at h
      obtain ⟨hlength, hall, hchains⟩ := h
      have hlisted : Pipeline.listed data "steps" = steps := by
        unfold Pipeline.listed
        cases hget : dictGet data "steps" with
        | none =>
          rw [hget, Option.getD_none] at hsteps
          exact Json.arr.inj hsteps
        | some v =>
          rw [hget, Option.getD_some] at hsteps
          rw [hsteps]
      constructor
      · rw [hlisted]
        exact not_lt.mp hlength
      · rw [hlisted]
        intro raw hraw
        obtain ⟨i, hi⟩ := exists_mem_zipIdx hraw
        exact stepProblem_eq_none (hall _ hi)
      · intro kind
        have hnames := names_of_namesProblem (hchains kind (by cases kind <;> decide))
        unfold Pipeline.listed
        split
        next items hitems =>
          obtain ⟨names, heq, hwithin⟩ := hnames _ hitems
          obtain rfl := Json.arr.inj heq
          exact hwithin
        next => exact ⟨Nat.zero_le _, by simp⟩
    next => cases h
  | _ => cases h

theorem modelNameProblem_eq_none {key : Text} (h : modelNameProblem config place key = none) :
    (stated config key).all (Json.isTextWithin maxModelLength) = true := by
  have hwithin := ite_none_eq_none.mp h
  refine (Option.all_eq_true ..).mpr fun v hv => ?_
  by_cases hempty : v = .str []
  · rw [hempty]
    rfl
  · refine (Option.all_eq_true ..).mp hwithin v ?_
    exact Option.filter_eq_some_iff.mpr ⟨hv, by simpa using hempty⟩

/-- A field whose name is short is within the bound of a text. -/
theorem stated_of_modelName {key : Text}
    (h : (stated config key).all (Json.isTextWithin maxModelLength) = true) :
    (stated config key).all (Json.isTextWithin maxTextLength) = true :=
  (Option.all_eq_true ..).mpr fun v hv =>
    isTextWithin_mono (by decide) ((Option.all_eq_true ..).mp h v hv)

theorem savedCategoriesProblem_eq_none {categories : Json}
    (h : savedCategoriesProblem repr categories = none) :
    ∃ items, categories = .arr items ∧ items.length ≤ maxCategories ∧
      ∀ category ∈ items, ∃ members, category = .obj members ∧
        ∀ key ∈ categoryKeys, (stated members key).all (Json.isTextWithin maxTextLength) = true := by
  cases categories with
  | arr items =>
    simp only [savedCategoriesProblem, ite_some_eq_none, List.findSome?_eq_none_iff] at h
    obtain ⟨hlength, hitems⟩ := h
    refine ⟨items, rfl, not_lt.mp hlength, fun category hcategory => ?_⟩
    obtain ⟨i, hi⟩ := exists_mem_zipIdx hcategory
    have hproblem := hitems _ hi
    cases category with
    | obj members =>
      simp only [savedCategoryProblem, Option.orElse_eq_orElse, Option.orElse_eq_or,
        Option.or_eq_none_iff] at hproblem
      obtain ⟨-, hname, hdescription, hmodel⟩ := hproblem
      refine ⟨members, rfl, fun key hkey => ?_⟩
      simp only [categoryKeys, List.mem_cons, List.not_mem_nil, or_false] at hkey
      rcases hkey with rfl | rfl | rfl
      · exact ite_none_eq_none.mp hname
      · exact ite_none_eq_none.mp hdescription
      · exact stated_of_modelName (modelNameProblem_eq_none hmodel)
    | _ => cases hproblem
  | _ => cases h

theorem savedPatternsProblem_eq_none
    (h : savedPatternsProblem catastrophicReason ((dictGet config "patterns").getD (.arr [])) =
      none) :
    ∀ v, dictGet config "patterns" = some v →
      ∃ patterns, v = .arr patterns ∧ ∀ pattern ∈ patterns, pattern.isText = true := by
  intro v hv
  rw [getD_of_some hv] at h
  simp only [savedPatternsProblem, Option.orElse_eq_orElse, Option.orElse_eq_or,
    Option.or_eq_none_iff] at h
  obtain ⟨patterns, rfl, -, hall⟩ := strListProblem_eq_none h.1
  refine ⟨patterns, rfl, fun pattern hpattern => ?_⟩
  obtain ⟨text, rfl, -⟩ := isTextWithin_iff.mp (hall pattern hpattern)
  rfl

/-- **What Management accepts** of a step's configuration. -/
theorem stepConfigProblem_eq_none
    (h : stepConfigProblem repr catastrophicReason stepType config = none) :
    ConfigAccepted stepType config := by
  simp only [stepConfigProblem, Option.orElse_eq_orElse, Option.orElse_eq_or,
    Option.or_eq_none_iff] at h
  obtain ⟨-, hchain, hmodel, htype⟩ := h
  have hnames : ∀ v, stated config "fallback_models" = some v → ∃ names, v = .arr names ∧
      names.length ≤ maxFallbackModels ∧
      ∀ name ∈ names, name.isTextWithin maxModelLength = true := by
    intro v hv
    rw [stepChainProblem, hv, Option.bind_some] at hchain
    exact strListProblem_eq_none hchain
  have hmodel := stated_of_modelName (modelNameProblem_eq_none hmodel)
  cases stepType with
  | injectionFilter =>
    simp only [Option.or_eq_none_iff] at htype
    obtain ⟨hpatterns, hinstruction, hmode, haction, hscope, hflag, hundetermined⟩ := htype
    refine ⟨?_, hnames, by simp, fun _ => savedPatternsProblem_eq_none hpatterns,
      fun _ => ite_none_eq_none.mp hflag, ?_⟩
    · intro key hkey hread
      obtain rfl | rfl : key = "model" ∨ key = "instruction" := by
        revert key
        decide
      · exact hmodel
      · exact ite_none_eq_none.mp hinstruction
    · intro entry hentry
      simp only [vocabularies, List.mem_cons, List.not_mem_nil, or_false] at hentry
      rcases hentry with rfl | rfl | rfl | rfl
      · exact ite_none_eq_none.mp hmode
      · exact ite_none_eq_none.mp haction
      · exact ite_none_eq_none.mp hscope
      · exact ite_none_eq_none.mp hundetermined
  | piiFilter =>
    simp only [Option.or_eq_none_iff] at htype
    obtain ⟨hinstruction, hnotice, hfailure⟩ := htype
    refine ⟨?_, hnames, by simp, by simp, by simp, ?_⟩
    · intro key hkey hread
      obtain rfl | rfl | rfl : key = "model" ∨ key = "instruction" ∨ key = "notice" := by
        revert key
        decide
      · exact hmodel
      · exact ite_none_eq_none.mp hinstruction
      · exact ite_none_eq_none.mp hnotice
    · intro entry hentry
      simp only [vocabularies, List.mem_cons, List.not_mem_nil, or_false] at hentry
      rw [hentry]
      exact ite_none_eq_none.mp hfailure
  | modelRoute =>
    simp only [Option.or_eq_none_iff] at htype
    obtain ⟨hnotice, hdefault, hcategories⟩ := htype
    refine ⟨?_, hnames, fun _ v hv => ?_, by simp, by simp, by simp [vocabularies]⟩
    · intro key hkey hread
      obtain rfl | rfl | rfl : key = "model" ∨ key = "default_model" ∨ key = "notice" := by
        revert key
        decide
      · exact hmodel
      · exact stated_of_modelName (modelNameProblem_eq_none hdefault)
      · exact ite_none_eq_none.mp hnotice
    · rw [getD_of_some hv] at hcategories
      exact savedCategoriesProblem_eq_none hcategories

theorem savedStepProblem_eq_none {raw : Json}
    (h : savedStepProblem repr catastrophicReason raw = none) :
    ∃ stepType : StepType, raw.get "type" = some (.str stepType.value) ∧
      ConfigAccepted stepType (Pipeline.writtenConfig raw) := by
  cases raw with
  | obj step =>
    simp only [savedStepProblem] at h
    split at h
    next stepType htype =>
      refine ⟨stepType, of_typeWord htype, ?_⟩
      simp only [Option.orElse_eq_orElse, Option.orElse_eq_or, Option.or_eq_none_iff] at h
      obtain ⟨-, hconfig⟩ := h
      split at hconfig
      next config hget =>
        have hwritten : Pipeline.writtenConfig (.obj step) = config := by
          rw [Pipeline.writtenConfig, Json.get]
          cases hstated : dictGet step "config" with
          | none =>
            rw [hstated, Option.getD_none] at hget
            exact Json.obj.inj hget
          | some v =>
            rw [hstated, Option.getD_some] at hget
            rw [hget]
        rw [hwritten]
        exact stepConfigProblem_eq_none hconfig
      next => cases hconfig
    next => cases h
  | _ => cases h

theorem stepsProblem_eq_none {value : Json}
    (h : stepsProblem repr catastrophicReason value = none) :
    ∃ steps, value = .arr steps ∧ steps.length ≤ maxSteps ∧
      ∀ raw ∈ steps, ∃ stepType : StepType, raw.get "type" = some (.str stepType.value) ∧
        ConfigAccepted stepType (Pipeline.writtenConfig raw) := by
  cases value with
  | arr steps =>
    rw [stepsProblem, ite_some_eq_none, List.findSome?_eq_none_iff] at h
    exact ⟨steps, rfl, not_lt.mp h.1, fun raw hraw => savedStepProblem_eq_none (h.2 raw hraw)⟩
  | _ => cases h

theorem chainProblem_eq_none {value : Json} (h : chainProblem value = none) :
    ∃ names, value = .arr names ∧ names.length ≤ maxFallbackModels ∧
      ∀ name ∈ names, name.isTextWithin maxModelLength = true := by
  cases value with
  | arr names =>
    rw [chainProblem, ite_some_eq_none, ite_some_eq_none, ite_some_eq_none] at h
    obtain ⟨-, hlength, hwithin, -⟩ := h
    exact ⟨names, rfl, not_lt.mp hlength, by simpa using hwithin⟩
  | _ => cases h

/-- **What Management accepts.** -/
theorem managementProblem_eq_none {d : Json}
    (h : managementProblem repr catastrophicReason d = none) :
    ∃ data, d = .obj data ∧ DocumentAccepted data := by
  cases d with
  | obj data =>
    simp only [managementProblem, Option.orElse_eq_orElse, Option.orElse_eq_or,
      Option.or_eq_none_iff, List.findSome?_eq_none_iff] at h
    obtain ⟨hsteps, hchains⟩ := h
    have hlisted : (Pipeline.listed data "steps").length ≤ maxSteps ∧
        ∀ raw ∈ Pipeline.listed data "steps", ∃ stepType : StepType,
          raw.get "type" = some (.str stepType.value) ∧
            ConfigAccepted stepType (Pipeline.writtenConfig raw) := by
      unfold Pipeline.listed
      split
      next steps hget =>
        rw [hget, Option.bind_some] at hsteps
        obtain ⟨items, heq, hspec⟩ := stepsProblem_eq_none hsteps
        obtain rfl := Json.arr.inj heq
        exact hspec
      next => exact ⟨Nat.zero_le _, by simp⟩
    refine ⟨data, rfl, hlisted.1, hlisted.2, fun kind => ?_⟩
    have hchain := hchains kind (by cases kind <;> decide)
    unfold Pipeline.listed
    split
    next names hget =>
      rw [hget, Option.bind_some] at hchain
      obtain ⟨items, heq, hspec⟩ := chainProblem_eq_none hchain
      obtain rfl := Json.arr.inj heq
      exact hspec
    next => exact ⟨Nat.zero_le _, by simp⟩
  | _ => cases h

end Accepted

end AiraGateway
