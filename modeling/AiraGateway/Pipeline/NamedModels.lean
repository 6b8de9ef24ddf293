import AiraGateway.Pipeline.ReadAsWritten
import AiraGateway.Pipeline.Runner

/-!
# The models a pipeline names, and those its steps reach

The checks on a pipeline's models walk the document as it was written (`modelsNamedIn`, its mirror
in Management, and `classifiersNamedIn` for what a dry run calls); the steps run on the document as
it was read. A walk over something that Python cannot iterate raises.

* `models_checked_iff`: of every document that a strict reader accepts, both walks name the same
  models and no step reaches another, and a dry run asks no model that is not held to the approval,
  exactly where every chain that is asked without a model of its own is named by a step with one,
  and no step has categories that are no list where it does not read them.
* `chain_without_model`: a redactor with a chain and no model asks one that nobody approved.
-/

namespace AiraGateway

/-! ### The walks -/

/-- What Python goes through in a loop. -/
def Json.elements? : Json → Option (List Json)
  | arr items => some items
  | str text => some (text.map fun c => str [c])
  | obj members => some (members.map fun entry => str entry.1)
  | null | bool _ | int _ | float _ => none

/-- A loop over a value; what is false has nothing in it. -/
def entries (v : Option Json) : Option (List Json) :=
  match v.filter Json.truthy with
  | none => some []
  | some v => v.elements?

section Walks

variable (repr : Json → Text)

/-- A value as Python writes it as a text. -/
def asText : Json → Text
  | .str text => text
  | v => repr v

/-- The entries of a list of names that are not empty. -/
def namesIn (names : List Json) : List Text := (names.filter Json.truthy).map (asText repr)

/-- The model under a key, if one is written there. -/
def modelUnder (config : List (Text × Json)) (key : Text) : List Text :=
  namesIn repr (dictGet config key).toList

/-- A step's configuration. One that is no dictionary cannot be asked for a key. -/
def configOf : Json → Option (List (Text × Json))
  | .obj step =>
    match (dictGet step "config").filter Json.truthy with
    | none => some []
    | some (.obj config) => some config
    | some _ => none
  | _ => some []

def categoryModels (categories : List Json) : List Text :=
  categories.flatMap fun
    | .obj category => modelUnder repr category "model"
    | _ => []

def chainNames (pipeline : List (Text × Json)) : Option (List Text) :=
  (FallbackKind.all.mapM fun kind => (entries (dictGet pipeline kind.chainField)).map
    (namesIn repr)).map List.flatten

/-- The models written in one step. -/
def stepModels (step : Json) : Option (List Text) := do
  let config ← configOf step
  let fallbacks ← entries (dictGet config "fallback_models")
  let categories ← entries (dictGet config "categories")
  some (modelUnder repr config "model" ++ modelUnder repr config "default_model" ++
    namesIn repr fallbacks ++ categoryModels repr categories)

/-- Every model this pipeline could reach, wherever it is written. -/
def modelsNamedIn (pipeline : List (Text × Json)) : Option (List Text) := do
  let steps ← entries (dictGet pipeline "steps")
  let named ← steps.mapM (stepModels repr)
  let chains ← chainNames repr pipeline
  some (named.flatten ++ chains).eraseDups

/-- The models written in one step, as Management's walk finds them. -/
def managementStepModels (step : Json) : Option (List Text) := do
  let config ← configOf step
  let own := nameFields.flatMap (modelUnder repr config)
  let fallbacks ← entries (dictGet config "fallback_models")
  let categories ← entries (dictGet config "categories")
  some (own ++ namesIn repr fallbacks ++ categoryModels repr categories)

/-- The same walk, as Management has it. -/
def managementModelsNamedIn (pipeline : List (Text × Json)) : Option (List Text) := do
  let steps ← entries (dictGet pipeline "steps")
  let named ← steps.mapM (managementStepModels repr)
  let chains ← chainNames repr pipeline
  some (named.flatten ++ chains).eraseDups

/-- Whether a step of this kind calls a model of its own, given its configuration. -/
def asksAModel : List (Text × (List (Text × Json) → Bool)) :=
  [("pii_filter", fun _ => true),
    ("injection_filter", fun config => dictGet config "mode" = some (.str "llm")),
    ("model_route", fun config => (dictGet config "categories").any Json.truthy)]

/-- What one step adds to the models a dry run calls. -/
def stepClassifiers : Json → Option (List Text)
  | .obj step =>
    match (dictGet step "config").filter Json.truthy with
    | some (.obj config) =>
      if modelUnder repr config "model" = [] then some []
      else
        match dictGet asksAModel (asText repr ((dictGet step "type").getD .null)) with
        | some asks =>
          if asks config then
            (entries (dictGet config "fallback_models")).map fun fallbacks =>
              modelUnder repr config "model" ++ namesIn repr fallbacks
          else some []
        | none => some []
    | _ => some []
  | _ => some []

/-- The models a dry run will call. -/
def classifiersNamedIn (pipeline : List (Text × Json)) : Option (List Text) := do
  let steps ← entries (dictGet pipeline "steps")
  let named ← steps.mapM (stepClassifiers repr)
  some named.flatten.eraseDups

/-! ### What is checked -/

/-- The models that a document names, and those its pipeline reaches: whatever a step is asked and
whatever the models answer. -/
structure Checked (d : Json) (named mirrored classifiers : List Text) : Prop where
  mirrored : ∀ name, name ∈ named ↔ name ∈ mirrored
  asks : ∀ (e : StepEvaluator) (engine : TextEngine), ∀ step ∈ (Pipeline.fromDict d).steps,
    ∀ request, ∀ sent ∈ (e.evaluate engine step request).sent, sent.model ∈ named
  reroutes : ∀ (e : StepEvaluator) (engine : TextEngine), ∀ step ∈ (Pipeline.fromDict d).steps,
    ∀ request next, (e.evaluate engine step request).evaluation.request = some next →
      next.model = request.model ∨ next.model ∈ named
  fallsBack : ∀ (e : StepEvaluator), ∀ step ∈ (Pipeline.fromDict d).steps,
    ∀ candidate ∈ (e.candidates step.config).found, candidate.1 ∈ named
  chain : ∀ kind, ∀ name ∈ (Pipeline.fromDict d).chainFor kind, name ∈ named
  dryRun : ∀ (e : StepEvaluator) (engine : TextEngine) (pastBlocks : Bool) request modelCalls,
    ∀ sent ∈ (dryRun (e.evaluate engine) pastBlocks (Pipeline.fromDict d) request modelCalls).sent,
      sent.model ∈ classifiers

/-- No step reaches a model that nobody checked. -/
def ModelsChecked (d : Json) : Prop :=
  ∃ named mirrored classifiers, modelsNamedIn repr d.members = some named ∧
    managementModelsNamedIn repr d.members = some mirrored ∧
    classifiersNamedIn repr d.members = some classifiers ∧ Checked d named mirrored classifiers

end Walks

/-- The model a step writes, and its chain. -/
def writtenModel (raw : Json) : Text := configText (Pipeline.writtenConfig raw) "model"

def writtenChain (raw : Json) : List Text :=
  (strings (Pipeline.listed (Pipeline.writtenConfig raw) "fallback_models")).filter (· ≠ [])

/-- Whether a step is of a kind that calls a model, as it is configured. -/
def StepAsks (raw : Json) : Prop := ∃ word asks, raw.get "type" = some (.str word) ∧
  dictGet asksAModel word = some asks ∧ asks (Pipeline.writtenConfig raw) = true

/-- Every chain that is asked is written beside a model somewhere, and every step's categories are
something to go through. -/
structure ChainsNamed (d : Json) : Prop where
  listed : ∀ raw ∈ Pipeline.listed d.members "steps",
    (entries (dictGet (Pipeline.writtenConfig raw) "categories")).isSome = true
  named : ∀ raw ∈ Pipeline.listed d.members "steps", StepAsks raw → writtenModel raw = [] →
    ∀ name ∈ writtenChain raw, ∃ other ∈ Pipeline.listed d.members "steps", StepAsks other ∧
      writtenModel other ≠ [] ∧ (name = writtenModel other ∨ name ∈ writtenChain other)

/-! ### What a strict reader lets the walks go through -/

/-- What is no list is nothing to go through: a step's list, or none. -/
theorem entries_eq_listed {data : List (Text × Json)} {key : Text}
    (h : ∀ v, stated data key = some v → ∃ items, v = .arr items) :
    entries (dictGet data key) = some (Pipeline.listed data key) := by
  rw [entries, Pipeline.listed]
  rcases hv : dictGet data key with _ | v
  · rfl
  · by_cases hnull : v = .null
    · rw [hnull]
      rfl
    · obtain ⟨items, rfl⟩ := h v (stated_eq_some_iff.mpr ⟨hv, hnull⟩)
      by_cases hitems : items = []
      · rw [hitems]
        rfl
      · have htruthy : (Json.arr items).truthy = true := by simpa [Json.truthy] using hitems
        rw [Option.filter_some_pos htruthy]
        rfl

/-- A document both walks go through: its lists are lists, and its steps are objects whose
configurations are. -/
structure Walkable (data : List (Text × Json)) : Prop where
  steps : entries (dictGet data "steps") = some (Pipeline.listed data "steps")
  chain : ∀ kind : FallbackKind,
    entries (dictGet data kind.chainField) = some (Pipeline.listed data kind.chainField)
  step : ∀ raw ∈ Pipeline.listed data "steps", ∃ step, raw = .obj step ∧
    ((dictGet step "config").filter Json.truthy = none ∨
      ∃ config, (dictGet step "config").filter Json.truthy = some (.obj config))

/-- A configuration that can be asked for a key is the one that is written. -/
theorem configOf_eq_writtenConfig {step : List (Text × Json)}
    (h : (dictGet step "config").filter Json.truthy = none ∨
      ∃ config, (dictGet step "config").filter Json.truthy = some (.obj config)) :
    configOf (.obj step) = some (Pipeline.writtenConfig (.obj step)) := by
  rw [configOf, Pipeline.writtenConfig, Json.get]
  rcases h with hfalsy | ⟨config, hconfig⟩
  · rw [hfalsy]
    rcases hv : dictGet step "config" with _ | v
    · rfl
    · rw [hv] at hfalsy
      have hv : v.truthy = false := by simpa [Option.filter] using hfalsy
      -- the one object that is false states nothing
      rcases v with _ | _ | _ | _ | _ | _ | config
      case obj =>
        have hempty : config = [] := by simpa [Json.truthy] using hv
        rw [hempty]
      all_goals rfl
  · rw [hconfig, (Option.filter_eq_some_iff.mp hconfig).1]

section Accepted

variable {repr : Json → Text} {catastrophicReason : Text → Option Text}

/-- A list of names without a problem is a list, or not there. -/
private theorem list_of_namesProblem {data : List (Text × Json)} {key place : Text}
    (h : namesProblem ((dictGet data key).getD (.arr [])) place = none) :
    ∀ v, stated data key = some v → ∃ items, v = .arr items := by
  intro v hv
  obtain ⟨items, rfl, -⟩ := names_of_namesProblem h v (stated_eq_some_iff.mp hv).1
  exact ⟨items, rfl⟩

private theorem object_of_stepProblem {entry : Json × ℕ}
    (h : stepProblem repr catastrophicReason entry = none) : ∃ step, entry.1 = .obj step ∧
      ((dictGet step "config").filter Json.truthy = none ∨
        ∃ config, (dictGet step "config").filter Json.truthy = some (.obj config)) := by
  unfold stepProblem at h
  dsimp only at h
  split at h
  next step hstep =>
    refine ⟨step, hstep, ?_⟩
    split at h
    next stepType htype =>
      split at h
      next hfalsy => exact .inl hfalsy
      next config hconfig => exact .inr ⟨config, hconfig⟩
      next => cases h
    next => cases h
  next => cases h

/-- **What the dry run's reader accepts can be gone through.** -/
theorem walkable_of_problemIn {data : List (Text × Json)}
    (h : problemIn repr catastrophicReason (.obj data) = none) : Walkable data := by
  simp only [problemIn] at h
  split at h
  next steps hsteps =>
    have hlist : ∀ v, stated data "steps" = some v → ∃ items, v = .arr items := by
      intro v hv
      rw [(stated_eq_some_iff.mp hv).1, Option.getD_some] at hsteps
      exact ⟨steps, hsteps⟩
    have hlisted : Pipeline.listed data "steps" = steps := by
      unfold Pipeline.listed
      rcases hget : dictGet data "steps" with _ | v
      · rw [hget, Option.getD_none] at hsteps
        exact Json.arr.inj hsteps
      · rw [hget, Option.getD_some] at hsteps
        rw [hsteps]
    split at h
    next => cases h
    next =>
      simp only [Option.orElse_eq_orElse, Option.orElse_eq_or, Option.or_eq_none_iff,
        List.findSome?_eq_none_iff] at h
      obtain ⟨hall, hchains⟩ := h
      refine ⟨entries_eq_listed hlist, fun kind => ?_, fun raw hraw => ?_⟩
      · exact entries_eq_listed (list_of_namesProblem (hchains kind (by cases kind <;> decide)))
      · rw [hlisted] at hraw
        obtain ⟨i, hi⟩ := List.mem_iff_getElem?.mp hraw
        exact object_of_stepProblem (hall (raw, i) (List.mk_mem_zipIdx_iff_getElem?.mpr hi))
  next => cases h

private theorem object_of_savedStepProblem {raw : Json}
    (h : savedStepProblem repr catastrophicReason raw = none) : ∃ step, raw = .obj step ∧
      ((dictGet step "config").filter Json.truthy = none ∨
        ∃ config, (dictGet step "config").filter Json.truthy = some (.obj config)) := by
  unfold savedStepProblem at h
  split at h
  next step =>
    refine ⟨step, rfl, ?_⟩
    split at h
    next stepType htype =>
      simp only [Option.orElse_eq_orElse, Option.orElse_eq_or, Option.or_eq_none_iff] at h
      obtain ⟨-, hconfig⟩ := h
      split at hconfig
      next config hget =>
        rcases hv : dictGet step "config" with _ | v
        · exact .inl rfl
        · rw [hv, Option.getD_some] at hget
          rw [hget]
          rcases htruthy : (Json.obj config).truthy with _ | _
          · exact .inl (Option.filter_some_neg (by simp [htruthy]))
          · exact .inr ⟨config, Option.filter_some_pos htruthy⟩
      next => cases hconfig
    next => cases h
  next => cases h

/-- **What Management accepts can be gone through.** -/
theorem walkable_of_managementProblem {data : List (Text × Json)}
    (h : managementProblem repr catastrophicReason (.obj data) = none) : Walkable data := by
  simp only [managementProblem, Option.orElse_eq_orElse, Option.orElse_eq_or,
    Option.or_eq_none_iff, List.findSome?_eq_none_iff] at h
  obtain ⟨hsteps, hchains⟩ := h
  have hlist : ∀ v, stated data "steps" = some v → ∃ items, v = .arr items := by
    intro v hv
    rw [(stated_eq_some_iff.mp hv).1, Option.bind_some] at hsteps
    obtain ⟨items, rfl, -⟩ := stepsProblem_eq_none hsteps
    exact ⟨items, rfl⟩
  refine ⟨entries_eq_listed hlist, fun kind => entries_eq_listed fun v hv => ?_,
    fun raw hraw => ?_⟩
  · have hchain := hchains kind (by cases kind <;> decide)
    rw [(stated_eq_some_iff.mp hv).1, Option.bind_some] at hchain
    obtain ⟨items, rfl, -⟩ := chainProblem_eq_none hchain
    exact ⟨items, rfl⟩
  · unfold Pipeline.listed at hraw
    split at hraw
    next steps hget =>
      rw [hget, Option.bind_some] at hsteps
      rw [stepsProblem] at hsteps
      split at hsteps
      next => cases hsteps
      next =>
        exact object_of_savedStepProblem (List.findSome?_eq_none_iff.mp hsteps raw hraw)
    next => simp at hraw

end Accepted

/-! ### What the walks find -/

section Found

variable (repr : Json → Text)

/-- Of texts and nulls the names are the texts that are not empty. -/
theorem namesIn_of_text {names : List Json} (h : ∀ v ∈ names, v = .null ∨ v.isText = true) :
    namesIn repr names = (strings names).filter (· ≠ []) := by
  induction names with
  | nil => rfl
  | cons v names ih =>
    have hrest := ih fun w hw => h w (List.mem_cons_of_mem _ hw)
    have hcons : namesIn repr (v :: names) =
        (if v.truthy then [asText repr v] else []) ++ namesIn repr names := by
      rw [namesIn, List.filter_cons]
      split_ifs <;> rfl
    rw [hcons, hrest]
    rcases h v List.mem_cons_self with rfl | htext
    · rfl
    · obtain ⟨text, rfl⟩ : ∃ text, v = .str text := by
        rcases v with _ | _ | _ | _ | text | _ | _
        case str => exact ⟨text, rfl⟩
        all_goals simp [Json.isText, Json.text?] at htext
      by_cases hempty : text = []
      · rw [hempty]
        rfl
      · have htruthy : (Json.str text).truthy = true := by simpa [Json.truthy] using hempty
        have hstrings : strings (.str text :: names) = text :: strings names := rfl
        rw [if_pos htruthy, hstrings, List.filter_cons_of_pos (by simpa using hempty)]
        rfl

/-- The name under a key that states text is that text, unless it is empty. -/
theorem mem_modelUnder {config : List (Text × Json)} {key name : Text}
    (h : ∀ v, stated config key = some v → v.isText = true) :
    name ∈ modelUnder repr config key ↔ name ≠ [] ∧ name = configText config key := by
  have htexts : ∀ v ∈ (dictGet config key).toList, v = .null ∨ v.isText = true := by
    intro v hv
    by_cases hnull : v = .null
    · exact .inl hnull
    · exact .inr (h v (stated_eq_some_iff.mpr ⟨Option.mem_toList.mp hv, hnull⟩))
  rw [modelUnder, namesIn_of_text repr htexts, List.mem_filter, configText]
  rcases dictGet config key with _ | v
  · simp [strings]
  · rcases htext : v.text? with _ | text
    · simp [strings, htext]
    · simp only [strings, Option.toList_some, List.filterMap_cons, List.filterMap_nil, htext,
        List.mem_singleton, Option.bind_some, Option.getD_some, decide_eq_true_eq]
      exact And.comm

theorem modelUnder_eq_nil {config : List (Text × Json)} {key : Text}
    (h : ∀ v, stated config key = some v → v.isText = true) :
    modelUnder repr config key = [] ↔ configText config key = [] := by
  rw [List.eq_nil_iff_forall_not_mem]
  constructor
  · intro hnone
    by_contra hne
    exact hnone _ ((mem_modelUnder repr h).mpr ⟨hne, rfl⟩)
  · intro hempty name hname
    obtain ⟨hne, rfl⟩ := (mem_modelUnder repr h).mp hname
    exact hne hempty

/-- A text within a bound is text. -/
private theorem isText_of_within {bound : ℕ} {v : Json} (h : v.isTextWithin bound = true) :
    v.isText = true := by
  obtain ⟨text, rfl, -⟩ := isTextWithin_iff.mp h
  rfl

variable {stepType : StepType} {config : List (Text × Json)}

/-- The name fields that a step reads state text. -/
theorem ConfigAccepted.isText (h : ConfigAccepted stepType config) {key : Text}
    (hname : key ∈ nameFields) (hread : key ∈ stepConfigKeys stepType) :
    ∀ v, stated config key = some v → v.isText = true := by
  intro v hv
  have hwithin := h.text key (List.mem_append_left _ hname) hread
  exact isText_of_within ((Option.all_eq_true ..).mp hwithin v hv)

/-- A step's chain is a list of texts, or not stated. -/
theorem ConfigAccepted.entries_chain (h : ConfigAccepted stepType config) :
    entries (dictGet config "fallback_models") =
      some (Pipeline.listed config "fallback_models") := by
  refine entries_eq_listed fun v hv => ?_
  obtain ⟨names, rfl, -⟩ := h.names v hv
  exact ⟨names, rfl⟩

theorem ConfigAccepted.namesIn_chain (h : ConfigAccepted stepType config) :
    namesIn repr (Pipeline.listed config "fallback_models") =
      (strings (Pipeline.listed config "fallback_models")).filter (· ≠ []) := by
  refine namesIn_of_text repr fun v hv => .inr ?_
  unfold Pipeline.listed at hv
  split at hv
  next names hget =>
    obtain ⟨names', heq, -, hwithin⟩ := h.names _ (stated_eq_some_iff.mpr ⟨hget, by simp⟩)
    obtain rfl := Json.arr.inj heq
    exact isText_of_within (hwithin v hv)
  next => simp at hv

theorem model_mem_stepConfigKeys (stepType : StepType) :
    ("model" : Text) ∈ stepConfigKeys stepType := by
  cases stepType <;> decide

theorem stepAsks_iff {raw : Json} (htype : raw.get "type" = some (.str stepType.value)) :
    StepAsks raw ↔ (dictGet asksAModel stepType.value).any
      (· (Pipeline.writtenConfig raw)) = true := by
  rw [StepAsks, htype, Option.any_eq_true]
  constructor
  · rintro ⟨word, asks, hword, hasks, htrue⟩
    obtain rfl := Json.str.inj (Option.some.inj hword)
    exact ⟨asks, hasks, htrue⟩
  · rintro ⟨asks, hasks, htrue⟩
    exact ⟨stepType.value, asks, rfl, hasks, htrue⟩

/-- **What a dry run's walk finds in a step**: its model and its chain, if it asks one and has a
model of its own. -/
theorem stepClassifiers_spec {step : List (Text × Json)}
    (hconfig : (dictGet step "config").filter Json.truthy = none ∨
      ∃ config, (dictGet step "config").filter Json.truthy = some (.obj config))
    (htype : (Json.obj step).get "type" = some (.str stepType.value))
    (h : ConfigAccepted stepType (Pipeline.writtenConfig (.obj step))) :
    ∃ found, stepClassifiers repr (.obj step) = some found ∧ ∀ name, name ∈ found ↔
      StepAsks (.obj step) ∧ writtenModel (.obj step) ≠ [] ∧
        (name = writtenModel (.obj step) ∨ name ∈ writtenChain (.obj step)) := by
  have hwritten := configOf_eq_writtenConfig hconfig
  rw [stepAsks_iff htype, writtenModel, writtenChain]
  rcases hconfig with hfalsy | ⟨config, hconfig⟩
  · rw [configOf, hfalsy] at hwritten
    have hnone : stepClassifiers repr (.obj step) = some [] := by
      rw [stepClassifiers, hfalsy]
    refine ⟨[], hnone, fun name => ?_⟩
    rw [← Option.some.inj hwritten]
    simp [configText, dictGet]
  · have hwritten : Pipeline.writtenConfig (.obj step) = config := by
      rw [configOf, hconfig] at hwritten
      exact (Option.some.inj hwritten).symm
    rw [hwritten] at h ⊢
    have hmodel := h.isText (by decide) (model_mem_stepConfigKeys stepType)
    have hword : asText repr ((dictGet step "type").getD .null) = stepType.value := by
      rw [Json.get] at htype
      rw [htype, Option.getD_some, asText]
    obtain ⟨asks, hasks⟩ : ∃ asks, dictGet asksAModel stepType.value = some asks := by
      cases stepType <;> exact ⟨_, rfl⟩
    rw [stepClassifiers, hconfig]
    dsimp only
    rw [hword, hasks, h.entries_chain, Option.map_some, h.namesIn_chain, Option.any_some]
    dsimp only
    by_cases hempty : configText config "model" = []
    · rw [if_pos ((modelUnder_eq_nil repr hmodel).mpr hempty)]
      refine ⟨[], rfl, fun name => iff_of_false List.not_mem_nil ?_⟩
      rintro ⟨-, hmodel, -⟩
      exact hmodel hempty
    · rw [if_neg (mt (modelUnder_eq_nil repr hmodel).mp hempty)]
      rcases asks config with _ | _
      · exact ⟨[], rfl, by simp⟩
      · refine ⟨_, rfl, fun name => ?_⟩
        rw [List.mem_append, mem_modelUnder repr hmodel]
        constructor
        · rintro (⟨-, rfl⟩ | hchain)
          · exact ⟨rfl, hempty, .inl rfl⟩
          · exact ⟨rfl, hempty, .inr hchain⟩
        · rintro ⟨-, -, rfl | hchain⟩
          · exact .inl ⟨hempty, rfl⟩
          · exact .inr hchain

/-- A walk that succeeds has found something at every entry. -/
private theorem mapM_eq_some_iff {α β : Type} {f : α → Option β} {as : List α} {bs : List β} :
    as.mapM f = some bs ↔ List.Forall₂ (fun a b => f a = some b) as bs := by
  induction as generalizing bs with
  | nil =>
    rw [List.mapM_nil, List.forall₂_nil_left_iff]
    exact ⟨fun h => (Option.some.inj h).symm, fun h => by rw [h]; rfl⟩
  | cons a as ih =>
    rw [List.mapM_cons, List.forall₂_cons_left_iff]
    simp only [Option.bind_eq_bind, Option.bind_eq_some_iff, Option.pure_def, Option.some.injEq, ih]
    constructor
    · rintro ⟨b, hb, bs', hrest, rfl⟩
      exact ⟨b, bs', hb, hrest, rfl⟩
    · rintro ⟨b, bs', hb, hrest, rfl⟩
      exact ⟨b, hb, bs', hrest, rfl⟩

/-- Where every entry finds something, the walk finds what its entries find. -/
private theorem exists_mapM {α : Type} {f : α → Option (List Text)} (as : List α)
    (h : ∀ a ∈ as, ∃ b, f a = some b) : ∃ bs, as.mapM f = some bs ∧
      ∀ name, name ∈ bs.flatten ↔ ∃ a ∈ as, ∃ b, f a = some b ∧ name ∈ b := by
  induction as with
  | nil => exact ⟨[], rfl, by simp⟩
  | cons a as ih =>
    obtain ⟨b, hb⟩ := h a List.mem_cons_self
    obtain ⟨bs, hbs, hmem⟩ := ih fun a' ha => h a' (List.mem_cons_of_mem _ ha)
    refine ⟨b :: bs, mapM_eq_some_iff.mpr (.cons hb (mapM_eq_some_iff.mp hbs)), fun name => ?_⟩
    rw [List.flatten_cons, List.mem_append, hmem]
    simp [hb]

variable {data : List (Text × Json)}

/-- **Both walks are the same walk.** -/
theorem managementModelsNamedIn_eq (data : List (Text × Json)) :
    managementModelsNamedIn repr data = modelsNamedIn repr data := by
  have hstep : managementStepModels repr = stepModels repr := by
    funext step
    simp only [managementStepModels, stepModels, nameFields, List.flatMap_cons, List.flatMap_nil,
      List.append_nil]
  rw [managementModelsNamedIn, modelsNamedIn, hstep]

/-- **What a dry run's walk finds**: the models and the chains of the steps that ask one and have a
model of their own. -/
theorem classifiersNamedIn_spec (hwalk : Walkable data) (h : DocumentAccepted data) :
    ∃ found, classifiersNamedIn repr data = some found ∧ ∀ name, name ∈ found ↔
      ∃ raw ∈ Pipeline.listed data "steps", StepAsks raw ∧ writtenModel raw ≠ [] ∧
        (name = writtenModel raw ∨ name ∈ writtenChain raw) := by
  have hstep : ∀ raw ∈ Pipeline.listed data "steps", ∃ found,
      stepClassifiers repr raw = some found ∧ ∀ name, name ∈ found ↔
        StepAsks raw ∧ writtenModel raw ≠ [] ∧
          (name = writtenModel raw ∨ name ∈ writtenChain raw) := by
    intro raw hraw
    obtain ⟨step, rfl, hconfig⟩ := hwalk.step raw hraw
    obtain ⟨stepType, htype, haccepted⟩ := h.step _ hraw
    exact stepClassifiers_spec repr hconfig htype haccepted
  obtain ⟨named, hnamed, hmem⟩ := exists_mapM _ (f := stepClassifiers repr) fun raw hraw => by
    obtain ⟨found, hfound, -⟩ := hstep raw hraw
    exact ⟨found, hfound⟩
  refine ⟨named.flatten.eraseDups, ?_, fun name => ?_⟩
  · rw [classifiersNamedIn, hwalk.steps]
    simp only [Option.bind_eq_bind, Option.bind_some, hnamed]
  · rw [List.mem_eraseDups, hmem]
    constructor
    · rintro ⟨raw, hraw, found, hfound, hname⟩
      obtain ⟨found', hfound', hspec⟩ := hstep raw hraw
      obtain rfl := Option.some.inj (hfound.symm.trans hfound')
      exact ⟨raw, hraw, (hspec name).mp hname⟩
    · rintro ⟨raw, hraw, hname⟩
      obtain ⟨found, hfound, hspec⟩ := hstep raw hraw
      exact ⟨raw, hraw, found, hfound, (hspec name).mpr hname⟩

/-- The chains are gone through. -/
theorem chainNames_spec (hwalk : Walkable data) (h : DocumentAccepted data) :
    ∃ chains, chainNames repr data = some chains ∧
      ∀ kind, ∀ name ∈ boundedNames (Pipeline.listed data (FallbackKind.chainField kind)),
        name ∈ chains := by
  obtain ⟨chains, hchains, hmem⟩ := exists_mapM FallbackKind.all
    (f := fun kind => (entries (dictGet data kind.chainField)).map (namesIn repr))
    fun kind _ => by
      rw [hwalk.chain kind, Option.map_some]
      exact ⟨_, rfl⟩
  refine ⟨chains.flatten, by rw [chainNames, hchains, Option.map_some], fun kind name hname => ?_⟩
  obtain ⟨hlength, hwithin⟩ := h.chain kind
  have hread := boundedNames_of_within hlength hwithin
  have hwritten : Json.str name ∈ (Pipeline.listed data kind.chainField).filter (· ≠ .str []) := by
    rw [← hread]
    exact List.mem_map_of_mem hname
  obtain ⟨hlisted, hne⟩ := List.mem_filter.mp hwritten
  refine (hmem name).mpr ⟨kind, by cases kind <;> decide, _, by rw [hwalk.chain kind]; rfl, ?_⟩
  have htexts : ∀ v ∈ Pipeline.listed data kind.chainField, v = .null ∨ v.isText = true :=
    fun v hv => .inr (isText_of_within (hwithin v hv))
  rw [namesIn_of_text repr htexts]
  refine List.mem_filter.mpr ⟨List.mem_filterMap.mpr ⟨_, hlisted, rfl⟩, ?_⟩
  simpa using hne

/-- What both walks go through in a step that has its categories listed. -/
theorem stepModels_eq {raw : Json} {categories : List Json} (hwalk : Walkable data)
    (h : DocumentAccepted data) (hraw : raw ∈ Pipeline.listed data "steps")
    (hlisted : entries (dictGet (Pipeline.writtenConfig raw) "categories") = some categories) :
    stepModels repr raw = some
      (modelUnder repr (Pipeline.writtenConfig raw) "model" ++
        modelUnder repr (Pipeline.writtenConfig raw) "default_model" ++ writtenChain raw ++
        categoryModels repr categories) := by
  obtain ⟨step, rfl, hconfig⟩ := hwalk.step raw hraw
  obtain ⟨stepType, htype, haccepted⟩ := h.step _ hraw
  rw [stepModels, configOf_eq_writtenConfig hconfig]
  simp only [Option.bind_eq_bind, Option.bind_some, haccepted.entries_chain, hlisted,
    haccepted.namesIn_chain]
  rw [writtenChain]

/-- A walk that does not raise has gone through every step's categories. -/
theorem listed_of_modelsNamedIn (hwalk : Walkable data) {named : List Text}
    (hnamed : modelsNamedIn repr data = some named) :
    ∀ raw ∈ Pipeline.listed data "steps",
      (entries (dictGet (Pipeline.writtenConfig raw) "categories")).isSome = true := by
  intro raw hraw
  obtain ⟨step, rfl, hconfig⟩ := hwalk.step raw hraw
  rw [modelsNamedIn, hwalk.steps] at hnamed
  simp only [Option.bind_eq_bind, Option.bind_some, Option.bind_eq_some_iff] at hnamed
  obtain ⟨found, hfound, -⟩ := hnamed
  obtain ⟨i, hi, hget⟩ := List.mem_iff_getElem.mp hraw
  have hpairs := mapM_eq_some_iff.mp hfound
  have hstep := hpairs.get hi (by rw [← hpairs.length_eq]; exact hi)
  simp only [List.get_eq_getElem, hget] at hstep
  rw [stepModels, configOf_eq_writtenConfig hconfig] at hstep
  simp only [Option.bind_eq_bind, Option.bind_some, Option.bind_eq_some_iff] at hstep
  obtain ⟨-, -, categories, hcategories, -⟩ := hstep
  rw [hcategories, Option.isSome_some]

/-- **The walks find everything** of a document whose categories they can go through. -/
theorem modelsNamedIn_spec (hwalk : Walkable data) (h : DocumentAccepted data)
    (hlisted : ∀ raw ∈ Pipeline.listed data "steps",
      (entries (dictGet (Pipeline.writtenConfig raw) "categories")).isSome = true) :
    ∃ named, modelsNamedIn repr data = some named ∧
      (∀ raw ∈ Pipeline.listed data "steps", ∀ found, stepModels repr raw = some found →
        ∀ name ∈ found, name ∈ named) ∧
      ∀ kind, ∀ name ∈ boundedNames (Pipeline.listed data (FallbackKind.chainField kind)),
        name ∈ named := by
  obtain ⟨named, hnamed, hmem⟩ := exists_mapM _ (f := stepModels repr) fun raw hraw => by
    obtain ⟨categories, hcategories⟩ := Option.isSome_iff_exists.mp (hlisted raw hraw)
    exact ⟨_, stepModels_eq repr hwalk h hraw hcategories⟩
  obtain ⟨chains, hchains, hchain⟩ := chainNames_spec repr hwalk h
  refine ⟨(named.flatten ++ chains).eraseDups, ?_, fun raw hraw found hfound name hname => ?_,
    fun kind name hname => ?_⟩
  · rw [modelsNamedIn, hwalk.steps]
    simp only [Option.bind_eq_bind, Option.bind_some, hnamed, hchains]
  · rw [List.mem_eraseDups]
    exact List.mem_append_left _ ((hmem name).mpr ⟨raw, hraw, found, hfound, hname⟩)
  · rw [List.mem_eraseDups]
    exact List.mem_append_right _ (hchain kind name hname)

end Found

/-! ### A step as it is read -/

section Read

/-- The empty names can be left out before or after. -/
private theorem strings_filter (names : List Json) :
    strings (names.filter (· ≠ .str [])) = (strings names).filter (· ≠ []) := by
  induction names with
  | nil => rfl
  | cons v names ih =>
    rcases v with _ | _ | _ | _ | text | _ | _
    case str =>
      have hcons : strings (.str text :: names) = text :: strings names := rfl
      by_cases hempty : text = []
      · rw [List.filter_cons_of_neg (by simp [hempty]), hcons,
          List.filter_cons_of_neg (by simp [hempty]), ih]
      · rw [List.filter_cons_of_pos (by simp [hempty]), hcons,
          List.filter_cons_of_pos (by simp [hempty]), ← ih]
        rfl
    all_goals
      rw [List.filter_cons_of_pos (by simp)]
      exact ih

/-- A chain without its empty names, of what its field says. -/
private theorem chain_of_reading (config : List (Text × Json)) :
    (strings (Pipeline.listed config "fallback_models")).filter (· ≠ []) =
      strings (match reading config "fallback_models" with
        | some (.arr names) => names
        | _ => []) := by
  rw [Pipeline.listed, reading]
  rcases hv : dictGet config "fallback_models" with _ | v
  · rw [stated, hv]
    rfl
  · by_cases hnull : v = .null
    · rw [stated, hv, hnull]
      rfl
    · rw [stated_eq_some_iff.mpr ⟨hv, hnull⟩, Option.map_some, if_pos rfl]
      rcases v with _ | _ | _ | _ | _ | names | _
      case arr => exact (strings_filter names).symm
      all_goals rfl

variable {stepType : StepType} {config : List (Text × Json)}

theorem configText_readConfig (h : ConfigAccepted stepType config) {key : Text}
    (hname : key ∈ nameFields) (hread : key ∈ stepConfigKeys stepType) :
    configText (readConfig stepType config) key = configText config key := by
  rw [configText, dictGet_readConfig_text h (List.mem_append_left _ hname) hread, configText]

/-- The chain that is read is the one that is written. -/
theorem chain_readConfig (h : ConfigAccepted stepType config) :
    (strings (Pipeline.listed (readConfig stepType config) "fallback_models")).filter (· ≠ []) =
      (strings (Pipeline.listed config "fallback_models")).filter (· ≠ []) := by
  rw [chain_of_reading, reading_names h, ← chain_of_reading]

/-- Only the word `llm` itself is read as one. -/
theorem says_llm_readConfig (config : List (Text × Json)) :
    configSays (readConfig .injectionFilter config) "mode" "llm" = true ↔
      dictGet config "mode" = some (.str "llm") := by
  have hmode : dictGet (vocabularies .injectionFilter) "mode" =
      some ⟨injectionModes, "heuristic"⟩ := rfl
  rw [configSays, decide_eq_true_eq, dictGet_readConfig_word hmode, Option.map_eq_some_iff]
  constructor
  · rintro ⟨v, hv, hread⟩
    rw [Vocabulary.read] at hread
    split at hread
    next => rw [hv, hread]
    next => cases hread
  · intro hword
    exact ⟨_, hword, by decide⟩

/-- The categories that are read are the ones that are written, each with its model. -/
theorem category_readConfig (h : ConfigAccepted .modelRoute config) {category : List (Text × Json)}
    (hcategory : category ∈ configCategories (readConfig .modelRoute config)) :
    ∃ members, .obj members ∈ Pipeline.listed config "categories" ∧
      (∀ v, stated members "model" = some v → v.isText = true) ∧
      configText category "model" = configText members "model" := by
  rcases hv : dictGet config "categories" with _ | v
  · rw [configCategories, Pipeline.listed, dictGet_readConfig, hv] at hcategory
    simp at hcategory
  · obtain ⟨categories, rfl, hlength, hall⟩ := h.categories rfl v hv
    rw [configCategories, Pipeline.listed, dictGet_readConfig_categories hv hlength] at hcategory
    obtain ⟨bounded, hbounded, hobject⟩ := List.mem_filterMap.mp hcategory
    obtain ⟨written, hwritten, hread⟩ := List.mem_filterMap.mp hbounded
    obtain ⟨members, rfl, hmembers⟩ := hall written hwritten
    obtain rfl := Option.some.inj hread
    obtain rfl := Option.some.inj hobject
    refine ⟨members, ?_, fun v hv => ?_, ?_⟩
    · rw [Pipeline.listed, hv]
      exact hwritten
    · obtain ⟨text, rfl, -⟩ := isTextWithin_iff.mp
        ((Option.all_eq_true ..).mp (hmembers "model" (by decide)) v hv)
      rfl
    · rw [configText, dictGet_boundedCategory hmembers (by decide), configText]

/-- A router has categories to choose between where it writes some. -/
theorem categories_readConfig_iff (h : ConfigAccepted .modelRoute config) :
    configCategories (readConfig .modelRoute config) ≠ [] ↔
      (dictGet config "categories").any Json.truthy = true := by
  rcases hv : dictGet config "categories" with _ | v
  · have hnone : configCategories (readConfig .modelRoute config) = [] := by
      rw [configCategories, Pipeline.listed, dictGet_readConfig, hv]
      rfl
    exact iff_of_false (not_not.mpr hnone) (by simp)
  · obtain ⟨categories, rfl, hlength, hall⟩ := h.categories rfl v hv
    have hread : configCategories (readConfig .modelRoute config) =
        (categories.filterMap boundedCategory?).filterMap Json.object? := by
      rw [configCategories, Pipeline.listed, dictGet_readConfig_categories hv hlength]
    rw [hread, Option.any_some, Json.truthy, decide_eq_true_eq]
    rcases categories with _ | ⟨first, rest⟩
    · simp
    · obtain ⟨members, rfl, -⟩ := hall first List.mem_cons_self
      exact iff_of_true (by simp [boundedCategory?, Json.object?]) (by simp)

end Read

/-! ### What a step asks, and where it sends -/

/-- A step that asks a model, as it is read. -/
def PipelineStep.Asks (step : PipelineStep) : Prop :=
  match step.type with
  | .injectionFilter => configSays step.config "mode" "llm" = true
  | .modelRoute => configCategories step.config ≠ []
  | .piiFilter => True

/-- Who answers is one of those who can be asked. -/
theorem mem_inTurn {Answer : Type} {reached : Answer → Bool} {ask : Text → Provider → Answer}
    {candidates : List (Text × Provider)} {answer : Text × Answer}
    (h : answer ∈ inTurn reached ask candidates) :
    ∃ candidate ∈ candidates, answer = (candidate.1, ask candidate.1 candidate.2) := by
  induction candidates with
  | nil => simp [inTurn] at h
  | cons candidate rest ih =>
    obtain ⟨model, provider⟩ := candidate
    rw [inTurn, List.mem_cons] at h
    rcases h with rfl | hlater
    · exact ⟨(model, provider), List.mem_cons_self, rfl⟩
    · split at hlater
      next => simp at hlater
      next =>
        obtain ⟨candidate, hcandidate, hanswer⟩ := ih hlater
        exact ⟨candidate, List.mem_cons_of_mem _ hcandidate, hanswer⟩

/-- Where nobody is reached, everybody is asked. -/
theorem inTurn_of_unreached {Answer : Type} {reached : Answer → Bool}
    {ask : Text → Provider → Answer} (candidates : List (Text × Provider))
    (h : ∀ candidate ∈ candidates, reached (ask candidate.1 candidate.2) = false) :
    inTurn reached ask candidates =
      candidates.map fun candidate => (candidate.1, ask candidate.1 candidate.2) := by
  induction candidates with
  | nil => rfl
  | cons candidate rest ih =>
    obtain ⟨model, provider⟩ := candidate
    have hfirst := h _ List.mem_cons_self
    rw [inTurn, hfirst, ih fun c hc => h c (List.mem_cons_of_mem _ hc)]
    rfl

/-- The requests of a step that asks a chain in turn: each is made for the model it goes to, and
one that fails is followed by the next. -/
def AskedInTurn (candidates : List (Text × Provider)) (sent : List CanonicalRequest) : Prop :=
  ∃ (Answer : Type) (reached : Answer → Bool) (ask : Text → Provider → Answer)
    (request : Text × Answer → CanonicalRequest),
    sent = (inTurn reached ask candidates).map request ∧
      (∀ model provider, (request (model, ask model provider)).model = model) ∧
      ∀ model provider, (∀ request, provider request = .error []) →
        reached (ask model provider) = false

section AskedInTurn

variable {candidates : List (Text × Provider)} {sent : List CanonicalRequest}
  (h : AskedInTurn candidates sent)
include h

theorem AskedInTurn.of_mem {request : CanonicalRequest} (hsent : request ∈ sent) :
    ∃ candidate ∈ candidates, request.model = candidate.1 := by
  obtain ⟨Answer, reached, ask, made, rfl, hmodel, -⟩ := h
  obtain ⟨answer, hanswer, rfl⟩ := List.mem_map.mp hsent
  obtain ⟨candidate, hcandidate, rfl⟩ := mem_inTurn hanswer
  exact ⟨candidate, hcandidate, hmodel candidate.1 candidate.2⟩

/-- Where every model fails, every model is asked. -/
theorem AskedInTurn.of_unreached
    (hfail : ∀ candidate ∈ candidates, ∀ request, candidate.2 request = .error []) :
    ∀ candidate ∈ candidates, ∃ request ∈ sent, request.model = candidate.1 := by
  obtain ⟨Answer, reached, ask, made, rfl, hmodel, hreached⟩ := h
  intro candidate hcandidate
  rw [inTurn_of_unreached candidates fun c hc => hreached c.1 c.2 (hfail c hc)]
  refine ⟨_, List.mem_map_of_mem (List.mem_map_of_mem hcandidate), ?_⟩
  exact hmodel candidate.1 candidate.2

end AskedInTurn

namespace StepEvaluator

variable (e : StepEvaluator) (engine : TextEngine)

/-- A step may ask its own model and its own chain. -/
theorem of_mem_candidates {config : List (Text × Json)} {candidate : Text × Provider}
    (h : candidate ∈ (e.candidates config).found) : candidate.1 ≠ [] ∧
      (candidate.1 = configText config "model" ∨
        candidate.1 ∈ (strings (Pipeline.listed config "fallback_models")).filter (· ≠ [])) := by
  have hserved := (List.mem_filter.mp h).1
  obtain ⟨model, hmodel, hprovider⟩ := List.mem_filterMap.mp hserved
  obtain ⟨provider, -, rfl⟩ := Option.map_eq_some_iff.mp hprovider
  rw [List.mem_eraseDups, List.mem_filter, List.mem_cons] at hmodel
  obtain ⟨hnamed, hne⟩ := hmodel
  refine ⟨by simpa using hne, ?_⟩
  rcases hnamed with rfl | hchain
  · exact .inl rfl
  · exact .inr (List.mem_filter.mpr ⟨hchain, hne⟩)

theorem evaluateModelRoute_sent (config : List (Text × Json)) (request : CanonicalRequest) :
    (e.evaluateModelRoute engine config request).sent = (e.route engine config request).2 := by
  rw [evaluateModelRoute]
  dsimp only
  split_ifs <;> rfl

/-- The injection filter asks its models in `llm` mode. -/
theorem classify_sent {config : List (Text × Json)} (request : CanonicalRequest)
    (h : configSays config "mode" "llm" = true) :
    AskedInTurn (e.candidates config).found (e.classify engine config request).2.2 := by
  rw [classify]
  dsimp only
  rw [if_pos h]
  -- the requests are sent whoever answers
  split <;> refine ⟨_, _, _, _, rfl, fun model provider => rfl, fun model provider hfail => ?_⟩ <;>
    simp only [llmClassify, hfail]

/-- The router asks its models where it has categories. -/
theorem route_sent {config : List (Text × Json)} (request : CanonicalRequest)
    (h : configCategories config ≠ []) :
    AskedInTurn (e.candidates config).found (e.route engine config request).2 := by
  rw [route]
  dsimp only
  rw [if_neg h]
  split <;> refine ⟨_, _, _, _, rfl, fun model provider => rfl, fun model provider hfail => ?_⟩ <;>
    simp only [routerClassify, hfail]

/-- The redactor asks its models about a text that is not blank. -/
theorem redactionSent_asked (config : PiiConfig) {request : CanonicalRequest}
    (h : strip request.lastUserText ≠ []) :
    AskedInTurn (e.modelsFor config).found (e.redactionSent config request) := by
  rw [redactionSent]
  dsimp only
  rw [if_neg h]
  refine ⟨_, _, _, _, rfl, fun model provider => rfl, fun model provider hfail => ?_⟩
  simp only [LlmRedactor.rewrite, if_neg h, hfail]

/-- **A step that asks** asks its models in turn; a redactor only about a text that is not blank. -/
theorem evaluate_sent_of_asks {step : PipelineStep} {request : CanonicalRequest}
    (h : step.Asks) (htext : step.type = .piiFilter → strip request.lastUserText ≠ []) :
    AskedInTurn (e.candidates step.config).found (e.evaluate engine step request).sent := by
  obtain ⟨stepType, config⟩ := step
  rcases stepType with _ | _ | _
  case injectionFilter => exact e.classify_sent engine request h
  case modelRoute =>
    have hsent : (e.evaluate engine ⟨.modelRoute, config⟩ request).sent =
        (e.route engine config request).2 := e.evaluateModelRoute_sent engine config request
    rw [hsent]
    exact e.route_sent engine request h
  case piiFilter => exact e.redactionSent_asked _ (htext rfl)

/-- **A step asks only where it is of a kind that does**, and then its models in turn. -/
theorem evaluate_sent_cases (step : PipelineStep) (request : CanonicalRequest) :
    (e.evaluate engine step request).sent = [] ∨
      step.Asks ∧ AskedInTurn (e.candidates step.config).found
        (e.evaluate engine step request).sent := by
  by_cases hasks : step.Asks
  · by_cases htext : step.type = .piiFilter → strip request.lastUserText ≠ []
    · exact .inr ⟨hasks, e.evaluate_sent_of_asks engine hasks htext⟩
    · push Not at htext
      obtain ⟨htype, hblank⟩ := htext
      left
      rw [evaluate, htype]
      exact if_pos hblank
  · left
    obtain ⟨stepType, config⟩ := step
    rcases stepType with _ | _ | _
    case injectionFilter =>
      have hmode : ¬configSays config "mode" "llm" = true := hasks
      have hsent : (e.classify engine config request).2.2 = [] := by
        rw [classify]
        dsimp only
        rw [if_neg hmode]
      exact hsent
    case modelRoute =>
      have hcategories : configCategories config = [] := not_not.mp hasks
      have hsent : (e.evaluate engine ⟨.modelRoute, config⟩ request).sent =
          (e.route engine config request).2 := e.evaluateModelRoute_sent engine config request
      rw [hsent, route]
      dsimp only
      rw [if_pos hcategories]
    case piiFilter => exact absurd trivial hasks

/-- Where the router sends to: a category's model, or the default. -/
theorem route_target (config : List (Text × Json)) (request : CanonicalRequest) :
    (e.route engine config request).1.target = configText config "default_model" ∨
      ∃ category ∈ configCategories config,
        (e.route engine config request).1.target = configText category "model" := by
  rw [route]
  dsimp only
  split
  next => exact .inl rfl
  next =>
    split
    next => exact .inl rfl
    next model routing hanswer =>
      dsimp only
      rcases hchosen : (routing.category.filter (· ≠ [])).bind fun name =>
        (configCategories config).find? (configSays · "name" name) with _ | category
      · exact .inl rfl
      · obtain ⟨name, -, hfound⟩ := Option.bind_eq_some_iff.mp hchosen
        rw [Option.map_some]
        rcases htext : configText category "model" with _ | _
        · exact .inl rfl
        · exact .inr ⟨category, List.mem_of_find?_eq_some hfound, htext.symm⟩

/-- **A step hands on** another text for the same model, or, the router, the same messages for one
of its models. -/
theorem evaluate_request {step : PipelineStep} {request next : CanonicalRequest}
    (h : (e.evaluate engine step request).evaluation.request = some next) :
    step.type = .piiFilter ∧ next.model = request.model ∨
      step.type = .modelRoute ∧ next.messages = request.messages ∧ next.model ≠ [] ∧
        (next.model = configText step.config "default_model" ∨
          ∃ category ∈ configCategories step.config,
            next.model = configText category "model") := by
  obtain ⟨stepType, config⟩ := step
  rcases stepType with _ | _ | _
  case injectionFilter => cases h
  case modelRoute =>
    right
    have h : (e.evaluateModelRoute engine config request).evaluation.request = some next := h
    have htarget := e.route_target engine config request
    rw [evaluateModelRoute] at h
    dsimp only at h
    by_cases hnot : (e.route engine config request).1.call = none ∧
        Pipeline.listed config "categories" ≠ []
    · rw [if_pos hnot] at h
      by_cases hretarget : configText config "default_model" ≠ [] ∧
          configText config "default_model" ≠ request.model
      · simp only [if_pos hretarget, Option.some.injEq] at h
        rw [← h]
        exact ⟨rfl, rfl, hretarget.1, .inl rfl⟩
      · simp only [if_neg hretarget] at h
        cases h
    · rw [if_neg hnot] at h
      by_cases hretarget : (e.route engine config request).1.target ≠ [] ∧
          (e.route engine config request).1.target ≠ request.model
      · simp only [if_pos hretarget, Option.some.injEq] at h
        rw [← h]
        exact ⟨rfl, rfl, hretarget.1, htarget⟩
      · simp only [if_neg hretarget] at h
        cases h
  case piiFilter =>
    left
    have h : (e.evaluatePiiFilter (PiiConfig.ofDict config) request).request = some next := h
    rw [evaluatePiiFilter] at h
    split at h
    next => cases h
    next model result hredaction =>
      split at h
      next => cases h
      next text htext =>
        dsimp only at h
        split at h
        next =>
          obtain rfl := Option.some.inj h
          exact ⟨rfl, rfl⟩
        next => cases h

end StepEvaluator

/-! ### A dry run -/

section DryRun

variable (evaluate : PipelineStep → CanonicalRequest → Evaluated)

/-- What a dry run sends, one of its steps sends. -/
theorem of_mem_dryRunFrom {pastBlocks : Bool} {s : DryRunState} {steps : List PipelineStep}
    {sent : CanonicalRequest} (h : sent ∈ (dryRunFrom evaluate pastBlocks s steps).2) :
    ∃ step ∈ steps, ∃ request, sent ∈ (evaluate step request).sent := by
  induction steps generalizing s with
  | nil => simp [dryRunFrom] at h
  | cons step rest ih =>
    have hfirst : sent ∈ (evaluate step s.current).sent ∨
        sent ∈ (dryRunFrom evaluate pastBlocks
          (s.record (evaluate step s.current).evaluation) rest).2 := by
      rw [dryRunFrom] at h
      dsimp only at h
      split at h
      next => exact .inl h
      next => exact List.mem_append.mp h
    rcases hfirst with hsent | hlater
    · exact ⟨step, List.mem_cons_self, s.current, hsent⟩
    · obtain ⟨step', hstep, hsent⟩ := ih hlater
      exact ⟨step', List.mem_cons_of_mem _ hstep, hsent⟩

/-- **A dry run past its blocks** evaluates every step, and where no step rewrites, on what the
caller said. -/
theorem mem_dryRunFrom {messages : List CanonicalMessage}
    (hkeeps : ∀ step request next, request.messages = messages →
      (evaluate step request).evaluation.request = some next → next.messages = messages)
    {s : DryRunState} (hcurrent : s.current.messages = messages) {steps : List PipelineStep}
    {step : PipelineStep} (hstep : step ∈ steps) :
    ∃ request, request.messages = messages ∧ ∀ sent ∈ (evaluate step request).sent,
      sent ∈ (dryRunFrom evaluate true s steps).2 := by
  induction steps generalizing s with
  | nil => simp at hstep
  | cons first rest ih =>
    have hpast : (dryRunFrom evaluate true s (first :: rest)).2 =
        (evaluate first s.current).sent ++ (dryRunFrom evaluate true
          (s.record (evaluate first s.current).evaluation) rest).2 := by
      rw [dryRunFrom]
      simp
    have hnext : (s.record (evaluate first s.current).evaluation).current.messages = messages := by
      rw [DryRunState.record]
      rcases hnext : (evaluate first s.current).evaluation.request with _ | next
      · exact hcurrent
      · exact hkeeps first s.current next hcurrent hnext
    rw [hpast]
    rcases List.mem_cons.mp hstep with rfl | hlater
    · exact ⟨s.current, hcurrent, fun sent hsent => List.mem_append_left _ hsent⟩
    · obtain ⟨request, hmessages, hsent⟩ := ih hnext hlater
      exact ⟨request, hmessages, fun sent h => List.mem_append_right _ (hsent sent h)⟩

end DryRun

/-! ### What is written of a step that is read -/

section Written

variable {data : List (Text × Json)}

/-- A step is read from an entry that was accepted. -/
theorem exists_written (h : DocumentAccepted data) {step : PipelineStep}
    (hstep : step ∈ (Pipeline.fromDict (.obj data)).steps) :
    ∃ raw ∈ Pipeline.listed data "steps", raw.get "type" = some (.str step.type.value) ∧
      step.config = readConfig step.type (Pipeline.writtenConfig raw) ∧
      ConfigAccepted step.type (Pipeline.writtenConfig raw) := by
  obtain ⟨raw, hraw, hread⟩ := List.mem_filterMap.mp hstep
  have hraw := List.mem_of_mem_take hraw
  obtain ⟨htype, hconfig⟩ := Pipeline.step?_eq_some_iff.mp hread
  obtain ⟨stepType, htype', haccepted⟩ := h.step raw hraw
  have hvalue : step.type.value = stepType.value :=
    Json.str.inj (Option.some.inj (htype.symm.trans htype'))
  obtain rfl : step.type = stepType := by
    have hword := StepType.ofText?_eq_some_iff.mpr hvalue
    rw [StepType.ofText?_eq_some_iff.mpr rfl] at hword
    exact Option.some.inj hword
  exact ⟨raw, hraw, htype, hconfig, haccepted⟩

/-- An entry that was accepted is read as a step. -/
theorem exists_step (h : DocumentAccepted data) {raw : Json}
    (hraw : raw ∈ Pipeline.listed data "steps") :
    ∃ step ∈ (Pipeline.fromDict (.obj data)).steps,
      raw.get "type" = some (.str step.type.value) ∧
      step.config = readConfig step.type (Pipeline.writtenConfig raw) ∧
      ConfigAccepted step.type (Pipeline.writtenConfig raw) := by
  obtain ⟨stepType, htype, haccepted⟩ := h.step raw hraw
  refine ⟨⟨stepType, readConfig stepType (Pipeline.writtenConfig raw)⟩, ?_, htype, rfl, haccepted⟩
  rw [Pipeline.fromDict, List.take_of_length_le h.length_le]
  exact List.mem_filterMap.mpr ⟨raw, hraw, Pipeline.step?_eq_some_iff.mpr ⟨htype, rfl⟩⟩

variable {raw : Json} {step : PipelineStep}
  (htype : raw.get "type" = some (.str step.type.value))
  (hconfig : step.config = readConfig step.type (Pipeline.writtenConfig raw))
  (haccepted : ConfigAccepted step.type (Pipeline.writtenConfig raw))
include hconfig haccepted

include htype in
/-- **A step that is read asks where the one that is written does.** -/
theorem asks_iff_stepAsks : step.Asks ↔ StepAsks raw := by
  obtain ⟨stepType, config⟩ := step
  rw [stepAsks_iff htype]
  dsimp only at hconfig haccepted
  rw [hconfig]
  rcases stepType with _ | _ | _
  case injectionFilter =>
    have hmode : configSays (readConfig .injectionFilter (Pipeline.writtenConfig raw)) "mode"
        "llm" = true ↔ dictGet (Pipeline.writtenConfig raw) "mode" = some (.str "llm") :=
      says_llm_readConfig _
    have hasks : (dictGet asksAModel StepType.injectionFilter.value).any
        (· (Pipeline.writtenConfig raw)) = true ↔
          dictGet (Pipeline.writtenConfig raw) "mode" = some (.str "llm") :=
      decide_eq_true_iff
    exact hmode.trans hasks.symm
  case modelRoute =>
    have hasks : (dictGet asksAModel StepType.modelRoute.value).any
        (· (Pipeline.writtenConfig raw)) =
          (dictGet (Pipeline.writtenConfig raw) "categories").any Json.truthy := rfl
    rw [hasks]
    exact categories_readConfig_iff haccepted
  case piiFilter => exact iff_of_true trivial rfl

/-- **A step may ask what is written** as its model or in its chain. -/
theorem written_of_mem_candidates (e : StepEvaluator) {candidate : Text × Provider}
    (h : candidate ∈ (e.candidates step.config).found) : candidate.1 ≠ [] ∧
      (candidate.1 = writtenModel raw ∨ candidate.1 ∈ writtenChain raw) := by
  obtain ⟨hne, hname⟩ := e.of_mem_candidates h
  rw [hconfig, chain_readConfig haccepted,
    configText_readConfig haccepted (by decide) (model_mem_stepConfigKeys _)] at hname
  exact ⟨hne, hname⟩

end Written

/-- An evaluator that finds an adapter for every model and reaches none. -/
def unreachable : StepEvaluator where
  providerFor := fun _ => some fun _ => .error []
  boundary := fun _ => ⟨[], []⟩

theorem unreachable_candidates {config : List (Text × Json)} {name : Text}
    (h : name ∈ (strings (Pipeline.listed config "fallback_models")).filter (· ≠ [])) :
    ∃ candidate ∈ (unreachable.candidates config).found, candidate.1 = name := by
  obtain ⟨hname, hne⟩ := List.mem_filter.mp h
  refine ⟨(name, fun _ => .error []), List.mem_filter.mpr ⟨?_, rfl⟩, rfl⟩
  refine List.mem_filterMap.mpr ⟨name, ?_, rfl⟩
  rw [List.mem_eraseDups]
  exact List.mem_filter.mpr ⟨List.mem_cons_of_mem _ hname, hne⟩

theorem unreachable_fails {config : List (Text × Json)} :
    ∀ candidate ∈ (unreachable.candidates config).found,
      ∀ request, candidate.2 request = .error [] := by
  intro candidate hcandidate request
  obtain ⟨name, -, hprovider⟩ := List.mem_filterMap.mp (List.mem_filter.mp hcandidate).1
  rw [← Option.some.inj hprovider]

/-- Where no answer has a text, the last one has none. -/
theorem asked_text_eq_none {ask : Text → Provider → Redaction}
    {candidates : List (Text × Provider)} {answer : Text × Redaction}
    (h : ∀ candidate ∈ candidates, (ask candidate.1 candidate.2).text = none)
    (hasked : StepEvaluator.asked ask candidates = some answer) : answer.2.text = none := by
  induction candidates with
  | nil => cases hasked
  | cons candidate rest ih =>
    have hfirst := h _ List.mem_cons_self
    have hrest := ih fun c hc => h c (List.mem_cons_of_mem _ hc)
    rw [StepEvaluator.asked] at hasked
    split at hasked
    next =>
      rw [← Option.some.inj hasked]
      exact hfirst
    next =>
      rcases Option.or_eq_some_iff.mp hasked with hlater | ⟨-, hlast⟩
      · exact hrest hlater
      · rw [← Option.some.inj hlast]
        exact hfirst

/-- A step that reaches nobody rewrites nothing. -/
theorem unreachable_keeps (engine : TextEngine) (step : PipelineStep)
    (request next : CanonicalRequest) (hblank : strip request.lastUserText ≠ [])
    (h : (unreachable.evaluate engine step request).evaluation.request = some next) :
    next.messages = request.messages := by
  rcases unreachable.evaluate_request engine h with ⟨htype, -⟩ | ⟨-, hmessages, -⟩
  · obtain ⟨stepType, config⟩ := step
    obtain rfl : stepType = .piiFilter := htype
    have h : (unreachable.evaluatePiiFilter (PiiConfig.ofDict config) request).request =
        some next := h
    rw [StepEvaluator.evaluatePiiFilter] at h
    split at h
    next => cases h
    next model result hasked =>
      have hnone : result.text = none :=
        asked_text_eq_none (fun candidate hcandidate => by
          rw [LlmRedactor.rewrite, if_neg hblank]
          simp only [unreachable_fails candidate hcandidate]) hasked
      rw [hnone] at h
      cases h
  · exact hmessages

/-! ### A whole document -/

section Document

variable (repr : Json → Text) {data : List (Text × Json)} (hwalk : Walkable data)
  (h : DocumentAccepted data)
include hwalk h

/-- **What a document's steps reach is named**, where the walks go through it and every chain that
is asked is named beside a model. -/
theorem checked_of_chainsNamed (hchains : ChainsNamed (.obj data)) :
    ModelsChecked repr (.obj data) := by
  obtain ⟨named, hnamed, hsteps, hkinds⟩ := modelsNamedIn_spec repr hwalk h hchains.listed
  obtain ⟨classifiers, hclassifiers, hmem⟩ := classifiersNamedIn_spec repr hwalk h
  -- each of a step's own fields is in what the walk finds in it
  have hfield : ∀ raw ∈ Pipeline.listed data "steps", ∀ name,
      (∃ categories, entries (dictGet (Pipeline.writtenConfig raw) "categories") =
        some categories ∧ name ∈ modelUnder repr (Pipeline.writtenConfig raw) "model" ++
          modelUnder repr (Pipeline.writtenConfig raw) "default_model" ++ writtenChain raw ++
          categoryModels repr categories) → name ∈ named := by
    rintro raw hraw name ⟨categories, hcategories, hname⟩
    exact hsteps raw hraw _ (stepModels_eq repr hwalk h hraw hcategories) name hname
  have hcandidate : ∀ (e : StepEvaluator), ∀ step ∈ (Pipeline.fromDict (.obj data)).steps,
      ∀ candidate ∈ (e.candidates step.config).found, candidate.1 ∈ named := by
    intro e step hstep candidate hcandidate
    obtain ⟨raw, hraw, htype, hconfig, haccepted⟩ := exists_written h hstep
    obtain ⟨categories, hcategories⟩ := Option.isSome_iff_exists.mp (hchains.listed raw hraw)
    obtain ⟨hne, hname⟩ := written_of_mem_candidates hconfig haccepted e hcandidate
    refine hfield raw hraw _ ⟨categories, hcategories, ?_⟩
    have hmodel := haccepted.isText (by decide) (model_mem_stepConfigKeys step.type)
    simp only [List.mem_append, mem_modelUnder repr hmodel]
    rcases hname with hown | hchain
    · exact .inl (.inl (.inl ⟨hne, hown⟩))
    · exact .inl (.inr hchain)
  refine ⟨named, named, classifiers, hnamed, by rw [managementModelsNamedIn_eq]; exact hnamed,
    hclassifiers, ⟨fun _ => Iff.rfl, ?_, ?_, hcandidate, ?_, ?_⟩⟩
  · intro e engine step hstep request sent hsent
    rcases e.evaluate_sent_cases engine step request with hnone | ⟨-, hturn⟩
    · rw [hnone] at hsent
      simp at hsent
    · obtain ⟨candidate, hfound, hmodel⟩ := hturn.of_mem hsent
      rw [hmodel]
      exact hcandidate e step hstep candidate hfound
  · intro e engine step hstep request next hnext
    rcases e.evaluate_request engine hnext with ⟨-, hsame⟩ | ⟨hroute, -, hne, htarget⟩
    · exact .inl hsame
    · right
      obtain ⟨raw, hraw, htype, hconfig, haccepted⟩ := exists_written h hstep
      rw [hconfig] at htarget
      rw [hroute] at haccepted htarget
      have hentries : entries (dictGet (Pipeline.writtenConfig raw) "categories") =
          some (Pipeline.listed (Pipeline.writtenConfig raw) "categories") := by
        refine entries_eq_listed fun v hv => ?_
        obtain ⟨categories, rfl, -⟩ :=
          haccepted.categories rfl v (stated_eq_some_iff.mp hv).1
        exact ⟨categories, rfl⟩
      refine hfield raw hraw _ ⟨_, hentries, ?_⟩
      have hdefault : ∀ v, stated (Pipeline.writtenConfig raw) "default_model" = some v →
          v.isText = true := haccepted.isText (by decide) (by decide)
      simp only [List.mem_append, mem_modelUnder repr hdefault]
      rcases htarget with hdefaulted | ⟨category, hcategory, hmodel⟩
      · rw [configText_readConfig haccepted (by decide) (by decide)] at hdefaulted
        exact .inl (.inl (.inr ⟨hne, hdefaulted⟩))
      · obtain ⟨members, hmembers, htext, hsame⟩ := category_readConfig haccepted hcategory
        refine .inr (List.mem_flatMap.mpr ⟨_, hmembers, ?_⟩)
        exact (mem_modelUnder repr htext).mpr ⟨hne, hmodel.trans hsame⟩
  · intro kind name hname
    refine hkinds kind name ?_
    cases kind <;> exact hname
  · intro e engine pastBlocks request modelCalls sent hsent
    obtain ⟨step, hstep, request', hsent⟩ := of_mem_dryRunFrom _ hsent
    rcases e.evaluate_sent_cases engine step request' with hnone | ⟨hasks, hturn⟩
    · rw [hnone] at hsent
      simp at hsent
    · obtain ⟨candidate, hfound, hmodel⟩ := hturn.of_mem hsent
      obtain ⟨raw, hraw, htype, hconfig, haccepted⟩ := exists_written h hstep
      obtain ⟨hne, hname⟩ := written_of_mem_candidates hconfig haccepted e hfound
      have hwritten := (asks_iff_stepAsks htype hconfig haccepted).mp hasks
      rw [hmodel, hmem]
      by_cases hown : writtenModel raw = []
      · rcases hname with heq | hchain
        · exact absurd (heq.trans hown) hne
        · exact hchains.named raw hraw hwritten hown _ hchain
      · exact ⟨raw, hraw, hwritten, hown, hname⟩

/-- **Only such a document is one whose steps' models are checked.** -/
theorem chainsNamed_of_checked (hchecked : ModelsChecked repr (.obj data)) :
    ChainsNamed (.obj data) := by
  obtain ⟨named, mirrored, classifiers, hnamed, -, hclassifiers, hall⟩ := hchecked
  refine ⟨listed_of_modelsNamedIn repr hwalk hnamed, ?_⟩
  intro raw hraw hasks hmodel name hname
  obtain ⟨found, hfound, hmem⟩ := classifiersNamedIn_spec repr hwalk h
  obtain rfl := Option.some.inj (hclassifiers.symm.trans hfound)
  refine (hmem name).mp ?_
  obtain ⟨step, hstep, htype, hconfig, haccepted⟩ := exists_step h hraw
  -- a dry run of an answerless gateway asks every model of the chain
  let engine : TextEngine := ⟨fun _ _ => false, fun _ => none, id, fun _ _ => false⟩
  let messages : List CanonicalMessage := [{ role := .user, parts := [.text "?"] }]
  have hblank : ∀ request : CanonicalRequest, request.messages = messages →
      strip request.lastUserText ≠ [] := by
    intro request hmessages
    rw [CanonicalRequest.lastUserText, hmessages]
    decide
  obtain ⟨request, hmessages, hsent⟩ := mem_dryRunFrom (unreachable.evaluate engine)
    (fun step request next hmessages hnext =>
      (unreachable_keeps engine step request next (hblank request hmessages) hnext).trans hmessages)
    (s := { calls := [], current := { model := [], messages := messages } }) rfl hstep
  have hturn := unreachable.evaluate_sent_of_asks engine
    ((asks_iff_stepAsks htype hconfig haccepted).mpr hasks) fun _ => hblank request hmessages
  have hcandidate : name ∈ (strings (Pipeline.listed step.config "fallback_models")).filter
      (· ≠ []) := by
    rw [hconfig, chain_readConfig haccepted]
    exact hname
  obtain ⟨candidate, hfound, rfl⟩ := unreachable_candidates hcandidate
  obtain ⟨sent, hmem, hsentModel⟩ := hturn.of_unreached unreachable_fails candidate hfound
  rw [← hsentModel]
  exact hall.dryRun unreachable engine true { model := [], messages := messages } [] sent
    (hsent sent hmem)

end Document

/-- **No step reaches a model nobody checked**, of a document that a strict reader accepts, exactly
where every chain that is asked without a model of its own is written beside one elsewhere, and
every step's categories can be gone through. -/
theorem models_checked_iff (repr : Json → Text) (catastrophicReason : Text → Option Text) (d : Json)
    (haccepted : problemIn repr catastrophicReason d = none ∨
      managementProblem repr catastrophicReason d = none) :
    ModelsChecked repr d ↔ ChainsNamed d := by
  obtain ⟨data, rfl, hdata⟩ : ∃ data, d = .obj data ∧ DocumentAccepted data := by
    rcases haccepted with hdry | hsaved
    · exact problemIn_eq_none hdry
    · exact managementProblem_eq_none hsaved
  have hwalk : Walkable data := by
    rcases haccepted with hdry | hsaved
    · exact walkable_of_problemIn hdry
    · exact walkable_of_managementProblem hsaved
  exact ⟨chainsNamed_of_checked repr hwalk hdata, checked_of_chainsNamed repr hwalk hdata⟩

/-- A redactor with a model and a chain, and a router between two categories. -/
def namedChain : Json :=
  .obj [("steps", .arr
    [.obj [("type", .str "pii_filter"),
        ("config", .obj [("model", .str "small"), ("fallback_models", .arr [.str "large"])])],
      .obj [("type", .str "model_route"),
        ("config", .obj [("model", .str "small"), ("default_model", .str "large"),
          ("categories", .arr [.obj [("name", .str "code"), ("model", .str "coder")]])])]])]

/-- Of such a pipeline nothing is reached that is not checked. -/
theorem named_chain_checked : ModelsChecked (fun _ => []) namedChain := by
  refine (models_checked_iff (fun _ => []) (fun _ => none) namedChain (.inl (by decide))).mpr
    ⟨by decide, fun raw hraw _ hmodel => ?_⟩
  have hmodels : ∀ raw ∈ Pipeline.listed namedChain.members "steps", writtenModel raw ≠ [] := by
    decide
  exact absurd hmodel (hmodels raw hraw)

/-- A redactor with a chain and no model. -/
def chainAlone : Json :=
  .obj [("steps", .arr [.obj [("type", .str "pii_filter"),
    ("config", .obj [("fallback_models", .arr [.str "large"])])]])]

/-- **Both strict readers accept a chain without a model, and the dry run asks it** though its list
of models to approve is empty. -/
theorem chain_without_model :
    problemIn (fun _ => []) (fun _ => none) chainAlone = none ∧
      managementProblem (fun _ => []) (fun _ => none) chainAlone = none ∧
      ¬ModelsChecked (fun _ => []) chainAlone := by
  refine ⟨by decide, by decide, ?_⟩
  rintro ⟨named, mirrored, classifiers, -, -, hclassifiers, hall⟩
  have hnone : classifiersNamedIn (fun _ => []) chainAlone.members = some [] := by decide
  obtain rfl := Option.some.inj (hnone.symm.trans hclassifiers)
  let engine : TextEngine := ⟨fun _ _ => false, fun _ => none, id, fun _ _ => false⟩
  let request : CanonicalRequest :=
    { model := "large", messages := [{ role := .user, parts := [.text "?"] }] }
  have hsent : (dryRun (unreachable.evaluate engine) false (Pipeline.fromDict chainAlone) request
      []).sent.map (·.model) = ["large"] := by
    decide
  obtain ⟨sent, hmem, -⟩ : ∃ sent ∈ (dryRun (unreachable.evaluate engine) false
      (Pipeline.fromDict chainAlone) request []).sent, sent.model = "large" := by
    rw [← List.mem_map, hsent]
    exact List.mem_singleton_self _
  exact absurd (hall.dryRun unreachable engine false request [] sent hmem) List.not_mem_nil

end AiraGateway
