import AiraGateway.Serving.Thinking

/-!
# Which declarations the console accepts

A model declaration is checked against itself where it is written (`validateDeclaration`), and read
by the gateway on the request path (`Declaration.catalogued`). The checks of the blocks that decide
nothing here, embedding and attachments, are parameters, as are the rendering of a value in a
message and the lower-casing of a text.

* `worksAsDeclared_iff`: an accepted declaration works as it is declared exactly when it names the
  thinking capability for what can be asked for, and its default has a budget where it takes one.
* `accepted_unusable`: declarations that are accepted and do not.
-/

namespace AiraGateway.Management

/-! ### The declaration and its problems -/

/-- What the console is told of a model, as far as it is checked against itself. -/
structure Declaration where
  capabilities : Json := .arr []
  hosting : Json := .str []
  contextWindow : Option ℤ := none
  maxOutputTokens : Option ℤ := none
  defaultMaxOutputTokens : Option ℤ := none
  thinking : Json := .null
  embedding : Json := .null
  attachments : Json := .null
  fixedSampling : Json := .null
  defaultSampling : Json := .null

def knownCapabilities : List Text :=
  ["generate", "embed", "structured_output", thinkingCapability, "attachments", "tools",
    "prompt_caching", "speech", "rerank"]

def knownHosting : List Text := ["managed", "self_deployed"]

def maxLevels : ℕ := 16

def maxLevelLength : ℕ := 32

def thinkingKeys : List Text := ["modes", "min_tokens", "max_tokens", "default", "levels"]

def thinkingDefaultKeys : List Text := ["mode", "tokens"]

/-- What a block states under a name, where an absent name states nothing. -/
def stated (block : List (Text × Json)) (name : Text) : Json := (dictGet block name).getD .null

section Checks

variable (shown : Json → Text) (repr : Text → Text) (lower : Text → Text)
  (valueOf : Text → Option ℚ)

def commaSeparated (texts : List Text) : Text := List.intercalate (", " : Text) texts

def inOrder (texts : List Text) : List Text := texts.insertionSort (· ≤ ·)

/-- A list of texts as it is shown in a message. -/
def shownList (texts : List Text) : Text :=
  ("[" : Text) ++ commaSeparated ((inOrder texts).map repr) ++ "]"

/-- A problem, where there is one. -/
def problemIf (condition : Prop) [Decidable condition] (problem : Text) : List Text :=
  if condition then [problem] else []

def positiveInt (value : Json) (field : Text) : Option ℤ × List Text :=
  let problem := field ++ " must be a positive integer."
  match value with
  | .null => (none, [])
  | .int n => if 0 < n then (some n, []) else (none, [problem])
  | _ => (none, [problem])

/-- A refusal naming every key that nothing reads, and what the block does carry. -/
def unknownKeys (block : List (Text × Json)) (allowed : List Text) (place : Text) : List Text :=
  let extra := inOrder ((block.map (·.1)).filter (· ∉ allowed))
  problemIf (extra ≠ [])
    (place ++ " does not take " ++ commaSeparated (extra.map repr) ++ ": it carries " ++
      commaSeparated (inOrder allowed) ++ ".")

/-- Whether a value is one of some texts. -/
def isMemberOf (known : List Text) : Json → Bool
  | .str text => text ∈ known
  | _ => false

def validateCapabilities (values : Json) : List Text :=
  match values with
  | .arr items =>
    let unknown := items.filter fun value => !isMemberOf knownCapabilities value
    problemIf (unknown ≠ [])
      (("Unknown capabilities: " : Text) ++ commaSeparated (unknown.map shown) ++ ". Known: " ++
        shownList repr knownCapabilities ++ ".")
  | _ => ["capabilities must be a list."]

def validateHosting (value : Json) : List Text :=
  problemIf (value.truthy ∧ !isMemberOf knownHosting value)
    (("hosting must be one of " : Text) ++ shownList repr knownHosting ++ ".")

def validateFixedSampling (value : Json) : List Text :=
  match value with
  | .null | .bool _ => []
  | _ => ["fixed_sampling must be true or false."]

/-- A value of `top_p` that is no number above 0 and at most 1. -/
def isBadTopP (value : Json) : Bool :=
  value ≠ .null && !(Json.number? valueOf (some value)).any fun p => 0 < p ∧ p ≤ 1

def isBadTopK (value : Json) : Bool := value ≠ .null && !(Json.int? (some value)).any (1 ≤ ·)

def validateDefaultSampling (block fixedSampling : Json) : List Text :=
  match block with
  | .null => []
  | .obj members =>
    let topP := stated members "top_p"
    let topK := stated members "top_k"
    ((members.map (·.1)).filter (· ∉ [("top_p" : Text), "top_k"])).map
        (fun key => ("default_sampling." : Text) ++ key ++
          " is not a sampling default; top_p and top_k are.") ++
      problemIf (isBadTopP valueOf topP)
        "default_sampling.top_p must be a number above 0 and at most 1." ++
      problemIf (isBadTopK topK)
        "default_sampling.top_k must be a whole number of at least 1." ++
      problemIf (fixedSampling = .bool true ∧ (topP ≠ .null ∨ topK ≠ .null))
        (("A model with fixed sampling takes no sampling default: it refuses top_k, and top_p " :
          Text) ++ "other than 1.")
  | _ => ["default_sampling must be an object with top_p and/or top_k."]

/-- The declared modes, a closed set. -/
def statedModes (modes : Json) : List Json × List Text :=
  match modes with
  | .null => ([], [])
  | .arr items =>
    let unknown := items.filter fun mode => !isMemberOf controlModes mode
    (items,
      if unknown ≠ [] then
        [("Unknown thinking modes: " : Text) ++ commaSeparated (unknown.map shown) ++
          ". The modes are " ++ shownList repr controlModes ++
          "; a vendor's level word goes in thinking.levels."]
      else problemIf (controlModes.length < items.length)
        "thinking.modes names each of the 3 modes at most once.")
  | _ => ([], ["thinking.modes must be a list."])

def checkThinkingBounds (modes : List Json) (minimum maximum maxOutputTokens : Option ℤ) :
    List Text :=
  problemIf (minimum.any fun minimum => maximum.any (· < minimum))
      "thinking.min_tokens must not exceed thinking.max_tokens." ++
    problemIf (maximum.any fun maximum => maxOutputTokens.any (· ≤ maximum))
      (("thinking.max_tokens must be below max_output_tokens — the thinking budget is drawn " :
        Text) ++ "from the output allowance, so a request at this budget could never answer.") ++
    problemIf (.str limitedMode ∈ modes ∧ maximum = none)
      "thinking.max_tokens is required when 'limited' is offered."

def levelsAreWords : Text :=
  ("thinking.levels must be a list of the level words this model accepts, for example " : Text) ++
    "['low', 'high']."

/-- The level words as the gateway reads them; only their shape, length and duplication are
checked. -/
def checkThinkingLevels (levels : Json) : List Text × List Text :=
  match levels with
  | .null => ([], [])
  | .arr items =>
    if (Json.texts (some levels)).length ≠ items.length then ([], [levelsAreWords])
    else if maxLevels < items.length then ([], ["thinking.levels lists at most 16 words."])
    else
      let words := (Json.texts (some levels)).map (wordOf lower)
      let clashes := controlModes.filter (· ∈ words)
      (words.filter (· ≠ []),
        problemIf ([] ∈ words) "thinking.levels may not contain an empty word." ++
          problemIf (words.any fun word => maxLevelLength < word.length)
            (("thinking.levels holds words of at most 32 characters: a caller's thinking word " :
              Text) ++ "is refused above that length, so a longer one could never be asked for.") ++
          problemIf (¬words.Nodup) "thinking.levels names the same level twice." ++
          problemIf (clashes ≠ [])
            (("thinking.levels names " : Text) ++ shownList repr clashes ++
              ", which are thinking modes rather than vendor level words — declare them in " ++
              "thinking.modes."))
  | _ => ([], [levelsAreWords])

/-- The word a default names, as the gateway compares it. -/
def defaultWord (default : List (Text × Json)) : Text :=
  match stated default "mode" with
  | .str mode => wordOf lower mode
  | _ => []

/-- The setting a request gets when its caller names none: a declared mode or level. -/
def checkThinkingDefault (default : Json) (modes : List Json) (levels : List Text)
    (minimum maximum : Option ℤ) : List Text :=
  match default with
  | .null => []
  | .obj members =>
    let word := defaultWord lower members
    unknownKeys repr members thinkingDefaultKeys "thinking.default" ++
      if word = [] ∨ word ∉ Json.texts (some (.arr modes)) ++ levels then
        [("thinking.default.mode must be one of the declared modes or levels." : Text)]
      else if word = limitedMode then
        let (tokens, problems) := positiveInt (stated members "tokens") "thinking.default.tokens"
        problems ++ problemIf (tokens.any fun tokens =>
            maximum.any fun maximum => tokens < minimum.getD 1 || maximum < tokens)
          "thinking.default.tokens must lie within the declared bounds."
      else []
  | _ => ["thinking.default.mode must be one of the declared modes or levels."]

/-- The thinking block against itself. -/
def validateThinking (block : Json) (maxOutputTokens : Option ℤ) : List Text :=
  match block with
  | .null => []
  | .obj members =>
    let modes := statedModes shown repr (stated members "modes")
    let minimum := positiveInt (stated members "min_tokens") "thinking.min_tokens"
    let maximum := positiveInt (stated members "max_tokens") "thinking.max_tokens"
    let levels := checkThinkingLevels repr lower (stated members "levels")
    unknownKeys repr members thinkingKeys "thinking" ++ modes.2 ++
      problemIf (modes.1 = [] ∧ !(stated members "levels").truthy)
        (("thinking declares neither a mode nor a level, so nothing about it can be asked for. " :
          Text) ++ "Give it thinking.modes, thinking.levels, or remove the block.") ++
      minimum.2 ++ maximum.2 ++
      checkThinkingBounds modes.1 minimum.1 maximum.1 maxOutputTokens ++ levels.2 ++
      checkThinkingDefault repr lower (stated members "default") modes.1 levels.1 minimum.1
        maximum.1 ++
      -- a model with a floor above zero cannot stop thinking
      problemIf (.str disabledMode ∈ modes.1 ∧ minimum.1.isSome)
        (("thinking.modes offers 'disabled' while thinking.min_tokens is " : Text) ++
          numeral (minimum.1.getD 0).toNat ++
          " — a model with a floor above zero cannot stop thinking, and every request asking it " ++
          "to would be refused by the provider. Drop one of the two.")
  | _ => ["thinking must be an object."]

variable (embeddingProblems attachmentProblems : Json → List Text)

/-- Every consistency rule. No problem means consistent. -/
def validateDeclaration (d : Declaration) : List Text :=
  validateCapabilities shown repr d.capabilities ++ validateHosting repr d.hosting ++
    validateThinking shown repr lower d.thinking d.maxOutputTokens ++
    embeddingProblems d.embedding ++ attachmentProblems d.attachments ++
    validateFixedSampling d.fixedSampling ++
    validateDefaultSampling valueOf d.defaultSampling d.fixedSampling ++
    (positiveInt (d.contextWindow.elim .null .int) "context_window").2 ++
    (positiveInt (d.maxOutputTokens.elim .null .int) "max_output_tokens").2 ++
    (positiveInt (d.defaultMaxOutputTokens.elim .null .int) "default_max_output_tokens").2 ++
    problemIf (d.maxOutputTokens.any fun most => d.defaultMaxOutputTokens.any (most < ·))
      "default_max_output_tokens must not exceed max_output_tokens." ++
    problemIf (d.contextWindow.any fun window => d.maxOutputTokens.any (window < ·))
      "max_output_tokens must not exceed context_window."

end Checks

/-- The declaration of the same fields, as the gateway reads it. -/
def Declaration.catalogued (d : Declaration) (name : Text) : CataloguedModel where
  name
  capabilities := (Json.texts (some d.capabilities)).filter (· ∈ knownCapabilities)
  declared := (Json.texts (some d.capabilities)).any (· ∈ knownCapabilities)
  maxOutputTokens := d.maxOutputTokens
  defaultMaxOutputTokens := d.defaultMaxOutputTokens
  attachments := d.attachments
  thinking := match d.thinking with
    | .obj members => .obj members
    | _ => .null
  defaultSampling := d.defaultSampling

/-! ### Working as declared -/

section Working

/-- The modes and levels a model declares, as they are written. -/
def declaredWords (d : CataloguedModel) : List Text :=
  Json.texts (d.thinking.get "modes") ++ Json.texts (d.thinking.get "levels")

/-- A control is held at what a block declares for it, and at nothing where it declares nothing. -/
def HoldsDeclared {α : Type} (held : Option α) (read : Option Json → Option α)
    (declared : Option Json) : Prop :=
  match declared with
  | none | some .null => held = none
  | some value => ∃ x, read (some value) = some x ∧ held = some x

variable (lower : Text → Text) (valueOf : Text → Option ℚ)

/-- What is declared of a model's thinking and sampling is what its requests get. -/
structure WorksAsDeclared (d : CataloguedModel) : Prop where
  /-- A request that sets nothing gets the default, as a caller's setting it would be accepted. -/
  default : ∀ default, d.thinking.get "default" = some default → default ≠ .null →
    ∃ mode setting, default.get "mode" = some (.str mode) ∧
      resolve lower none d = .ok (some setting) ∧ setting.mode = wordOf lower mode ∧
      resolve lower (some setting) d = .ok (some setting) ∧
      permittedBy lower (some setting) d = none ∧
      checkBudgetFits (some setting) (d.outputCap none) = .ok ()
  /-- A declared word, in any case and with blanks around it, is accepted; `limited` with the
  budgets within the bounds. -/
  words : ∀ word ∈ declaredWords d, ∀ raw, wordOf lower raw = wordOf lower word →
    modeFrom lower raw = .ok (wordOf lower word) ∧
      if wordOf lower word = limitedMode then
        ∀ tokens, resolve lower (some ⟨wordOf lower word, some tokens⟩) d
            = .ok (some ⟨wordOf lower word, some tokens⟩) ↔ WithinBounds d tokens
      else resolve lower (some ⟨wordOf lower word, none⟩) d
        = .ok (some ⟨wordOf lower word, none⟩)
  /-- What is reserved covers the budget, and is at most the maximum. -/
  reserved : ∀ requested setting, resolve lower requested d = .ok (some setting) →
    setting.mode ≠ disabledMode → setting.tokens.getD 0 ≤ reservedTokens (some setting) d ∧
      ∀ maximum, d.thinkingBounds.2 = some maximum →
        reservedTokens (some setting) d ≤ maximum
  topP : HoldsDeclared (d.samplingDefaults valueOf).topP (Json.number? valueOf)
    (d.defaultSampling.get "top_p")
  topK : HoldsDeclared (d.samplingDefaults valueOf).topK Json.int?
    (d.defaultSampling.get "top_k")

/-- There is something a caller can ask for: a word that takes no budget, or one and a budget. -/
def Askable (d : CataloguedModel) : Prop :=
  ∃ word ∈ declaredWords d,
    wordOf lower word = limitedMode → ∃ tokens, WithinBounds d tokens

/-- A default with a budget the gateway can account for and an answer has room behind, where it
takes one, and without a budget where it takes none. -/
def DefaultFits (d : CataloguedModel) : Prop :=
  ∀ default mode, d.thinking.get "default" = some default →
    default.get "mode" = some (.str mode) →
      if wordOf lower mode = limitedMode then
        ∃ tokens, default.get "tokens" = some (.int tokens) ∧ tokens ≤ maxAccountableTokens ∧
          ∀ cap, d.defaultMaxOutputTokens = some cap → tokens < cap
      else ∀ tokens, default.get "tokens" ≠ some (.int tokens)

/-- What an accepted declaration comes to for the gateway. -/
structure Consistent (d : CataloguedModel) : Prop where
  offered : ∀ word ∈ declaredWords d, wordOf lower word ∈ d.offered lower
  length : ∀ word ∈ declaredWords d,
    wordOf lower word ≠ [] ∧ (wordOf lower word).length ≤ maxModeLength
  declared : ∀ word ∈ d.offered lower, ∃ declared ∈ declaredWords d, wordOf lower declared = word
  maximum : ∀ maximum, d.thinkingBounds.2 = some maximum → 0 < maximum
  default : ∀ default, d.thinking.get "default" = some default → default ≠ .null →
    ∃ members mode, default = .obj members ∧ dictGet members "mode" = some (.str mode) ∧
      strip mode ≠ [] ∧ wordOf lower mode ∈ d.offered lower ∧
      (wordOf lower mode = limitedMode →
        ∀ tokens, dictGet members "tokens" = some (.int tokens) → 1 ≤ tokens ∧
          (∀ minimum, d.thinkingBounds.1 = some minimum → minimum ≤ tokens) ∧
          ∀ maximum, d.thinkingBounds.2 = some maximum → tokens ≤ maximum)
  topP : HoldsDeclared (d.samplingDefaults valueOf).topP (Json.number? valueOf)
    (d.defaultSampling.get "top_p")
  topK : HoldsDeclared (d.samplingDefaults valueOf).topK Json.int?
    (d.defaultSampling.get "top_k")

variable {lower} {valueOf} {d : CataloguedModel}

/-- The default as the gateway reads it. -/
theorem Consistent.resolve_none (h : Consistent lower valueOf d) {members : List (Text × Json)}
    {mode : Text} (hdefault : d.thinking.get "default" = some (.obj members))
    (hmode : dictGet members "mode" = some (.str mode)) :
    resolve lower none d
      = .ok (some ⟨wordOf lower mode, Json.int? (dictGet members "tokens")⟩) := by
  obtain ⟨others, other, heq, hother, hblank, -⟩ := h.default _ hdefault (by simp)
  obtain rfl : members = others := by simpa using heq
  obtain rfl : mode = other := Json.str.inj (Option.some.inj (hmode.symm.trans hother))
  have hread : d.thinkingDefault = some members := by
    rw [CataloguedModel.thinkingDefault, hdefault]
  rw [resolve, defaultFor, hread, Option.bind_some, hmode]
  exact congrArg Except.ok (if_neg hblank)

/-- A default's budget fits exactly where the default does. -/
theorem Consistent.default_iff (h : Consistent lower valueOf d) {members : List (Text × Json)}
    {mode : Text} (hdefault : d.thinking.get "default" = some (.obj members))
    (hmode : dictGet members "mode" = some (.str mode)) :
    (BudgetFits d ⟨wordOf lower mode, Json.int? (dictGet members "tokens")⟩
        ∧ checkBudgetFits (some ⟨wordOf lower mode, Json.int? (dictGet members "tokens")⟩)
            (d.outputCap none) = .ok ())
      ↔ if wordOf lower mode = limitedMode then
          ∃ tokens, dictGet members "tokens" = some (.int tokens) ∧
            tokens ≤ maxAccountableTokens ∧
            ∀ cap, d.defaultMaxOutputTokens = some cap → tokens < cap
        else ∀ tokens, dictGet members "tokens" ≠ some (.int tokens) := by
  have hbounds : wordOf lower mode = limitedMode →
      ∀ tokens, dictGet members "tokens" = some (.int tokens) → 1 ≤ tokens ∧
        (∀ minimum, d.thinkingBounds.1 = some minimum → minimum ≤ tokens) ∧
        ∀ maximum, d.thinkingBounds.2 = some maximum → tokens ≤ maximum := by
    obtain ⟨others, other, heq, hother, -, -, hbounds⟩ := h.default _ hdefault (by simp)
    obtain rfl : members = others := by simpa using heq
    obtain rfl : mode = other := Json.str.inj (Option.some.inj (hmode.symm.trans hother))
    exact hbounds
  have hint : ∀ value : Option Json, ∀ n, Json.int? value = some n ↔ value = some (.int n) := by
    intro value n
    rcases value with _ | (_ | _ | _ | _ | _ | _ | _) <;> simp [Json.int?]
  generalize dictGet members "tokens" = stated at hbounds ⊢
  by_cases hlimited : wordOf lower mode = limitedMode
  · simp only [BudgetFits, if_pos hlimited, hint]
    constructor
    · rintro ⟨⟨tokens, rfl, hwithin⟩, hfits⟩
      refine ⟨tokens, rfl, hwithin.accountable, fun cap hcap => ?_⟩
      by_contra hfills
      have hcapped : d.outputCap none = some cap := by
        simp [ModelDeclaration.outputCap, hcap]
      rw [hcapped] at hfits
      exact hfills (checkBudgetFits_iff.mp hfits hlimited)
    · rintro ⟨tokens, rfl, haccountable, hcaps⟩
      obtain ⟨hpositive, hminimum, hmaximum⟩ := hbounds hlimited tokens rfl
      refine ⟨⟨tokens, rfl, hpositive, hminimum, hmaximum, haccountable⟩, ?_⟩
      cases hcap : d.defaultMaxOutputTokens with
      | none => simp [checkBudgetFits, ModelDeclaration.outputCap, hcap]
      | some cap =>
        have hcapped : d.outputCap none = some cap := by
          simp [ModelDeclaration.outputCap, hcap]
        rw [hcapped]
        exact checkBudgetFits_iff.mpr fun _ => hcaps cap hcap
  · simp only [BudgetFits, if_neg hlimited]
    constructor
    · rintro ⟨hnone, -⟩ tokens rfl
      simp [Json.int?] at hnone
    · intro hnone
      have hunset : Json.int? stated = none := by
        cases hread : Json.int? stated with
        | none => rfl
        | some tokens => exact absurd ((hint _ _).mp hread) (hnone tokens)
      exact ⟨hunset, by simp [hunset, checkBudgetFits]⟩

theorem defaultFor_eq_some {setting : Thinking} (h : defaultFor lower d = some setting) :
    ∃ members mode, d.thinking.get "default" = some (.obj members) ∧
      dictGet members "mode" = some (.str mode) ∧
      setting = ⟨wordOf lower mode, Json.int? (dictGet members "tokens")⟩ := by
  rw [defaultFor, Option.bind_eq_some_iff] at h
  obtain ⟨members, hmembers, hsetting⟩ := h
  rw [CataloguedModel.thinkingDefault] at hmembers
  split at hmembers
  · next members' hdefault =>
    obtain rfl : members' = members := by simpa using hmembers
    split at hsetting
    · next mode hmode =>
      split at hsetting
      · simp at hsetting
      · exact ⟨members', mode, hdefault, hmode, by simpa using hsetting.symm⟩
    · simp at hsetting
  · simp at hmembers

/-- **A consistent declaration works as declared** exactly when the thinking capability is named
for what can be asked for, and the default fits. -/
theorem Consistent.works_iff (h : Consistent lower valueOf d) :
    WorksAsDeclared lower valueOf d ↔
      (Askable lower d → d.can thinkingCapability = true) ∧ DefaultFits lower d := by
  constructor
  · intro hworks
    refine ⟨?_, ?_⟩
    · rintro ⟨word, hword, hbudget⟩
      have haccepted := (hworks.words word hword word rfl).2
      by_cases hlimited : wordOf lower word = limitedMode
      · obtain ⟨tokens, hwithin⟩ := hbudget hlimited
        rw [if_pos hlimited] at haccepted
        exact (resolve_some_iff.mp ((haccepted tokens).mpr hwithin)).2.1
      · rw [if_neg hlimited] at haccepted
        exact (resolve_some_iff.mp haccepted).2.1
    · intro default mode hdefault hmode
      have hnull : default ≠ .null := by
        rintro rfl
        simp [Json.get] at hmode
      obtain ⟨members, -, rfl, -⟩ := h.default default hdefault hnull
      obtain ⟨-, setting, -, hnone, -, haccepted, -, hfits⟩ :=
        hworks.default _ hdefault hnull
      rw [h.resolve_none hdefault hmode] at hnone
      obtain rfl : ⟨wordOf lower mode, Json.int? (dictGet members "tokens")⟩ = setting := by
        simpa using hnone
      exact (h.default_iff hdefault hmode).mp ⟨(resolve_some_iff.mp haccepted).2.2.2, hfits⟩
  · rintro ⟨hcapable, hdefaults⟩
    have hfits : ∀ members mode, d.thinking.get "default" = some (.obj members) →
        dictGet members "mode" = some (.str mode) →
        BudgetFits d ⟨wordOf lower mode, Json.int? (dictGet members "tokens")⟩ ∧
          checkBudgetFits (some ⟨wordOf lower mode, Json.int? (dictGet members "tokens")⟩)
            (d.outputCap none) = .ok () := fun members mode hdefault hmode =>
      (h.default_iff hdefault hmode).mpr (hdefaults _ mode hdefault hmode)
    refine ⟨?_, ?_, ?_, h.topP, h.topK⟩
    · intro default hdefault hnull
      obtain ⟨members, mode, rfl, hmode, -, hoffered, -⟩ := h.default default hdefault hnull
      obtain ⟨hbudget, hroom⟩ := hfits members mode hdefault hmode
      have hcan : d.can thinkingCapability = true := by
        obtain ⟨word, hword, heq⟩ := h.declared _ hoffered
        refine hcapable ⟨word, hword, fun hlimited => ?_⟩
        obtain ⟨tokens, -, hwithin⟩ := (if_pos (heq ▸ hlimited)).mp hbudget
        exact ⟨tokens, hwithin⟩
      exact ⟨mode, _, hmode, h.resolve_none hdefault hmode, rfl,
        resolve_some_iff.mpr ⟨rfl, hcan, hoffered, hbudget⟩,
        permittedBy_eq_none hcan hoffered hbudget, hroom⟩
    · intro word hword raw hraw
      have hoffered := h.offered word hword
      obtain ⟨hne, hlength⟩ := h.length word hword
      refine ⟨?_, ?_⟩
      · rw [modeFrom, hraw]
        exact if_neg (by simp only [hne, false_or]; omega)
      · split
        · next hlimited =>
          intro tokens
          rw [resolve_some_iff]
          constructor
          · rintro ⟨-, -, -, hbudget⟩
            obtain ⟨budget, heq, hwithin⟩ := (if_pos hlimited).mp hbudget
            obtain rfl : tokens = budget := by simpa using heq
            exact hwithin
          · intro hwithin
            exact ⟨rfl, hcapable ⟨word, hword, fun _ => ⟨tokens, hwithin⟩⟩, hoffered,
              (if_pos hlimited).mpr ⟨tokens, rfl, hwithin⟩⟩
        · next hlimited =>
          exact resolve_some_iff.mpr ⟨rfl,
            hcapable ⟨word, hword, fun heq => absurd heq hlimited⟩, hoffered,
            (if_neg hlimited).mpr rfl⟩
    · intro requested setting hresolved hmode
      have hbudget : BudgetFits d setting := by
        cases requested with
        | none =>
          have hdefault : defaultFor lower d = some setting := by
            simpa [resolve] using hresolved
          obtain ⟨members, mode, hblock, hword, rfl⟩ := defaultFor_eq_some hdefault
          exact (hfits members mode hblock hword).1
        | some requested =>
          obtain ⟨rfl, -, -, hbudget⟩ := resolve_some_iff.mp hresolved
          exact hbudget
      exact reservedTokens_spec hbudget hmode fun maximum hmaximum =>
        (h.maximum maximum hmaximum).le

end Working

/-! ### What an accepted declaration comes to -/

section Accepted

variable {shown : Json → Text} {repr : Text → Text} {lower : Text → Text}
  {valueOf : Text → Option ℚ}

@[simp]
theorem problemIf_eq_nil_iff {condition : Prop} [Decidable condition] {problem : Text} :
    problemIf condition problem = [] ↔ ¬ condition := by
  rw [problemIf]
  split <;> simp_all

/-- A text of lower-case letters is as it is. -/
def KeepsLowerCase (lower : Text → Text) : Prop :=
  ∀ text : Text, (∀ c ∈ text, 'a' ≤ c ∧ c ≤ 'z') → lower text = text

theorem KeepsLowerCase.nil (h : KeepsLowerCase lower) : lower [] = [] :=
  h [] (by simp)

theorem KeepsLowerCase.wordOf_control (h : KeepsLowerCase lower) {mode : Text}
    (hmode : mode ∈ controlModes) : wordOf lower mode = mode := by
  have hletters : strip mode = mode ∧ mode.all fun c => 'a' ≤ c ∧ c ≤ 'z' := by
    simp only [controlModes, List.mem_cons, List.not_mem_nil, or_false] at hmode
    rcases hmode with rfl | rfl | rfl <;> exact ⟨rfl, rfl⟩
  obtain ⟨hstrip, hlower⟩ := hletters
  rw [wordOf, hstrip]
  exact h mode fun c hc => by simpa using List.all_eq_true.mp hlower c hc

theorem KeepsLowerCase.strip_ne_nil (h : KeepsLowerCase lower) {raw : Text}
    (hraw : wordOf lower raw ≠ []) : strip raw ≠ [] := by
  intro hblank
  rw [wordOf, hblank, h.nil] at hraw
  exact hraw rfl

/-- A list of texts is its texts. -/
theorem map_texts {items : List Json} (h : ∀ item ∈ items, ∃ text, item = .str text) :
    (Json.texts (some (.arr items))).map Json.str = items := by
  induction items with
  | nil => rfl
  | cons item rest ih =>
    obtain ⟨text, rfl⟩ := h item List.mem_cons_self
    have hrest := ih fun other hother => h other (List.mem_cons_of_mem _ hother)
    exact congrArg (Json.str text :: ·) hrest

theorem texts_map (texts : List Text) : Json.texts (some (.arr (texts.map Json.str))) = texts := by
  induction texts with
  | nil => rfl
  | cons text rest ih => exact congrArg (text :: ·) ih

/-- The declared modes, where the check of them finds nothing. -/
theorem statedModes_valid {entry : Option Json}
    (hvalid : (statedModes shown repr (entry.getD .null)).2 = []) :
    (statedModes shown repr (entry.getD .null)).1 = (Json.texts entry).map Json.str ∧
      ∀ mode ∈ Json.texts entry, mode ∈ controlModes := by
  rcases entry with _ | (_ | _ | _ | _ | _ | items | _)
  · exact ⟨rfl, by simp [Json.texts]⟩
  · exact ⟨rfl, by simp [Json.texts]⟩
  · exact absurd hvalid (List.cons_ne_nil _ _)
  · exact absurd hvalid (List.cons_ne_nil _ _)
  · exact absurd hvalid (List.cons_ne_nil _ _)
  · exact absurd hvalid (List.cons_ne_nil _ _)
  · have htexts : ∀ item ∈ items, ∃ text, item = .str text ∧ text ∈ controlModes := by
      intro item hitem
      by_contra hunknown
      have hne : (items.filter fun mode => !isMemberOf controlModes mode) ≠ [] := by
        refine List.ne_nil_of_mem (List.mem_filter.mpr ⟨hitem, ?_⟩)
        cases item with
        | str text => simpa [isMemberOf] using hunknown
        | null | bool _ | int _ | float _ | arr _ | obj _ => rfl
      rw [Option.getD_some, statedModes] at hvalid
      dsimp only at hvalid
      rw [if_pos hne] at hvalid
      exact List.cons_ne_nil _ _ hvalid
    have hmap := map_texts fun item hitem => (htexts item hitem).imp fun _ h => h.1
    refine ⟨hmap.symm, fun mode hmode => ?_⟩
    have hitem : Json.str mode ∈ items := hmap ▸ List.mem_map_of_mem hmode
    obtain ⟨text, heq, htext⟩ := htexts _ hitem
    exact (Json.str.inj heq).symm ▸ htext
  · exact absurd hvalid (List.cons_ne_nil _ _)

/-- The declared levels, where the check of them finds nothing. -/
theorem checkThinkingLevels_valid {entry : Option Json}
    (hvalid : (checkThinkingLevels repr lower (entry.getD .null)).2 = []) :
    (checkThinkingLevels repr lower (entry.getD .null)).1
        = (Json.texts entry).map (wordOf lower) ∧
      ∀ level ∈ Json.texts entry,
        wordOf lower level ≠ [] ∧ (wordOf lower level).length ≤ maxModeLength ∧
          wordOf lower level ∉ controlModes := by
  rcases entry with _ | (_ | _ | _ | _ | _ | items | _)
  · exact ⟨rfl, by simp [Json.texts]⟩
  · exact ⟨rfl, by simp [Json.texts]⟩
  · exact absurd hvalid (List.cons_ne_nil _ _)
  · exact absurd hvalid (List.cons_ne_nil _ _)
  · exact absurd hvalid (List.cons_ne_nil _ _)
  · exact absurd hvalid (List.cons_ne_nil _ _)
  · rw [Option.getD_some, checkThinkingLevels] at hvalid ⊢
    split at hvalid
    · exact absurd hvalid (List.cons_ne_nil _ _)
    · next hlength =>
      split at hvalid
      · exact absurd hvalid (List.cons_ne_nil _ _)
      · next hmany =>
        rw [if_neg hlength, if_neg hmany]
        simp only [List.append_eq_nil_iff, problemIf_eq_nil_iff] at hvalid
        obtain ⟨⟨⟨hempty, hlong⟩, -⟩, hclash⟩ := hvalid
        have hwords : ∀ level ∈ Json.texts (some (.arr items)),
            wordOf lower level ≠ [] ∧ (wordOf lower level).length ≤ maxModeLength ∧
              wordOf lower level ∉ controlModes := by
          intro level hlevel
          have hword := List.mem_map_of_mem (f := wordOf lower) hlevel
          refine ⟨fun hnil => hempty (hnil ▸ hword), ?_, fun hcontrol => ?_⟩
          · by_contra habove
            have hbeyond : maxLevelLength < (wordOf lower level).length := by
              simpa [maxLevelLength, maxModeLength] using habove
            exact hlong (List.any_eq_true.mpr ⟨_, hword, decide_eq_true hbeyond⟩)
          · exact hclash (List.ne_nil_of_mem
              (List.mem_filter.mpr ⟨hcontrol, decide_eq_true hword⟩))
        refine ⟨?_, hwords⟩
        rw [List.filter_eq_self]
        intro word hword
        obtain ⟨level, hlevel, rfl⟩ := List.mem_map.mp hword
        simpa using (hwords level hlevel).1
  · exact absurd hvalid (List.cons_ne_nil _ _)

/-- A token figure, where the check of it finds nothing. -/
theorem positiveInt_valid {entry : Option Json} {field : Text}
    (hvalid : (positiveInt (entry.getD .null) field).2 = []) :
    (positiveInt (entry.getD .null) field).1 = Json.int? entry ∧
      ∀ n, Json.int? entry = some n → 0 < n := by
  rcases entry with _ | (_ | _ | n | _ | _ | _ | _)
  · exact ⟨rfl, by simp [Json.int?]⟩
  · exact ⟨rfl, by simp [Json.int?]⟩
  · exact absurd hvalid (List.cons_ne_nil _ _)
  · rw [Option.getD_some, positiveInt] at hvalid ⊢
    split at hvalid
    · next hpositive =>
      refine ⟨if_pos hpositive ▸ rfl, fun m hm => ?_⟩
      obtain rfl : n = m := by simpa [Json.int?] using hm
      exact hpositive
    · exact absurd hvalid (List.cons_ne_nil _ _)
  · exact absurd hvalid (List.cons_ne_nil _ _)
  · exact absurd hvalid (List.cons_ne_nil _ _)
  · exact absurd hvalid (List.cons_ne_nil _ _)
  · exact absurd hvalid (List.cons_ne_nil _ _)

/-- A declared default, where the check of it finds nothing. -/
theorem checkThinkingDefault_valid {entry : Option Json} {modes : List Json} {levels : List Text}
    {minimum maximum : Option ℤ}
    (hvalid : checkThinkingDefault repr lower (entry.getD .null) modes levels minimum maximum = [])
    {default : Json} (hentry : entry = some default) (hnull : default ≠ .null) :
    ∃ members mode, default = .obj members ∧ dictGet members "mode" = some (.str mode) ∧
      wordOf lower mode ≠ [] ∧ wordOf lower mode ∈ Json.texts (some (.arr modes)) ++ levels ∧
      (wordOf lower mode = limitedMode →
        ∀ tokens, dictGet members "tokens" = some (.int tokens) → 1 ≤ tokens ∧
          ∀ most, maximum = some most → minimum.getD 1 ≤ tokens ∧ tokens ≤ most) := by
  subst hentry
  rw [Option.getD_some] at hvalid
  cases default with
  | null => exact absurd rfl hnull
  | bool _ | int _ | float _ | str _ | arr _ => exact absurd hvalid (List.cons_ne_nil _ _)
  | obj members =>
    rw [checkThinkingDefault] at hvalid
    have hword := (List.append_eq_nil_iff.mp hvalid).2
    split at hword
    · exact absurd hword (List.cons_ne_nil _ _)
    next hoffered =>
    rw [not_or, not_not] at hoffered
    obtain ⟨hne, hoffered⟩ := hoffered
    obtain ⟨mode, hmode⟩ : ∃ mode, dictGet members "mode" = some (.str mode) := by
      rw [defaultWord, stated] at hne
      generalize dictGet members "mode" = entry at hne ⊢
      rcases entry with _ | (_ | _ | _ | _ | mode | _ | _)
      · exact absurd rfl hne
      · exact absurd rfl hne
      · exact absurd rfl hne
      · exact absurd rfl hne
      · exact absurd rfl hne
      · exact ⟨mode, rfl⟩
      · exact absurd rfl hne
      · exact absurd rfl hne
    have hdefault : defaultWord lower members = wordOf lower mode := by
      rw [defaultWord, stated, hmode, Option.getD_some]
    rw [hdefault] at hne hoffered hword
    refine ⟨members, mode, rfl, hmode, hne, hoffered, fun hlimited tokens htokens => ?_⟩
    rw [if_pos hlimited] at hword
    by_cases hpositive : 0 < tokens
    · simp only [stated, htokens, Option.getD_some, positiveInt, if_pos hpositive,
        List.nil_append, problemIf_eq_nil_iff] at hword
      refine ⟨by omega, fun most hmost => ?_⟩
      simpa [hmost] using hword
    · simp only [stated, htokens, Option.getD_some, positiveInt, if_neg hpositive,
        List.append_eq_nil_iff] at hword
      exact absurd hword.1 (List.cons_ne_nil _ _)

/-- A control is held at what is declared for it where everything declared is valid. -/
theorem holdsDeclared_filter {α : Type} {read : Option Json → Option α} {valid : α → Bool}
    {entry : Option Json} (hnone : read none = none) (hnull : read (some .null) = none)
    (hvalid : ∀ value, entry = some value → value ≠ .null →
      (read (some value)).any valid = true) :
    HoldsDeclared ((read entry).filter valid) read entry := by
  cases entry with
  | none => simp [HoldsDeclared, hnone]
  | some value =>
    by_cases hvalue : value = .null
    · simp [hvalue, HoldsDeclared, hnull]
    · obtain ⟨x, hx, hpasses⟩ := Option.any_eq_true _ _ |>.mp (hvalid value rfl hvalue)
      rw [HoldsDeclared.eq_def]
      split
      · next heq => cases heq
      · next heq => exact absurd (Option.some.inj heq) hvalue
      · next heq =>
        obtain rfl := Option.some.inj heq
        exact ⟨x, hx, by rw [hx, Option.filter_some, if_pos hpasses]⟩

/-- The declared sampling defaults are the values that are held. -/
theorem samplingDefaults_valid {d : CataloguedModel} {fixed : Json}
    (hvalid : validateDefaultSampling valueOf d.defaultSampling fixed = []) :
    HoldsDeclared (d.samplingDefaults valueOf).topP (Json.number? valueOf)
        (d.defaultSampling.get "top_p") ∧
      HoldsDeclared (d.samplingDefaults valueOf).topK Json.int?
        (d.defaultSampling.get "top_k") := by
  rw [CataloguedModel.samplingDefaults]
  generalize d.defaultSampling = block at hvalid ⊢
  cases block with
  | null => exact ⟨rfl, rfl⟩
  | bool _ | int _ | float _ | str _ | arr _ => exact absurd hvalid (List.cons_ne_nil _ _)
  | obj members =>
    refine ⟨holdsDeclared_filter rfl rfl ?_, holdsDeclared_filter rfl rfl ?_⟩
    · intro value hvalue hnull
      rw [Json.get] at hvalue
      simp only [validateDefaultSampling, List.append_eq_nil_iff, stated, hvalue,
        Option.getD_some, problemIf_eq_nil_iff, isBadTopP] at hvalid
      simpa [hnull] using hvalid.1.1.2
    · intro value hvalue hnull
      rw [Json.get] at hvalue
      simp only [validateDefaultSampling, List.append_eq_nil_iff, stated, hvalue,
        Option.getD_some, problemIf_eq_nil_iff, isBadTopK] at hvalid
      simpa [hnull] using hvalid.1.2

/-- A thinking block is valid where each part of it is. -/
structure ValidBlock (lower : Text → Text) (d : CataloguedModel) : Prop where
  modes : ∀ mode ∈ Json.texts (d.thinking.get "modes"), mode ∈ controlModes
  levels : ∀ level ∈ Json.texts (d.thinking.get "levels"),
    wordOf lower level ≠ [] ∧ (wordOf lower level).length ≤ maxModeLength ∧
      wordOf lower level ∉ controlModes
  maximum : ∀ maximum, d.thinkingBounds.2 = some maximum → 0 < maximum
  default : ∀ default, d.thinking.get "default" = some default → default ≠ .null →
    ∃ members mode, default = .obj members ∧ dictGet members "mode" = some (.str mode) ∧
      wordOf lower mode ≠ [] ∧
      wordOf lower mode ∈ Json.texts (d.thinking.get "modes") ++
        (Json.texts (d.thinking.get "levels")).map (wordOf lower) ∧
      (wordOf lower mode = limitedMode →
        ∀ tokens, dictGet members "tokens" = some (.int tokens) → 1 ≤ tokens ∧
          ∀ most, d.thinkingBounds.2 = some most →
            d.thinkingBounds.1.getD 1 ≤ tokens ∧ tokens ≤ most)
  limited : limitedMode ∈ Json.texts (d.thinking.get "modes") → d.thinkingBounds.2.isSome

theorem validBlock_of_valid {d : Declaration} {name : Text}
    (hvalid : validateThinking shown repr lower d.thinking d.maxOutputTokens = []) :
    ValidBlock lower (d.catalogued name) := by
  have hthinking : (d.catalogued name).thinking = match d.thinking with
      | .obj members => .obj members
      | _ => .null := rfl
  generalize d.thinking = block at hvalid hthinking
  cases block with
  | null =>
    exact ⟨by simp [hthinking, Json.get, Json.texts], by simp [hthinking, Json.get, Json.texts],
      by simp [CataloguedModel.thinkingBounds, hthinking, Json.get, Json.int?],
      by simp [hthinking, Json.get], by simp [hthinking, Json.get, Json.texts]⟩
  | bool _ | int _ | float _ | str _ | arr _ => exact absurd hvalid (List.cons_ne_nil _ _)
  | obj members =>
    simp only [validateThinking, List.append_eq_nil_iff, stated] at hvalid
    obtain ⟨⟨⟨⟨⟨⟨⟨⟨-, hmodes⟩, -⟩, hminimum⟩, hmaximum⟩, hbounds⟩, hlevels⟩, hdefault⟩, -⟩ := hvalid
    obtain ⟨hstated, hmodes⟩ := statedModes_valid hmodes
    obtain ⟨hread, hlevels⟩ := checkThinkingLevels_valid hlevels
    obtain ⟨hleast, -⟩ := positiveInt_valid hminimum
    obtain ⟨hmost, hpositive⟩ := positiveInt_valid hmaximum
    rw [hstated, hread, hleast, hmost] at hdefault
    rw [hstated, hleast, hmost] at hbounds
    simp only at hthinking
    refine ⟨?_, ?_, ?_, ?_, ?_⟩
    · rw [hthinking]
      exact hmodes
    · rw [hthinking]
      exact hlevels
    · rw [CataloguedModel.thinkingBounds, hthinking]
      exact hpositive
    · rw [CataloguedModel.thinkingBounds, hthinking]
      intro default hentry hnull
      have hvalid := checkThinkingDefault_valid hdefault hentry hnull
      rwa [texts_map] at hvalid
    · rw [CataloguedModel.thinkingBounds, hthinking]
      intro hoffered
      rw [checkThinkingBounds] at hbounds
      have hrequired := (List.append_eq_nil_iff.mp hbounds).2
      rw [problemIf_eq_nil_iff] at hrequired
      refine Option.isSome_iff_ne_none.mpr fun hnone => hrequired ⟨?_, hnone⟩
      exact List.mem_map_of_mem hoffered

/-- What an accepted declaration comes to. -/
theorem ValidBlock.consistent {d : CataloguedModel} (hlower : KeepsLowerCase lower)
    (h : ValidBlock lower d)
    (hsampling : HoldsDeclared (d.samplingDefaults valueOf).topP (Json.number? valueOf)
        (d.defaultSampling.get "top_p") ∧
      HoldsDeclared (d.samplingDefaults valueOf).topK Json.int?
        (d.defaultSampling.get "top_k")) : Consistent lower valueOf d := by
  have hmodes : d.thinkingModes = Json.texts (d.thinking.get "modes") :=
    List.filter_eq_self.mpr fun mode hmode => decide_eq_true (h.modes mode hmode)
  have hlevels : ∀ word, word ∈ d.thinkingLevels lower
      ↔ ∃ level ∈ Json.texts (d.thinking.get "levels"), wordOf lower level = word := by
    intro word
    rw [CataloguedModel.thinkingLevels, List.mem_eraseDups, List.filter_eq_self.mpr, List.mem_map]
    intro level hlevel
    exact decide_eq_true (hlower.strip_ne_nil (h.levels level hlevel).1)
  have hshort : ∀ mode ∈ controlModes, mode ≠ [] ∧ mode.length ≤ maxModeLength := by decide
  refine ⟨?_, ?_, ?_, h.maximum, ?_, hsampling.1, hsampling.2⟩
  · intro word hword
    rw [CataloguedModel.offered, hmodes]
    rcases List.mem_append.mp hword with hmode | hlevel
    · rw [hlower.wordOf_control (h.modes word hmode)]
      exact List.mem_append_left _ hmode
    · exact List.mem_append_right _ ((hlevels _).mpr ⟨word, hlevel, rfl⟩)
  · intro word hword
    rcases List.mem_append.mp hword with hmode | hlevel
    · have hcontrol := h.modes word hmode
      rw [hlower.wordOf_control hcontrol]
      exact hshort word hcontrol
    · obtain ⟨hne, hlength, -⟩ := h.levels word hlevel
      exact ⟨hne, hlength⟩
  · intro word hword
    rw [CataloguedModel.offered, hmodes] at hword
    rcases List.mem_append.mp hword with hmode | hlevel
    · exact ⟨word, List.mem_append_left _ hmode, hlower.wordOf_control (h.modes word hmode)⟩
    · obtain ⟨level, hlevel, heq⟩ := (hlevels word).mp hlevel
      exact ⟨level, List.mem_append_right _ hlevel, heq⟩
  · intro default hentry hnull
    obtain ⟨members, mode, rfl, hmode, hne, hword, hbudget⟩ := h.default default hentry hnull
    refine ⟨members, mode, rfl, hmode, hlower.strip_ne_nil hne, ?_, ?_⟩
    · rw [CataloguedModel.offered, hmodes]
      rcases List.mem_append.mp hword with hword | hword
      · exact List.mem_append_left _ hword
      · exact List.mem_append_right _ ((hlevels _).mpr (List.mem_map.mp hword))
    · intro hlimited tokens htokens
      obtain ⟨hpositive, hwithin⟩ := hbudget hlimited tokens htokens
      have hoffered : limitedMode ∈ Json.texts (d.thinking.get "modes") := by
        rw [hlimited] at hword
        rcases List.mem_append.mp hword with hword | hword
        · exact hword
        · obtain ⟨level, hlevel, heq⟩ := List.mem_map.mp hword
          exact absurd (heq ▸ by decide) (h.levels level hlevel).2.2
      obtain ⟨most, hmost⟩ := Option.isSome_iff_exists.mp (h.limited hoffered)
      obtain ⟨hleast, -⟩ := hwithin most hmost
      refine ⟨hpositive, fun minimum hminimum => ?_, fun most hmost => (hwithin most hmost).2⟩
      rwa [hminimum] at hleast

variable {embeddingProblems attachmentProblems : Json → List Text}

/-- **An accepted declaration works as declared** exactly when the thinking capability is named for
what can be asked for, and the default fits. -/
theorem worksAsDeclared_iff (hlower : KeepsLowerCase lower) {d : Declaration}
    (haccepted : validateDeclaration shown repr lower valueOf embeddingProblems attachmentProblems
      d = []) (name : Text) :
    WorksAsDeclared lower valueOf (d.catalogued name) ↔
      (Askable lower (d.catalogued name) → (d.catalogued name).can thinkingCapability = true) ∧
        DefaultFits lower (d.catalogued name) := by
  simp only [validateDeclaration, List.append_eq_nil_iff] at haccepted
  obtain ⟨⟨⟨⟨⟨⟨⟨⟨⟨⟨⟨-, -⟩, hthinking⟩, -⟩, -⟩, -⟩, hsampling⟩, -⟩, -⟩, -⟩, -⟩, -⟩ := haccepted
  exact ((validBlock_of_valid hthinking).consistent hlower
    (samplingDefaults_valid (d := d.catalogued name) hsampling)).works_iff

end Accepted

theorem keepsLowerCase_toLower : KeepsLowerCase (List.map Char.toLower) := by
  intro text hletters
  have hkept : ∀ c ∈ text, c.toLower = id c := by
    intro c hc
    have hlow := (hletters c hc).1
    refine dif_neg ?_
    rintro ⟨-, hupper⟩
    exact absurd (le_trans hlow hupper) (by decide)
  rw [List.map_congr_left hkept, List.map_id]

/-- A model that thinks within a budget, with a default of one. -/
def budgeted : Declaration where
  capabilities := .arr [.str "generate", .str thinkingCapability]
  maxOutputTokens := some 8192
  defaultMaxOutputTokens := some 4096
  thinking := .obj [("modes", .arr [.str autoMode, .str limitedMode]), ("max_tokens", .int 2048),
    ("levels", .arr [.str "High"]),
    ("default", .obj [("mode", .str "limited"), ("tokens", .int 1024)])]
  defaultSampling := .obj [("top_k", .int 40)]

/-- The declaration of one that names no budget in its default. -/
def unbudgeted : Declaration :=
  { budgeted with
    thinking := .obj [("modes", .arr [.str limitedMode]), ("max_tokens", .int 2048),
      ("default", .obj [("mode", .str "limited")])] }

/-- The declaration of one that does not name the capability. -/
def unnamed : Declaration := { budgeted with capabilities := .arr [.str "generate"] }

/-- The problems of a declaration, with nothing to say of embedding and attachments. -/
def problemsOf (d : Declaration) : List Text :=
  validateDeclaration (fun _ => []) id (List.map Char.toLower) (fun _ => none) (fun _ => [])
    (fun _ => []) d

theorem worksAsDeclared_budgeted :
    WorksAsDeclared (List.map Char.toLower) (fun _ => none) (budgeted.catalogued "opus") := by
  have haccepted : problemsOf budgeted = [] := by decide +kernel
  refine (worksAsDeclared_iff keepsLowerCase_toLower haccepted "opus").mpr
    ⟨fun _ => by decide, ?_⟩
  intro default mode hdefault hmode
  obtain rfl : .obj [("mode", .str "limited"), ("tokens", .int 1024)] = default :=
    Option.some.inj hdefault
  obtain rfl : "limited" = mode := Json.str.inj (Option.some.inj hmode)
  rw [if_pos (by decide)]
  refine ⟨1024, rfl, by decide, fun cap hcap => ?_⟩
  obtain rfl : 4096 = cap := Option.some.inj hcap
  decide

theorem accepted_unusable :
    (problemsOf unbudgeted = [] ∧
      ¬ WorksAsDeclared (List.map Char.toLower) (fun _ => none) (unbudgeted.catalogued "opus")) ∧
    problemsOf unnamed = [] ∧
      ¬ WorksAsDeclared (List.map Char.toLower) (fun _ => none) (unnamed.catalogued "opus") := by
  refine ⟨⟨by decide +kernel, fun hworks => ?_⟩, by decide +kernel, fun hworks => ?_⟩
  · obtain ⟨mode, setting, -, hnone, -, haccepted, -⟩ :=
      hworks.default (.obj [("mode", .str "limited")]) rfl (by simp)
    obtain rfl : ⟨limitedMode, none⟩ = setting := Option.some.inj (Except.ok.inj hnone)
    exact absurd haccepted (by decide)
  · obtain ⟨-, haccepted⟩ := hworks.words autoMode (by decide) autoMode rfl
    rw [if_neg (by decide)] at haccepted
    exact absurd haccepted (by decide)

end AiraGateway.Management
