import AiraGateway.Library.Json
import AiraGateway.Pipeline.StrictReaders
import AiraGateway.Serving.Estimate
import Mathlib.Data.Rat.Init
import Mathlib.Algebra.Order.Ring.Rat

/-!
# A thinking setting and the model that will serve it

What a model declares of its thinking is read off the declaration (`CataloguedModel`): control
modes, which are the gateway's, level words, which are the vendor's, the bounds of a `limited`
budget and a default. `resolve` gives the setting that is sent: the caller's where the model offers
it, and the model's default where the caller says nothing.

Lower-casing a text and the value of a number with a fraction are parameters.

* `resolve_some_iff`: the settings of a caller's that are accepted, unchanged.
* `reservedTokens_spec`: what is reserved for one covers its budget.
-/

namespace AiraGateway

/-! ### What is declared -/

/-- The settings that are the gateway's own. -/
def disabledMode : Text := "disabled"

def limitedMode : Text := "limited"

def autoMode : Text := "auto"

def controlModes : List Text := [disabledMode, limitedMode, autoMode]

def thinkingCapability : Text := "thinking"

/-- What is read of a catalogued model for its thinking and its sampling. -/
structure CataloguedModel extends ModelDeclaration where
  name : Text := []
  declared : Bool := true
  capabilities : List Text := []
  thinking : Json := .null
  defaultSampling : Json := .null

/-- A whole number. -/
def Json.int? : Option Json → Option ℤ
  | some (.int n) => some n
  | _ => none

/-- A number, as its value. -/
def Json.number? (valueOf : Text → Option ℚ) : Option Json → Option ℚ
  | some (.int n) => some n
  | some (.float text) => valueOf text
  | _ => none

/-- The texts of a list. -/
def Json.texts : Option Json → List Text
  | some (.arr items) => items.filterMap fun
    | .str text => some text
    | _ => none
  | _ => []

structure SamplingDefaults where
  topP : Option ℚ := none
  topK : Option ℤ := none
  deriving DecidableEq

section Thinking

variable (lower : Text → Text) (valueOf : Text → Option ℚ)

/-- A word as it is compared: stripped and lower-cased. -/
def wordOf (raw : Text) : Text := lower (strip raw)

namespace CataloguedModel

def can (d : CataloguedModel) (capability : Text) : Bool := capability ∈ d.capabilities

/-- The control settings the model offers. -/
def thinkingModes (d : CataloguedModel) : List Text :=
  (Json.texts (d.thinking.get "modes")).filter (· ∈ controlModes)

/-- The vendor's level words, in declared order. -/
def thinkingLevels (d : CataloguedModel) : List Text :=
  (((Json.texts (d.thinking.get "levels")).filter (strip · ≠ [])).map (wordOf lower)).eraseDups

/-- Every word a caller may ask for. -/
def offered (d : CataloguedModel) : List Text := d.thinkingModes ++ d.thinkingLevels lower

def offersThinking (d : CataloguedModel) : Bool := d.offered lower ≠ []

/-- The bounds of a `limited` budget. -/
def thinkingBounds (d : CataloguedModel) : Option ℤ × Option ℤ :=
  (Json.int? (d.thinking.get "min_tokens"), Json.int? (d.thinking.get "max_tokens"))

/-- What the model does when the caller says nothing. -/
def thinkingDefault (d : CataloguedModel) : Option (List (Text × Json)) :=
  match d.thinking.get "default" with
  | some (.obj default) => some default
  | _ => none

/-- The declared sampling defaults, each where it is a value the control can take. -/
def samplingDefaults (d : CataloguedModel) : SamplingDefaults where
  topP := (Json.number? valueOf (d.defaultSampling.get "top_p")).filter fun p => 0 < p ∧ p ≤ 1
  topK := (Json.int? (d.defaultSampling.get "top_k")).filter (1 ≤ ·)

end CataloguedModel

/-! ### Validating and resolving -/

/-- Why a thinking setting is refused, with what the refusal names. -/
inductive ThinkingRejected
  | notAWord
  | modeNotOffered (model mode : Text) (offered : List Text)
  | unexpectedTokens (mode : Text)
  | missingTokens
  | notPositive (tokens : ℤ)
  | tooLow (tokens minimum : ℤ)
  | tooHigh (tokens maximum : ℤ)
  | unaccountable (tokens : ℤ)
  | fillsTheAllowance (tokens cap : ℤ)
  deriving DecidableEq

/-- The code a client switches on. -/
def ThinkingRejected.code : ThinkingRejected → Text
  | notAWord | modeNotOffered _ _ _ => "INVALID_THINKING_MODE"
  | unexpectedTokens _ => "UNEXPECTED_THINKING_TOKEN_COUNT"
  | missingTokens => "MISSING_THINKING_TOKEN_COUNT"
  | notPositive _ | tooLow _ _ => "THINKING_TOKEN_COUNT_TOO_LOW"
  | tooHigh _ _ | unaccountable _ | fillsTheAllowance _ _ => "THINKING_TOKEN_COUNT_TOO_HIGH"

/-- A mode is a word of at most so many characters. -/
def maxModeLength : ℕ := 32

/-- Normalise a client's mode word. -/
def modeFrom (raw : Text) : Except ThinkingRejected Text :=
  let mode := wordOf lower raw
  if mode = [] ∨ maxModeLength < mode.length then .error .notAWord else .ok mode

/-- What the model declares as its default, as a setting. -/
def defaultFor (d : CataloguedModel) : Option Thinking :=
  d.thinkingDefault.bind fun default =>
    match dictGet default "mode" with
    | some (.str mode) =>
      if strip mode = [] then none
      else some ⟨wordOf lower mode, Json.int? (dictGet default "tokens")⟩
    | _ => none

def limitedBudget (tokens : Option ℤ) (d : CataloguedModel) : Except ThinkingRejected ℤ :=
  match tokens with
  | none => .error .missingTokens
  | some tokens =>
    if tokens < 1 then .error (.notPositive tokens)
    else match d.thinkingBounds.1.filter (tokens < ·), d.thinkingBounds.2.filter (· < tokens) with
      | some minimum, _ => .error (.tooLow tokens minimum)
      | none, some maximum => .error (.tooHigh tokens maximum)
      | none, none =>
        if maxAccountableTokens < tokens then .error (.unaccountable tokens) else .ok tokens

/-- A caller's setting against what the model offers. -/
def validated (requested : Thinking) (d : CataloguedModel) :
    Except ThinkingRejected (Option Thinking) :=
  if requested.mode = disabledMode ∧ !d.offersThinking lower then
    -- already so: nothing to send
    if requested.tokens.isSome then .error (.unexpectedTokens requested.mode) else .ok none
  else if !d.can thinkingCapability ∨ requested.mode ∉ d.offered lower then
    .error (.modeNotOffered d.name requested.mode (d.offered lower))
  else if requested.mode = limitedMode then do
    let tokens ← limitedBudget requested.tokens d
    .ok (some ⟨requested.mode, some tokens⟩)
  else if requested.tokens.isSome then .error (.unexpectedTokens requested.mode)
  else .ok (some ⟨requested.mode, none⟩)

/-- The setting to send, or nothing. -/
def resolve (requested : Option Thinking) (d : CataloguedModel) :
    Except ThinkingRejected (Option Thinking) :=
  match requested with
  | none => .ok (defaultFor lower d)
  | some requested => validated lower requested d

/-- Refuse a `limited` budget that fills the allowance it is drawn from. -/
def checkBudgetFits (setting : Option Thinking) (cap : Option ℤ) : Except ThinkingRejected Unit :=
  match setting, cap with
  | some ⟨mode, some tokens⟩, some cap =>
    if mode = limitedMode ∧ cap ≤ tokens then .error (.fillsTheAllowance tokens cap) else .ok ()
  | _, _ => .ok ()

/-- What the reservation adds for a setting. -/
def reservedTokens (setting : Option Thinking) (d : CataloguedModel) : ℤ :=
  match setting with
  | none => 0
  | some setting =>
    if setting.mode = disabledMode then 0
    else if setting.mode = limitedMode then setting.tokens.getD 0
    else d.thinkingBounds.2.getD 0

/-- Why a candidate may not serve a setting. -/
inductive NotPermitted
  | cannot (declared : Bool) (mode : Text)
  | outOfBounds (minimum maximum : Option ℤ) (tokens : ℤ)
  deriving DecidableEq

def permittedBy (setting : Option Thinking) (d : CataloguedModel) : Option NotPermitted :=
  match setting with
  | none => none
  | some setting =>
    if setting.mode = disabledMode then none
    else if !d.can thinkingCapability ∨ setting.mode ∉ d.offered lower then
      some (.cannot d.declared setting.mode)
    else if setting.mode = limitedMode then
      match setting.tokens with
      | none => none
      | some tokens =>
        let (minimum, maximum) := d.thinkingBounds
        if minimum.any (tokens < ·) ∨ maximum.any (· < tokens) then
          some (.outOfBounds minimum maximum tokens)
        else none
    else none

/-! ### What is accepted -/

/-- A budget within the declared bounds and what the gateway can account for. -/
structure WithinBounds (d : CataloguedModel) (tokens : ℤ) : Prop where
  positive : 1 ≤ tokens
  minimum : ∀ minimum, d.thinkingBounds.1 = some minimum → minimum ≤ tokens
  maximum : ∀ maximum, d.thinkingBounds.2 = some maximum → tokens ≤ maximum
  accountable : tokens ≤ maxAccountableTokens

/-- A setting with a budget exactly where its mode takes one. -/
def BudgetFits (d : CataloguedModel) (setting : Thinking) : Prop :=
  if setting.mode = limitedMode then ∃ tokens, setting.tokens = some tokens ∧ WithinBounds d tokens
  else setting.tokens = none

theorem limitedBudget_eq_ok_iff {d : CataloguedModel} {tokens : Option ℤ} {budget : ℤ} :
    limitedBudget tokens d = .ok budget ↔ tokens = some budget ∧ WithinBounds d budget := by
  cases tokens with
  | none => simp [limitedBudget]
  | some tokens =>
    rw [limitedBudget]
    constructor
    · intro h
      split at h
      · simp at h
      · next hpositive =>
        split at h
        · simp at h
        · simp at h
        · next hmin hmax =>
          split at h
          · simp at h
          · next haccountable =>
            obtain rfl : tokens = budget := by simpa using h
            refine ⟨rfl, by omega, fun minimum hminimum => ?_, fun maximum hmaximum => ?_,
              by omega⟩
            · simp [hminimum] at hmin
              omega
            · simp [hmaximum] at hmax
              omega
    · rintro ⟨heq, hpositive, hminimum, hmaximum, haccountable⟩
      obtain rfl : tokens = budget := by simpa using heq
      have hmin : d.thinkingBounds.1.filter (tokens < ·) = none := by
        rw [Option.filter_eq_none_iff]
        intro minimum hsome
        have hle := hminimum minimum hsome
        simp only [decide_eq_true_eq]
        omega
      have hmax : d.thinkingBounds.2.filter (· < tokens) = none := by
        rw [Option.filter_eq_none_iff]
        intro maximum hsome
        have hle := hmaximum maximum hsome
        simp only [decide_eq_true_eq]
        omega
      rw [if_neg (by omega), hmin, hmax]
      exact if_neg (by omega)

variable {lower}

/-- **The settings of a caller's that are accepted** are those the model offers with a budget that
fits, and they are sent as they are. -/
theorem resolve_some_iff {d : CataloguedModel} {requested setting : Thinking} :
    resolve lower (some requested) d = .ok (some setting) ↔
      setting = requested ∧ d.can thinkingCapability = true ∧ requested.mode ∈ d.offered lower
        ∧ BudgetFits d requested := by
  obtain ⟨mode, tokens⟩ := requested
  rw [resolve, validated]
  by_cases hable : d.can thinkingCapability = true ∧ mode ∈ d.offered lower
  · have hoffers : d.offersThinking lower = true := by
      have hne : d.offered lower ≠ [] := List.ne_nil_of_mem hable.2
      simpa [CataloguedModel.offersThinking] using hne
    by_cases hlimited : mode = limitedMode
    · cases hbudget : limitedBudget tokens d with
      | error refusal =>
        have hnone : ¬ ∃ budget, tokens = some budget ∧ WithinBounds d budget := by
          rintro ⟨budget, hfits⟩
          rw [limitedBudget_eq_ok_iff.mpr hfits] at hbudget
          simp at hbudget
        simp [hable, hoffers, hlimited ▸ hable.2, hlimited, BudgetFits, hnone,
          bind, Except.bind]
      | ok budget =>
        obtain ⟨rfl, hwithin⟩ := limitedBudget_eq_ok_iff.mp hbudget
        simp [hable, hoffers, hlimited ▸ hable.2, hlimited, BudgetFits, hwithin, bind,
          Except.bind, eq_comm]
    · cases tokens with
      | none => simp [hable, hoffers, hlimited, BudgetFits, eq_comm]
      | some tokens => simp [hable, hoffers, hlimited, BudgetFits]
  · have hrefused : (!d.can thinkingCapability) = true ∨ mode ∉ d.offered lower := by
      rw [not_and_or] at hable
      simpa using hable
    have hright : ¬ (setting = ⟨mode, tokens⟩ ∧ d.can thinkingCapability = true
        ∧ mode ∈ d.offered lower ∧ BudgetFits d ⟨mode, tokens⟩) :=
      fun h => hable ⟨h.2.1, h.2.2.1⟩
    have hleft : ∀ other : Bool, (if mode = disabledMode ∧ other = true then
        if tokens.isSome then Except.error (.unexpectedTokens mode) else .ok none
        else (.error (.modeNotOffered d.name mode (d.offered lower)) :
          Except ThinkingRejected (Option Thinking))) ≠ .ok (some setting) := by
      intro other
      split
      · split <;> simp
      · simp
    refine iff_of_false (fun h => ?_) hright
    simp only [if_pos hrefused] at h
    exact hleft _ h

/-- What is reserved for a setting that fits covers its budget, and is no more than the model's
maximum. -/
theorem reservedTokens_spec {d : CataloguedModel} {setting : Thinking}
    (hfits : BudgetFits d setting) (hmode : setting.mode ≠ disabledMode)
    (hmaximum : ∀ maximum, d.thinkingBounds.2 = some maximum → 0 ≤ maximum) :
    setting.tokens.getD 0 ≤ reservedTokens (some setting) d ∧
      ∀ maximum, d.thinkingBounds.2 = some maximum →
        reservedTokens (some setting) d ≤ maximum := by
  rw [reservedTokens, if_neg hmode]
  by_cases hlimited : setting.mode = limitedMode
  · obtain ⟨tokens, htokens, hwithin⟩ := (if_pos hlimited).mp hfits
    rw [if_pos hlimited, htokens]
    exact ⟨le_rfl, hwithin.maximum⟩
  · have htokens : setting.tokens = none := (if_neg hlimited).mp hfits
    rw [if_neg hlimited, htokens]
    cases hbound : d.thinkingBounds.2 with
    | none => simp
    | some maximum => simpa using hmaximum maximum hbound

theorem checkBudgetFits_iff {mode : Text} {tokens cap : ℤ} :
    checkBudgetFits (some ⟨mode, some tokens⟩) (some cap) = .ok () ↔
      (mode = limitedMode → tokens < cap) := by
  rw [checkBudgetFits]
  by_cases hfills : mode = limitedMode ∧ cap ≤ tokens
  · simp [hfills]
  · rw [if_neg hfills, not_and, not_le] at *
    simpa using hfills

/-- A setting that is accepted passes every hop of the chain that would serve it. -/
theorem permittedBy_eq_none {d : CataloguedModel} {setting : Thinking}
    (hcan : d.can thinkingCapability = true) (hoffered : setting.mode ∈ d.offered lower)
    (hfits : BudgetFits d setting) : permittedBy lower (some setting) d = none := by
  rw [permittedBy]
  by_cases hdisabled : setting.mode = disabledMode
  · simp [hdisabled]
  · by_cases hlimited : setting.mode = limitedMode
    · obtain ⟨tokens, htokens, hwithin⟩ := (if_pos hlimited).mp hfits
      have hmin : d.thinkingBounds.1.any (tokens < ·) = false := by
        rw [Bool.eq_false_iff, ne_eq, Option.any_eq_true]
        rintro ⟨minimum, hminimum, hbelow⟩
        have hle := hwithin.minimum minimum hminimum
        rw [decide_eq_true_eq] at hbelow
        omega
      have hmax : d.thinkingBounds.2.any (· < tokens) = false := by
        rw [Bool.eq_false_iff, ne_eq, Option.any_eq_true]
        rintro ⟨maximum, hmaximum, habove⟩
        have hle := hwithin.maximum maximum hmaximum
        rw [decide_eq_true_eq] at habove
        omega
      simp [hcan, hlimited ▸ hoffered, hlimited, htokens, hmin, hmax]
    · simp [hdisabled, hlimited, hcan, hoffered]

end Thinking

end AiraGateway
