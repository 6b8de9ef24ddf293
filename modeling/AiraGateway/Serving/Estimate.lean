import AiraGateway.Budgets.Ledger
import AiraGateway.Serving.Pricing

/-!
# What a request reserves

Before a request is dispatched its cost is not known. `estimate` bounds it: the output by the cap
that is sent, the input by the text, the attachments and the units of the request. Output is
priced at the output rate and all of the input at the input rate, of the set of rates the
estimated prompt selects.

* `bill_le_reserved`: a usage within the reserved tokens is billed at most what was reserved and
  the surcharge of its cache reads and writes, whatever rates its own prompt selects.
* `bill_exceeds_reserved`: without the surcharge it is not. A prompt written to a cache is billed
  at five quarters of the rate it was reserved at.
-/

namespace AiraGateway

/-! ### What a model declares -/

/-- The declarations an estimate reads. -/
structure ModelDeclaration where
  maxOutputTokens : Option ℤ := none
  defaultMaxOutputTokens : Option ℤ := none
  attachments : Json := .obj []

/-- What one attachment is reserved at when its model declares no figure. -/
def defaultAttachmentTokens (mediaType : Text) : ℤ :=
  let table : List (Text × ℤ) := [("image", 1600), ("application/pdf", 3000), ("text", 2000)]
  match table.lookup mediaType with
  | some tokens => tokens
  | none => (table.lookup (mediaType.takeWhile (· ≠ '/'))).getD 3000

namespace ModelDeclaration

/-- What the declared attachments are expected to cost in input tokens. -/
def attachmentTokens (d : ModelDeclaration) (mediaTypes : List Text) : ℤ :=
  match d.attachments.get "media_types" with
  | some (.obj declared) =>
    (mediaTypes.map fun mediaType =>
      match (Json.obj declared).get mediaType with
      | none => 0
      | some spec =>
        match spec.get "tokens" with
        | some (.int stated) => if 0 < stated then stated else defaultAttachmentTokens mediaType
        | _ => defaultAttachmentTokens mediaType).sum
  | _ => 0

/-- The output cap that is sent: the caller's, else the model's default. -/
def outputCap (d : ModelDeclaration) (requested : Option ℤ) : Option ℤ :=
  requested.or d.defaultMaxOutputTokens

/-- What bounds the answer: a cap that is not zero, else the most the model produces. -/
def outputBound (d : ModelDeclaration) (requested : Option ℤ) : Option ℤ :=
  ((d.outputCap requested).filter (· ≠ 0)).or d.maxOutputTokens

end ModelDeclaration

/-! ### The estimate -/

/-- The largest token figure the counters can hold. -/
def maxAccountableTokens : ℤ := 2 ^ 31 - 1

def charactersPerToken : ℤ := 4

/-- The characters of the texts at four to a token, rounded up. -/
def textTokens (texts : List Text) : ℤ :=
  -(-((texts.map List.length).sum : ℤ) / charactersPerToken)

/-- What is known of a request before it is dispatched. -/
structure EstimateArgs where
  maxOutputTokens : Option ℤ
  attachments : List Text := []
  units : ℤ := 1
  inputTexts : List Text := []
  extraTokens : ℤ := 0
  inputUnits : ℤ := 0
  answersInTokens : Bool := true

variable (budgetEstimateOutputTokens : ℤ) (declaration : ModelDeclaration) (args : EstimateArgs)

/-- The output tokens held back: what bounds the answer, else the installation's estimate and a
thinking budget. -/
def estimatedOutput : ℤ :=
  let tokens := if args.answersInTokens then
      (declaration.outputBound args.maxOutputTokens).getD
        (budgetEstimateOutputTokens + args.extraTokens)
    else 0
  max 0 tokens

/-- The input tokens held back: text, units that are no text, and attachments. -/
def estimatedInput : ℤ :=
  textTokens args.inputTexts + max 0 args.inputUnits
    + max 0 (declaration.attachmentTokens args.attachments)

/-- `output` of the reserved tokens at the output rate, the rest at the input rate. -/
def reservedCost (tokens output : ℤ) (price : Price) : ℤ :=
  let rates := price.ratesFor (tokens - output)
  costNanos output rates.outputPerMillionNanos
    + costNanos (tokens - output) rates.inputPerMillionNanos

/-- What the request is expected to consume. -/
def estimate (price : Option Price) : Amounts :=
  let output := estimatedOutput budgetEstimateOutputTokens declaration args
  let tokens := min (output + estimatedInput declaration args) maxAccountableTokens
  -- an unpriced model constrains no cost limit
  let cost := match price with
    | none => 0
    | some price => reservedCost tokens (min output tokens) price
  ⟨tokens, args.units, cost⟩

/-! ### The bill -/

variable {budgetEstimateOutputTokens declaration args}

theorem textTokens_nonneg (texts : List Text) : 0 ≤ textTokens texts := by
  unfold textTokens charactersPerToken
  omega

theorem estimatedInput_nonneg : 0 ≤ estimatedInput declaration args := by
  have htext := textTokens_nonneg args.inputTexts
  unfold estimatedInput
  omega

/-- An estimate that is not clamped prices the estimated output and the estimated input. -/
theorem estimate_costNanos {price : Price}
    (hfits : estimatedOutput budgetEstimateOutputTokens declaration args
      + estimatedInput declaration args ≤ maxAccountableTokens) :
    (estimate budgetEstimateOutputTokens declaration args (some price)).costNanos
      = requestCostNanos (estimatedInput declaration args)
          (estimatedOutput budgetEstimateOutputTokens declaration args)
          (price.ratesFor (estimatedInput declaration args)).inputPerMillionNanos
          (price.ratesFor (estimatedInput declaration args)).outputPerMillionNanos := by
  have hinput : 0 ≤ estimatedInput declaration args := estimatedInput_nonneg
  have hrest : estimatedOutput budgetEstimateOutputTokens declaration args
      + estimatedInput declaration args
      - estimatedOutput budgetEstimateOutputTokens declaration args
      = estimatedInput declaration args := by omega
  simp only [estimate, reservedCost, min_eq_left hfits,
    min_eq_left (show estimatedOutput budgetEstimateOutputTokens declaration args
      ≤ estimatedOutput budgetEstimateOutputTokens declaration args
        + estimatedInput declaration args by omega), hrest, requestCostNanos]
  exact add_comm _ _

/-- A longer prompt never selects lower rates for input or output. -/
theorem Price.ratesFor_mono {price : Price} (hlong : ∀ long, price.longContext = some long →
      price.inputPerMillionNanos ≤ long.inputPerMillionNanos ∧
        price.outputPerMillionNanos ≤ long.outputPerMillionNanos) {m n : ℤ} (hmn : m ≤ n) :
    (price.ratesFor m).inputPerMillionNanos ≤ (price.ratesFor n).inputPerMillionNanos ∧
      (price.ratesFor m).outputPerMillionNanos ≤ (price.ratesFor n).outputPerMillionNanos := by
  unfold Price.ratesFor
  cases hl : price.longContext with
  | none => simp
  | some long =>
    cases price.longContextThreshold with
    | none => simp
    | some threshold =>
      have hrates := hlong long hl
      dsimp only
      split_ifs <;> first | exact hrates | exact ⟨le_refl _, le_refl _⟩ | omega

/-- **A bill within the reserved tokens is at most the reservation and its cache surcharge**, and
at most the reservation where no cache read or write costs more than ordinary input. -/
theorem bill_le_reserved {price : Price} {usage : CanonicalUsage}
    (hlong : ∀ long, price.longContext = some long →
      price.inputPerMillionNanos ≤ long.inputPerMillionNanos ∧
        price.outputPerMillionNanos ≤ long.outputPerMillionNanos)
    (hfits : estimatedOutput budgetEstimateOutputTokens declaration args
      + estimatedInput declaration args ≤ maxAccountableTokens)
    (hcompletion : usage.completionTokens
      ≤ estimatedOutput budgetEstimateOutputTokens declaration args)
    (hprompt : usage.promptTokens ≤ estimatedInput declaration args)
    (hcached : 0 ≤ usage.cachedInputTokens) (hwrites : 0 ≤ usage.cacheWriteTokens)
    (hsplit : usage.cachedInputTokens + usage.cacheWriteTokens ≤ usage.promptTokens) :
    (price.ratesFor usage.promptTokens).costNanos usage
      ≤ (estimate budgetEstimateOutputTokens declaration args (some price)).costNanos
        + (price.ratesFor usage.promptTokens).cacheSurcharge usage ∧
    ((price.ratesFor usage.promptTokens).CacheNoDearer usage →
      (price.ratesFor usage.promptTokens).costNanos usage
        ≤ (estimate budgetEstimateOutputTokens declaration args (some price)).costNanos) := by
  -- the bill's own prompt is shorter than the estimated one and selects no higher rates
  obtain ⟨hinputRate, houtputRate⟩ := Price.ratesFor_mono hlong hprompt
  have hbill := (price.ratesFor usage.promptTokens).costNanos_le hcached hwrites hsplit
  have hinput := costNanos_mono hprompt hinputRate
  have houtput := costNanos_mono hcompletion houtputRate
  have hreserved : (price.ratesFor usage.promptTokens).costNanos usage
      ≤ (estimate budgetEstimateOutputTokens declaration args (some price)).costNanos
        + (price.ratesFor usage.promptTokens).cacheSurcharge usage := by
    rw [estimate_costNanos hfits]
    unfold requestCostNanos at hbill ⊢
    omega
  refine ⟨hreserved, fun hno => ?_⟩
  have hzero := Rates.cacheSurcharge_of_noDearer hno
  omega

/-- The conditions can be met with a second set of rates, a read and a write. -/
theorem bill_le_reserved_long :
    let price : Price :=
      { inputPerMillionNanos := 3000000000, outputPerMillionNanos := 15000000000,
        cachedInputPerMillionNanos := some 300000000, longContextThreshold := some 1,
        longContext := some
          { inputPerMillionNanos := 6000000000, outputPerMillionNanos := 22500000000 } }
    let args : EstimateArgs := { maxOutputTokens := some 8, inputTexts := ["sixteen letters."] }
    let usage : CanonicalUsage :=
      { promptTokens := 4, completionTokens := 5, cachedInputTokens := 2, cacheWriteTokens := 1 }
    (price.ratesFor usage.promptTokens).costNanos usage
      ≤ (estimate 1024 {} args (some price)).costNanos
        + (price.ratesFor usage.promptTokens).cacheSurcharge usage ∧
    ((price.ratesFor usage.promptTokens).CacheNoDearer usage →
      (price.ratesFor usage.promptTokens).costNanos usage
        ≤ (estimate 1024 {} args (some price)).costNanos) :=
  bill_le_reserved (by simp) (by decide) (by decide) (by decide) (by decide) (by decide)
    (by decide)

/-- **A written cache is billed above its reservation**: four tokens of prompt, all of them
written for five minutes, are reserved at 12 000 nano-units and billed at 15 000. -/
theorem bill_exceeds_reserved :
    let price : Price :=
      { inputPerMillionNanos := 3000000000, outputPerMillionNanos := 15000000000 }
    let args : EstimateArgs := { maxOutputTokens := some 8, inputTexts := ["sixteen letters."] }
    let usage : CanonicalUsage :=
      { promptTokens := 4, completionTokens := 8, cacheWriteTokens := 4 }
    usage.completionTokens ≤ estimatedOutput 1024 {} args ∧
      usage.promptTokens ≤ estimatedInput {} args ∧
      ¬ (price.ratesFor usage.promptTokens).costNanos usage
        ≤ (estimate 1024 {} args (some price)).costNanos := by
  decide

end AiraGateway
