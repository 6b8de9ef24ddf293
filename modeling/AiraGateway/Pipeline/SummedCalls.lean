import AiraGateway.Library.Dict
import AiraGateway.Pipeline.Redaction
import AiraGateway.Serving.Pricing
import Mathlib.Algebra.BigOperators.Group.Finset.Piecewise
import Mathlib.Algebra.BigOperators.Ring.List

/-!
# The calls a step made over a batch

A step runs once for each text of a batch, and its model calls are recorded as one per model, with
their usage summed figure by figure (`summed`). No figure is lost or counted twice
(`sum_summed`). The sum is to price as its calls do, up to the truncation of the divisions
(`PricesTheSame`). It does at all rates if and only if no figure of a call is cut off where it is
billed, and every call that bills anything is on the same side of the prompt length above which
the second set of rates applies as the sum is (`pricesTheSame_iff`). A batch of short texts whose
prompts add up to a long one is billed at the rates of a long prompt (`batch_misprices`).
-/

namespace AiraGateway

/-! ### Sums -/

/-- The usage of calls added up, figure by figure. -/
def total (calls : List ModelCall) : CanonicalUsage where
  promptTokens := (calls.map (·.usage.promptTokens)).sum
  completionTokens := (calls.map (·.usage.completionTokens)).sum
  cachedInputTokens := (calls.map (·.usage.cachedInputTokens)).sum
  cacheWriteTokens := (calls.map (·.usage.cacheWriteTokens)).sum
  longCacheWriteTokens := (calls.map (·.usage.longCacheWriteTokens)).sum
  reasoningTokens := (calls.map (·.usage.reasoningTokens)).sum

/-- The calls by the model that answered them. -/
def byModel (calls : List ModelCall) : List (Text × List ModelCall) :=
  calls.foldl (fun groups call =>
    dictSet groups call.model ((dictGet groups call.model).getD [] ++ [call])) []

/-- One call per model a step called over a batch. -/
def summed (step : Text) (calls : List ModelCall) : List ModelCall :=
  (byModel calls).map fun (model, made) => ⟨step, model, total made⟩

/-- The figures of a usage. -/
def usageFigures : List (CanonicalUsage → ℤ) :=
  [(·.promptTokens), (·.completionTokens), (·.cachedInputTokens), (·.cacheWriteTokens),
    (·.longCacheWriteTokens), (·.reasoningTokens)]

theorem figure_total {figure : CanonicalUsage → ℤ} (h : figure ∈ usageFigures)
    (calls : List ModelCall) :
    figure (total calls) = (calls.map fun call => figure call.usage).sum := by
  simp only [usageFigures, List.mem_cons, List.not_mem_nil, or_false] at h
  obtain rfl | rfl | rfl | rfl | rfl | rfl := h <;> rfl

/-- The group of a model holds the calls it answered, in their order. -/
theorem dictGet_byModel (calls : List ModelCall) (model : Text) :
    dictGet (byModel calls) model =
      if calls.filter (·.model = model) = [] then none
      else some (calls.filter (·.model = model)) := by
  induction calls using List.reverseRecOn with
  | nil => rfl
  | append_singleton calls call ih =>
    rw [byModel, List.foldl_append, List.foldl_cons, List.foldl_nil, dictGet_dictSet]
    change (if model = call.model then
      some ((dictGet (byModel calls) call.model).getD [] ++ [call]) else
        dictGet (byModel calls) model) = _
    rw [List.filter_append]
    by_cases hsame : call.model = model
    · subst hsame
      have hlast : [call].filter (fun made => made.model = call.model) = [call] := by
        simp
      have hsome : calls.filter (fun made => made.model = call.model) ++ [call] ≠ [] := by
        simp
      rw [if_pos rfl, ih, hlast, if_neg hsome]
      by_cases hnone : calls.filter (fun made => made.model = call.model) = []
      · rw [if_pos hnone, hnone, Option.getD_none]
      · rw [if_neg hnone, Option.getD_some]
    · rw [if_neg (Ne.symm hsame), ih]
      simp [hsame]

theorem nodup_keys_byModel (calls : List ModelCall) : ((byModel calls).map (·.1)).Nodup := by
  induction calls using List.reverseRecOn with
  | nil => exact List.nodup_nil
  | append_singleton calls call ih =>
    rw [byModel, List.foldl_append]
    exact nodup_keys_dictSet ih

theorem mem_byModel_iff {calls : List ModelCall} {model : Text} {made : List ModelCall} :
    (model, made) ∈ byModel calls ↔ made = calls.filter (·.model = model) ∧ made ≠ [] := by
  rw [← dictGet_eq_some_iff (nodup_keys_byModel calls), dictGet_byModel]
  split_ifs with hnone
  · rw [hnone]
    constructor
    · intro h
      exact h.elim
    · rintro ⟨rfl, hne⟩
      exact absurd rfl hne
  · rw [Option.some_inj]
    exact ⟨fun h => h ▸ ⟨rfl, hnone⟩, fun h => h.1.symm⟩

/-- What is added up model by model is what is added up at once. -/
private theorem sum_filter_model (figure : ModelCall → ℤ) {models : Finset Text}
    {calls : List ModelCall} (h : ∀ call ∈ calls, call.model ∈ models) :
    ∑ model ∈ models, ((calls.filter (·.model = model)).map figure).sum =
      (calls.map figure).sum := by
  induction calls with
  | nil => simp
  | cons call rest ih =>
    rw [List.forall_mem_cons] at h
    have hhead : ∀ model, (((call :: rest).filter (·.model = model)).map figure).sum =
        (if call.model = model then figure call else 0) +
          ((rest.filter (·.model = model)).map figure).sum := by
      intro model
      by_cases hsame : call.model = model
      · simp [hsame]
      · simp [hsame]
    rw [Finset.sum_congr rfl fun model _ => hhead model, Finset.sum_add_distrib, ih h.2,
      Finset.sum_ite_eq, if_pos h.1, List.map_cons, List.sum_cons]

/-- **No figure is lost or counted twice** across the models of a batch. -/
theorem sum_summed {figure : CanonicalUsage → ℤ} (h : figure ∈ usageFigures) (step : Text)
    (calls : List ModelCall) :
    ((summed step calls).map fun row => figure row.usage).sum =
      (calls.map fun call => figure call.usage).sum := by
  have hmodels : ∀ call ∈ calls, call.model ∈ ((byModel calls).map (·.1)).toFinset := by
    intro call hcall
    have hmade : call ∈ calls.filter (·.model = call.model) := by
      simpa using hcall
    have hgroup := mem_byModel_iff.mpr ⟨rfl, List.ne_nil_of_mem hmade⟩
    exact List.mem_toFinset.mpr (List.mem_map.mpr ⟨_, hgroup, rfl⟩)
  have hrows : (summed step calls).map (fun row => figure row.usage) =
      (byModel calls).map fun group =>
        ((calls.filter (·.model = group.1)).map fun call => figure call.usage).sum := by
    rw [summed, List.map_map]
    refine List.map_congr_left fun group hgroup => ?_
    obtain ⟨model, made⟩ := group
    rw [← (mem_byModel_iff.mp hgroup).1]
    exact figure_total h made
  rw [hrows, ← sum_filter_model (fun call => figure call.usage) hmodels,
    List.sum_toFinset _ (nodup_keys_byModel calls), List.map_map]
  rfl

/-! ### What a usage bills -/

/-- What a cost is the sum of. -/
inductive PricedTerm where
  | input
  | output
  | cachedInput
  | cacheWrite
  | longCacheWrite
  deriving DecidableEq

def PricedTerm.all : List PricedTerm := [input, output, cachedInput, cacheWrite, longCacheWrite]

/-- The tokens a term of the cost bills. -/
def CanonicalUsage.billed (usage : CanonicalUsage) : PricedTerm → ℤ
  | .input => usage.uncachedInputTokens
  | .output => max 0 usage.completionTokens
  | .cachedInput => max 0 usage.cachedInputTokens
  | .cacheWrite => max 0 (usage.cacheWriteTokens - longWrites usage)
  | .longCacheWrite => longWrites usage

/-- The rate a term of the cost is billed at. -/
def Rates.rateOf (r : Rates) : PricedTerm → ℤ
  | .input => r.inputPerMillionNanos
  | .output => r.outputPerMillionNanos
  | .cachedInput => r.cachedInputRate
  | .cacheWrite => r.cacheWriteRate
  | .longCacheWrite => r.longCacheWriteRate

/-- How many terms of a cost are more than nothing before they are truncated. -/
def Rates.pricedTerms (r : Rates) (usage : CanonicalUsage) : ℕ :=
  PricedTerm.all.countP fun term => 0 < usage.billed term ∧ 0 < r.rateOf term

/-- What a call costs at a price. -/
def Price.costOf (price : Price) (usage : CanonicalUsage) : ℤ :=
  (price.ratesFor usage.promptTokens).costNanos usage

/-- **The sum prices as its calls do**, up to what the divisions truncate: less than one nano-unit
for each term of each call that is priced. -/
def PricesTheSame (price : Price) (sum : CanonicalUsage) (calls : List ModelCall) : Prop :=
  let drift := price.costOf sum - (calls.map fun call => price.costOf call.usage).sum
  drift = 0 ∨ |drift| < (calls.map fun call =>
    (price.ratesFor call.usage.promptTokens).pricedTerms call.usage).sum

instance (price : Price) (sum : CanonicalUsage) (calls : List ModelCall) :
    Decidable (PricesTheSame price sum calls) :=
  inferInstanceAs (Decidable (_ = (0 : ℤ) ∨ |_| < _))

theorem CanonicalUsage.billed_nonneg (usage : CanonicalUsage) (term : PricedTerm) :
    0 ≤ usage.billed term := by
  cases term with
  | input => exact le_max_left ..
  | output => exact le_max_left ..
  | cachedInput => exact le_max_left ..
  | cacheWrite => exact le_max_left ..
  | longCacheWrite => exact le_min (le_max_left ..) (le_max_left ..)

/-- A cost, term by term. -/
theorem Rates.costNanos_eq_sum (r : Rates) (usage : CanonicalUsage) :
    r.costNanos usage =
      (PricedTerm.all.map fun term => AiraGateway.costNanos (usage.billed term)
        (r.rateOf term)).sum := by
  rw [Rates.costNanos, requestCostNanos]
  simp only [PricedTerm.all, List.map_cons, List.map_nil, List.sum_cons, List.sum_nil,
    CanonicalUsage.billed, Rates.rateOf, costNanos_max_zero]
  ring

/-! ### Truncation -/

/-- Pieces cost less than one nano-unit less than the whole for each piece that costs anything, and
the last of them is not rounded twice. -/
private theorem drift_le (price : ℤ) {pieces : List ℤ} (h : ∀ tokens ∈ pieces, 0 ≤ tokens) :
    0 ≤ costNanos pieces.sum price - (pieces.map fun tokens => costNanos tokens price).sum ∧
      costNanos pieces.sum price - (pieces.map fun tokens => costNanos tokens price).sum ≤
        ((pieces.countP fun tokens => 0 < tokens ∧ 0 < price) - 1 : ℕ) := by
  induction pieces with
  | nil => simp [costNanos_of_tokens_nonpos]
  | cons tokens rest ih =>
    rw [List.forall_mem_cons] at h
    have hrest := ih h.2
    have hsum : 0 ≤ rest.sum := List.sum_nonneg h.2
    have hlow := costNanos_add_le h.1 hsum price
    have hhigh := costNanos_add_le_succ h.1 hsum price
    rw [List.sum_cons, List.map_cons, List.sum_cons, List.countP_cons]
    by_cases hpriced : 0 < tokens ∧ 0 < price
    · rw [if_pos (decide_eq_true hpriced)]
      by_cases hnone : (rest.countP fun tokens => 0 < tokens ∧ 0 < price) = 0
      · -- nothing else is priced
        have hzero : rest.sum = 0 := by
          rw [List.countP_eq_zero] at hnone
          refine List.sum_eq_zero fun other hother => ?_
          have hnot := hnone other hother
          rw [decide_eq_true_eq] at hnot
          exact le_antisymm (not_lt.mp fun hpos => hnot ⟨hpos, hpriced.2⟩) (h.2 other hother)
        have hnothing := costNanos_of_tokens_nonpos (le_refl 0) price
        rw [hnone, hzero, hnothing] at hrest
        rw [hzero, hnone, add_zero]
        push_cast at hrest ⊢
        omega
      · push_cast
        omega
    · have hfree : costNanos (tokens + rest.sum) price = costNanos rest.sum price := by
        by_cases hprice : 0 < price
        · have hzero : tokens = 0 := le_antisymm (not_lt.mp fun hpos => hpriced ⟨hpos, hprice⟩) h.1
          rw [hzero, zero_add]
        · rw [costNanos_of_price_nonpos (not_lt.mp hprice),
            costNanos_of_price_nonpos (not_lt.mp hprice)]
      have hnothing : costNanos tokens price = 0 := by
        by_cases hprice : 0 < price
        · exact costNanos_of_tokens_nonpos (not_lt.mp fun hpos => hpriced ⟨hpos, hprice⟩) price
        · exact costNanos_of_price_nonpos (not_lt.mp hprice) tokens
      rw [if_neg (by simpa using hpriced), hfree, hnothing, zero_add, add_zero]
      exact hrest

/-- Adding up calls by calls or terms by terms. -/
private theorem sum_sum_comm {α β M : Type} [AddCommMonoid M] (f : α → β → M) (xs : List α)
    (ys : List β) :
    (xs.map fun x => (ys.map fun y => f x y).sum).sum =
      (ys.map fun y => (xs.map fun x => f x y).sum).sum := by
  induction xs with
  | nil => simp
  | cons x xs ih => rw [List.map_cons, List.sum_cons, ih, ← List.sum_map_add]; simp

private theorem countP_eq_sum {α : Type} (p : α → Prop) [DecidablePred p] (xs : List α) :
    (xs.countP fun x => p x) = (xs.map fun x => if p x then 1 else 0).sum := by
  induction xs with
  | nil => rfl
  | cons x xs ih =>
    rw [List.countP_cons, ih, List.map_cons, List.sum_cons, add_comm]
    by_cases h : p x
    · simp [h]
    · simp [h]

/-- Terms that each drift by less than they have pieces drift by less than all their pieces. -/
private theorem sum_drift_le {α : Type} {drift : α → ℤ} {pieces : α → ℕ} {terms : List α}
    (h : ∀ term ∈ terms, 0 ≤ drift term ∧ drift term ≤ (pieces term - 1 : ℕ)) :
    0 ≤ (terms.map drift).sum ∧ (terms.map drift).sum ≤ ((terms.map pieces).sum - 1 : ℕ) := by
  induction terms with
  | nil => simp
  | cons term rest ih =>
    rw [List.forall_mem_cons] at h
    have hrest := ih h.2
    simp only [List.map_cons, List.sum_cons]
    omega

/-! ### When the sum prices as its calls -/

/-- A call that costs nothing at any rate. -/
def CanonicalUsage.BillsNothing (usage : CanonicalUsage) : Prop :=
  ∀ term ∈ PricedTerm.all, usage.billed term = 0

/-- No figure of a call is cut off where it is billed, or as much of the sum is. -/
def BilledAddUp (calls : List ModelCall) : Prop :=
  ∀ term ∈ PricedTerm.all,
    (total calls).billed term = (calls.map fun call => call.usage.billed term).sum

private theorem costNanos_of_billsNothing {usage : CanonicalUsage} (h : usage.BillsNothing)
    (r : Rates) : r.costNanos usage = 0 := by
  rw [Rates.costNanos_eq_sum]
  refine List.sum_eq_zero fun cost hcost => ?_
  obtain ⟨term, hterm, rfl⟩ := List.mem_map.mp hcost
  rw [h term hterm]
  exact costNanos_of_tokens_nonpos le_rfl _

private theorem pricedTerms_of_billsNothing {usage : CanonicalUsage} (h : usage.BillsNothing)
    (r : Rates) : r.pricedTerms usage = 0 := by
  rw [Rates.pricedTerms, List.countP_eq_zero]
  intro term hterm
  rw [h term hterm]
  simp

/-- The sum prices as its calls do where what is billed adds up and the calls are billed at the
rates the sum is. -/
theorem pricesTheSame_of_billedAddUp {price : Price} {calls : List ModelCall}
    (hadd : BilledAddUp calls)
    (hrates : ∀ call ∈ calls, call.usage.BillsNothing ∨
      price.ratesFor call.usage.promptTokens = price.ratesFor (total calls).promptTokens) :
    PricesTheSame price (total calls) calls := by
  set r := price.ratesFor (total calls).promptTokens with hr
  have hcosts : (calls.map fun call => price.costOf call.usage).sum =
      (PricedTerm.all.map fun term => (calls.map fun call =>
        costNanos (call.usage.billed term) (r.rateOf term)).sum).sum := by
    rw [← sum_sum_comm]
    refine congrArg List.sum (List.map_congr_left fun call hcall => ?_)
    rw [← Rates.costNanos_eq_sum, Price.costOf]
    rcases hrates call hcall with hnothing | hsame
    · rw [costNanos_of_billsNothing hnothing, costNanos_of_billsNothing hnothing]
    · rw [hsame]
  have hpriced : (calls.map fun call =>
      (price.ratesFor call.usage.promptTokens).pricedTerms call.usage).sum =
      (PricedTerm.all.map fun term => (calls.map fun call => call.usage.billed term).countP
        fun tokens => 0 < tokens ∧ 0 < r.rateOf term).sum := by
    have hterms : ∀ term, ((calls.map fun call => call.usage.billed term).countP
        fun tokens => 0 < tokens ∧ 0 < r.rateOf term) =
        (calls.map fun call => if 0 < call.usage.billed term ∧ 0 < r.rateOf term then 1
          else 0).sum := by
      intro term
      rw [List.countP_map, ← countP_eq_sum]
      rfl
    rw [List.map_congr_left fun term _ => hterms term, ← sum_sum_comm]
    refine congrArg List.sum (List.map_congr_left fun call hcall => ?_)
    rw [← countP_eq_sum]
    rcases hrates call hcall with hnothing | hsame
    · rw [pricedTerms_of_billsNothing hnothing]
      exact (pricedTerms_of_billsNothing hnothing r).symm
    · rw [hsame]
      rfl
  have hdrift : ∀ term ∈ PricedTerm.all,
      0 ≤ costNanos ((total calls).billed term) (r.rateOf term) - (calls.map fun call =>
          costNanos (call.usage.billed term) (r.rateOf term)).sum ∧
        costNanos ((total calls).billed term) (r.rateOf term) - (calls.map fun call =>
          costNanos (call.usage.billed term) (r.rateOf term)).sum ≤
          (((calls.map fun call => call.usage.billed term).countP
            fun tokens => 0 < tokens ∧ 0 < r.rateOf term) - 1 : ℕ) := by
    intro term hterm
    have hpos : ∀ tokens ∈ calls.map fun call => call.usage.billed term, 0 ≤ tokens := by
      intro tokens htokens
      obtain ⟨call, -, rfl⟩ := List.mem_map.mp htokens
      exact call.usage.billed_nonneg term
    have hpieces := drift_le (r.rateOf term) hpos
    rw [hadd term hterm]
    rw [List.map_map] at hpieces
    exact hpieces
  have hbound := sum_drift_le hdrift
  have hsplit : ∀ f g : PricedTerm → ℤ, (PricedTerm.all.map fun term => f term - g term).sum =
      (PricedTerm.all.map f).sum - (PricedTerm.all.map g).sum := by
    intro f g
    simp only [PricedTerm.all, List.map_cons, List.map_nil, List.sum_cons, List.sum_nil]
    ring
  rw [hsplit] at hbound
  rw [PricesTheSame, hcosts, hpriced, Price.costOf, ← hr, Rates.costNanos_eq_sum,
    abs_of_nonneg hbound.1]
  omega

/-! ### When it does not -/

/-- Rates that are a whole number of nano-units a token. -/
private def perToken (input output cachedInput cacheWrite : ℤ) : Rates :=
  ⟨input * tokensPerPriceUnit, output * tokensPerPriceUnit, some (cachedInput * tokensPerPriceUnit),
    some (cacheWrite * tokensPerPriceUnit)⟩

private theorem costNanos_perToken {tokens price : ℤ} (ht : 0 ≤ tokens) (hp : 0 ≤ price) :
    costNanos tokens (price * tokensPerPriceUnit) = tokens * price := by
  have hunit : (0 : ℤ) < tokensPerPriceUnit := by decide
  rw [costNanos_of_nonneg ht (mul_nonneg hp hunit.le), ← mul_assoc]
  exact Int.mul_ediv_cancel _ hunit.ne'

/-- At such rates nothing is truncated. -/
private theorem costNanos_perToken_usage {input output cachedInput cacheWrite : ℤ}
    (hinput : 0 ≤ input) (houtput : 0 ≤ output) (hcached : 0 ≤ cachedInput)
    (hwrite : 0 ≤ cacheWrite) (usage : CanonicalUsage) :
    (perToken input output cachedInput cacheWrite).costNanos usage =
      usage.billed .input * input + usage.billed .output * output +
        usage.billed .cachedInput * cachedInput + usage.billed .cacheWrite * cacheWrite +
        usage.billed .longCacheWrite * max (input * longCacheWriteMultiplier) cacheWrite := by
  have hunit : (0 : ℤ) ≤ tokensPerPriceUnit := by decide
  have hlong : (perToken input output cachedInput cacheWrite).rateOf .longCacheWrite =
      max (input * longCacheWriteMultiplier) cacheWrite * tokensPerPriceUnit := by
    rw [max_mul_of_nonneg _ _ hunit, mul_right_comm]
    rfl
  rw [Rates.costNanos_eq_sum]
  simp only [PricedTerm.all, List.map_cons, List.map_nil, List.sum_cons, List.sum_nil, hlong]
  simp only [perToken, Rates.rateOf, Rates.cachedInputRate, Rates.cacheWriteRate, Option.getD_some]
  rw [costNanos_perToken (usage.billed_nonneg _) hinput,
    costNanos_perToken (usage.billed_nonneg _) houtput,
    costNanos_perToken (usage.billed_nonneg _) hcached,
    costNanos_perToken (usage.billed_nonneg _) hwrite,
    costNanos_perToken (usage.billed_nonneg _) (le_max_of_le_right hwrite)]
  ring

/-- However high the rates, the sum drifts by less than five nano-units a call. -/
private theorem abs_drift_le {price : Price} {calls : List ModelCall}
    (h : PricesTheSame price (total calls) calls) :
    |price.costOf (total calls) - (calls.map fun call => price.costOf call.usage).sum| ≤
      5 * calls.length := by
  have hfew : (calls.map fun call =>
      (price.ratesFor call.usage.promptTokens).pricedTerms call.usage).sum ≤ 5 * calls.length := by
    have hfive := List.sum_le_card_nsmul (calls.map fun call =>
      (price.ratesFor call.usage.promptTokens).pricedTerms call.usage) 5 fun n hn => by
        obtain ⟨call, -, rfl⟩ := List.mem_map.mp hn
        exact List.countP_le_length
    rw [List.length_map, nsmul_eq_mul, Nat.cast_id, mul_comm] at hfive
    exact hfive
  rcases h with hzero | hless
  · rw [hzero, abs_zero]
    omega
  · omega

private theorem eq_zero_of_scaled {x : ℤ} (bound : ℤ)
    (h : ∀ scale : ℤ, 0 ≤ scale → |scale * x| ≤ bound) :
    x = 0 := by
  by_contra hne
  have hpos : 1 ≤ |x| := Int.one_le_abs hne
  have hbound := h (|bound| + 1) (by positivity)
  rw [abs_mul, abs_of_nonneg (by positivity : (0 : ℤ) ≤ |bound| + 1)] at hbound
  have hmore : (|bound| + 1) * 1 ≤ (|bound| + 1) * |x| :=
    mul_le_mul_of_nonneg_left hpos (by positivity)
  have hself := le_abs_self bound
  omega

/-- What the sum bills of a term beyond what its calls do. -/
private def excess (calls : List ModelCall) (term : PricedTerm) : ℤ :=
  (total calls).billed term - (calls.map fun call => call.usage.billed term).sum

/-- Where every rate prices the sum as its calls, what is billed adds up. -/
private theorem billedAddUp_of_pricesTheSame {calls : List ModelCall} {threshold : Option ℤ}
    (h : ∀ base : Rates, PricesTheSame ⟨base, threshold, none⟩ (total calls) calls) :
    BilledAddUp calls := by
  have hcost : ∀ (base : Rates) (usage : CanonicalUsage),
      (⟨base, threshold, none⟩ : Price).costOf usage = base.costNanos usage := fun _ _ => rfl
  -- a combination of the terms' excesses that some rates bill
  have hcombination : ∀ input output cachedInput cacheWrite : ℤ, 0 ≤ input → 0 ≤ output →
      0 ≤ cachedInput → 0 ≤ cacheWrite →
      excess calls .input * input + excess calls .output * output +
        excess calls .cachedInput * cachedInput + excess calls .cacheWrite * cacheWrite +
        excess calls .longCacheWrite * max (input * longCacheWriteMultiplier) cacheWrite = 0 := by
    intro input output cachedInput cacheWrite hinput houtput hcached hwrite
    refine eq_zero_of_scaled (5 * calls.length) fun scale hscale => ?_
    have hdrift := abs_drift_le
      (h (perToken (scale * input) (scale * output) (scale * cachedInput) (scale * cacheWrite)))
    have hmax : max (scale * input * longCacheWriteMultiplier) (scale * cacheWrite) =
        scale * max (input * longCacheWriteMultiplier) cacheWrite := by
      rw [mul_assoc, mul_max_of_nonneg _ _ hscale]
    have hbill := costNanos_perToken_usage (mul_nonneg hscale hinput) (mul_nonneg hscale houtput)
      (mul_nonneg hscale hcached) (mul_nonneg hscale hwrite)
    simp only [hcost, hbill, hmax] at hdrift
    convert hdrift using 2
    simp only [excess, List.sum_map_add, List.sum_map_mul_right]
    ring
  intro term hterm
  have h₁ := hcombination 0 1 0 0 (by omega) (by omega) (by omega) (by omega)
  have h₂ := hcombination 0 0 1 0 (by omega) (by omega) (by omega) (by omega)
  have h₃ := hcombination 0 0 0 1 (by omega) (by omega) (by omega) (by omega)
  have h₄ := hcombination 1 0 0 0 (by omega) (by omega) (by omega) (by omega)
  have h₅ := hcombination 1 0 0 4 (by omega) (by omega) (by omega) (by omega)
  have hzero : excess calls term = 0 := by
    simp [longCacheWriteMultiplier] at h₁ h₂ h₃ h₄ h₅
    cases term <;> omega
  exact sub_eq_zero.mp hzero

/-- A call that bills anything is billed at the rates of the sum. -/
private theorem sameSide_of_pricesTheSame {calls : List ModelCall} {T : ℤ}
    (h : ∀ base long : Rates, PricesTheSame ⟨base, some T, some long⟩ (total calls) calls)
    {call : ModelCall} (hcall : call ∈ calls) :
    call.usage.BillsNothing ∨ (call.usage.promptTokens > T ↔ (total calls).promptTokens > T) := by
  by_contra hnot
  rw [not_or, CanonicalUsage.BillsNothing] at hnot
  push Not at hnot
  obtain ⟨⟨term, -, hbilled⟩, hside⟩ := hnot
  -- the side of the sum is free, and the other as dear as it takes
  set scale : ℤ := 5 * calls.length + 1 with hscale
  set dear := perToken scale scale scale scale with hdear
  set free := perToken 0 0 0 0 with hfree
  have hdearCost : scale ≤ dear.costNanos call.usage := by
    have hpos : 0 ≤ scale := by omega
    have hmax : max (scale * longCacheWriteMultiplier) scale = scale * 2 := by
      rw [longCacheWriteMultiplier]
      omega
    have hsome : 1 ≤ call.usage.billed .input + call.usage.billed .output +
        call.usage.billed .cachedInput + call.usage.billed .cacheWrite +
        call.usage.billed .longCacheWrite * 2 := by
      have hinput := call.usage.billed_nonneg .input
      have houtput := call.usage.billed_nonneg .output
      have hcached := call.usage.billed_nonneg .cachedInput
      have hwrite := call.usage.billed_nonneg .cacheWrite
      have hlong := call.usage.billed_nonneg .longCacheWrite
      cases term <;> omega
    rw [hdear, costNanos_perToken_usage hpos hpos hpos hpos, hmax]
    calc scale = scale * 1 := (mul_one scale).symm
      _ ≤ scale * (call.usage.billed .input + call.usage.billed .output +
            call.usage.billed .cachedInput + call.usage.billed .cacheWrite +
            call.usage.billed .longCacheWrite * 2) := mul_le_mul_of_nonneg_left hsome hpos
      _ = _ := by ring
  have hfreeCost : ∀ usage, free.costNanos usage = 0 := by
    intro usage
    rw [costNanos_perToken_usage le_rfl le_rfl le_rfl le_rfl]
    simp
  have hnonneg : ∀ (r : Rates) (usage : CanonicalUsage), 0 ≤ r.costNanos usage := by
    intro r usage
    rw [Rates.costNanos_eq_sum]
    refine List.sum_nonneg fun cost hcost => ?_
    obtain ⟨_, -, rfl⟩ := List.mem_map.mp hcost
    exact costNanos_nonneg _ _
  have hprice : ∃ price : Price, PricesTheSame price (total calls) calls ∧
      price.costOf (total calls) = 0 ∧
      price.costOf call.usage = dear.costNanos call.usage := by
    rcases hside with ⟨hlong, hshort⟩ | ⟨hshort, hlong⟩
    · refine ⟨⟨free, some T, some dear⟩, h free dear, ?_, ?_⟩
      · rw [Price.costOf, Price.ratesFor]
        simp only [if_neg (not_lt.mpr hshort)]
        exact hfreeCost _
      · rw [Price.costOf, Price.ratesFor]
        simp only [if_pos hlong]
    · refine ⟨⟨dear, some T, some free⟩, h dear free, ?_, ?_⟩
      · rw [Price.costOf, Price.ratesFor]
        simp only [if_pos hlong]
        exact hfreeCost _
      · rw [Price.costOf, Price.ratesFor]
        simp only [if_neg (not_lt.mpr hshort)]
  obtain ⟨price, hsame, hnothing, hcost⟩ := hprice
  have hbound := abs_drift_le hsame
  have hsum : price.costOf call.usage ≤ (calls.map fun call => price.costOf call.usage).sum :=
    List.single_le_sum (fun cost hcost => by
      obtain ⟨other, -, rfl⟩ := List.mem_map.mp hcost
      exact hnonneg _ _) _ (List.mem_map.mpr ⟨call, hcall, rfl⟩)
  rw [hnothing, zero_sub, abs_neg] at hbound
  have hself := le_abs_self (calls.map fun call => price.costOf call.usage).sum
  omega

/-- Nothing that is billed of the calls is cut off, and every one that bills anything is on the
same side of the length above which the second set of rates applies as their sum is. -/
def PricesAlike (threshold : Option ℤ) (calls : List ModelCall) : Prop :=
  BilledAddUp calls ∧ ∀ T, threshold = some T → ∀ call ∈ calls, call.usage.BillsNothing ∨
    (call.usage.promptTokens > T ↔ (total calls).promptTokens > T)

/-- **The calls a step made to one model price as their sum does, at whatever rates, if and only
if** no figure is cut off and no call is short where the sum is long. -/
theorem pricesTheSame_iff (threshold : Option ℤ) (calls : List ModelCall) :
    (∀ (base : Rates) (long : Option Rates),
      PricesTheSame ⟨base, threshold, long⟩ (total calls) calls) ↔
        PricesAlike threshold calls := by
  constructor
  · intro h
    refine ⟨billedAddUp_of_pricesTheSame fun base => h base none, ?_⟩
    rintro T rfl call hcall
    exact sameSide_of_pricesTheSame (fun base long => h base (some long)) hcall
  · rintro ⟨hadd, hsides⟩ base long
    refine pricesTheSame_of_billedAddUp hadd fun call hcall => ?_
    cases long with
    | none => exact Or.inr rfl
    | some long =>
      cases threshold with
      | none => exact Or.inr rfl
      | some T =>
        refine (hsides T rfl call hcall).imp_right fun hside => ?_
        simp only [Price.ratesFor, hside]

/-! ### A batch -/

/-- **A batch's rows price as its calls do, if and only if the calls of each model do**; no figure
is lost or counted twice whatever they are, and each model has one row. -/
theorem summed_pricesTheSame_iff (threshold : Text → Option ℤ) (step : Text)
    (calls : List ModelCall) :
    ((∀ row ∈ summed step calls, ∀ (base : Rates) (long : Option Rates),
        PricesTheSame ⟨base, threshold row.model, long⟩ row.usage
          (calls.filter (·.model = row.model))) ∧
      ((summed step calls).map (·.model)).Nodup ∧
      (∀ call ∈ calls, ∃ row ∈ summed step calls, row.model = call.model) ∧
      ∀ figure ∈ usageFigures, ((summed step calls).map fun row => figure row.usage).sum =
        (calls.map fun call => figure call.usage).sum) ↔
      ∀ call ∈ calls, PricesAlike (threshold call.model) (calls.filter (·.model = call.model)) := by
  have hrow : ∀ row ∈ summed step calls, row.usage = total (calls.filter (·.model = row.model)) ∧
      ∃ call ∈ calls, call.model = row.model := by
    intro row hrow
    obtain ⟨⟨model, made⟩, hgroup, rfl⟩ := List.mem_map.mp hrow
    obtain ⟨hmade, hne⟩ := mem_byModel_iff.mp hgroup
    obtain ⟨call, hcall⟩ := List.exists_mem_of_ne_nil made hne
    rw [hmade] at hcall
    have hin := List.mem_filter.mp hcall
    exact ⟨congrArg total hmade, call, hin.1, of_decide_eq_true hin.2⟩
  have hcovers : ∀ call ∈ calls, ∃ row ∈ summed step calls, row.model = call.model := by
    intro call hcall
    have hmade : call ∈ calls.filter (·.model = call.model) := by
      simpa using hcall
    have hgroup := mem_byModel_iff.mpr ⟨rfl, List.ne_nil_of_mem hmade⟩
    exact ⟨_, List.mem_map.mpr ⟨_, hgroup, rfl⟩, rfl⟩
  have hdistinct : ((summed step calls).map (·.model)).Nodup := by
    rw [summed, List.map_map]
    exact nodup_keys_byModel calls
  constructor
  · rintro ⟨hpriced, -⟩ call hcall
    obtain ⟨row, hin, hmodel⟩ := hcovers call hcall
    rw [← hmodel, ← pricesTheSame_iff, ← (hrow row hin).1]
    exact hpriced row hin
  · intro h
    refine ⟨fun row hin => ?_, hdistinct, hcovers, fun figure hfigure =>
      sum_summed hfigure step calls⟩
    obtain ⟨husage, call, hcall, hmodel⟩ := hrow row hin
    have halike := h call hcall
    rw [hmodel, ← pricesTheSame_iff, ← husage] at halike
    exact halike

/-- A model that charges twice as much for a prompt of more than 200 000 tokens. -/
def twoTiers : Price where
  inputPerMillionNanos := 1250000000
  outputPerMillionNanos := 10000000000
  longContextThreshold := some 200000
  longContext := some ⟨2500000000, 15000000000, none, none⟩

/-- **256 texts of a thousand tokens each are billed as one of 256 000**, at the rates of a long
prompt. -/
theorem batch_misprices :
    ¬ ∀ (price : Price) (model : Text) (calls : List ModelCall),
      (∀ call ∈ calls, call.model = model) → PricesTheSame price (total calls) calls := by
  intro h
  have hbatch := h twoTiers [] (List.replicate 256 ⟨[], [], ⟨1000, 1000, 0, 0, 0, 0⟩⟩)
    fun call hcall => by rw [List.eq_of_mem_replicate hcall]
  revert hbatch
  decide +kernel

end AiraGateway
