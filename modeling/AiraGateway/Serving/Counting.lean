import AiraGateway.Pipeline.SummedCalls
import AiraGateway.Serving.Accounting

/-!
# What a stream used when its vendor never said

A caller who leaves a stream before its last chunk leaves the usage unsaid. The request that was
sent and the answer as far as it was received are counted by the vendor's own tokenizer, which
says nothing of a cache; the price is to be a floor under the bill.

* What is counted is the two figures alone (`figures_of_countUnreported`).
* A prompt priced at its lowest rate costs at most what its parts cost at theirs, up to what each
  of them is truncated by (`costNanos_sum_le`).
* **The floor is under every bill** the vendor may have made (`floorPriced_le_bill`). Where the
  prompt was too short to be cached unasked, it is the bill less what the rest of the answer costs.
-/

namespace AiraGateway

/-! ### Counting -/

/-- The total of a vendor's answer to a count: anything but a number of tokens is refused. -/
def countTokens (data : Json) : Option ℤ :=
  match data.get "totalTokens" with
  | some (.int total) => if total < 0 then none else some total
  | _ => none

/-- The counts of the request and of the received answer, from what the vendor answered to each:
nothing where it failed or the time for both was up. -/
def vendorCount (canCount : Bool) (request answer : Option Json) : VendorCount where
  canCount := canCount
  prompt := request.bind countTokens
  answer := answer.bind countTokens

theorem countTokens_nonneg {data : Json} {total : ℤ} (h : countTokens data = some total) :
    0 ≤ total := by
  unfold countTokens at h
  split at h
  next stated _ =>
    split_ifs at h with hneg
    obtain rfl := Option.some.inj h
    exact not_lt.mp hneg
  next => exact absurd h (Option.some_ne_none _).symm

/-- **A count is two figures**, neither of them negative, and says nothing of a cache. -/
theorem figures_of_countUnreported {canCount : Bool} {request answer : Option Json}
    {unreported : Unreported} {counted : CanonicalUsage}
    (h : countUnreported (vendorCount canCount request answer) unreported = some counted) :
    ∃ promptTokens completionTokens : ℤ, 0 ≤ promptTokens ∧ 0 ≤ completionTokens ∧
      counted = { promptTokens := promptTokens, completionTokens := completionTokens } := by
  unfold countUnreported vendorCount at h
  split_ifs at h with hcan hsilent
  · obtain ⟨prompt, hprompt, hcounted⟩ := Option.bind_eq_some_iff.mp h
    obtain ⟨data, -, hdata⟩ := Option.bind_eq_some_iff.mp hprompt
    exact ⟨prompt, 0, countTokens_nonneg hdata, le_refl 0, (Option.some.inj hcounted).symm⟩
  · obtain ⟨prompt, hprompt, hrest⟩ := Option.bind_eq_some_iff.mp h
    obtain ⟨data, -, hdata⟩ := Option.bind_eq_some_iff.mp hprompt
    obtain ⟨completion, hcompletion, hcounted⟩ := Option.bind_eq_some_iff.mp hrest
    obtain ⟨data', -, hdata'⟩ := Option.bind_eq_some_iff.mp hcompletion
    exact ⟨prompt, completion, countTokens_nonneg hdata, countTokens_nonneg hdata',
      (Option.some.inj hcounted).symm⟩

/-! ### Bills and prices -/

/-- What the vendor may have billed where `counted` was counted: the same prompt, at least the
answer received, and any part of the prompt read from or written to a cache unless it is too short
for one. -/
structure MayBeBilled (counted bill : CanonicalUsage) : Prop where
  prompt : bill.promptTokens = counted.promptTokens
  completion : counted.completionTokens ≤ bill.completionTokens
  cached : 0 ≤ bill.cachedInputTokens
  written : 0 ≤ bill.cacheWriteTokens
  fits : bill.cachedInputTokens + bill.cacheWriteTokens ≤ bill.promptTokens
  short : bill.promptTokens < implicitCacheMinTokens →
    bill.cachedInputTokens = 0 ∧ bill.cacheWriteTokens = 0

/-- A read from a cache costs no more than ordinary input, and a write to one no less than a
read. -/
structure Rates.ReadsCheapest (r : Rates) : Prop where
  input : r.cachedInputRate ≤ r.inputPerMillionNanos
  write : r.cachedInputRate ≤ r.cacheWriteRate
  longWrite : r.cachedInputRate ≤ r.longCacheWriteRate

/-- Both rate sets of a price read from a cache at their lowest input rate. -/
structure Price.ReadsCheapest (price : Price) : Prop where
  ordinary : price.toRates.ReadsCheapest
  long : ∀ rates, price.longContext = some rates → rates.ReadsCheapest

theorem Price.readsCheapest_ratesFor {price : Price} (h : price.ReadsCheapest) (prompt : ℤ) :
    (price.ratesFor prompt).ReadsCheapest := by
  unfold Price.ratesFor
  split
  next long threshold hlong hthreshold =>
    split_ifs
    · exact h.long long hlong
    · exact h.ordinary
  next => exact h.ordinary

/-! ### The prompt -/

/-- The terms of a cost that bill the prompt. -/
def PricedTerm.ofPrompt : List PricedTerm := [input, cachedInput, cacheWrite, longCacheWrite]

theorem Rates.ReadsCheapest.le_rateOf {r : Rates} (h : r.ReadsCheapest) {term : PricedTerm}
    (hterm : term ∈ PricedTerm.ofPrompt) : r.cachedInputRate ≤ r.rateOf term := by
  simp only [PricedTerm.ofPrompt, List.mem_cons, List.not_mem_nil, or_false] at hterm
  obtain rfl | rfl | rfl | rfl := hterm
  · exact h.input
  · exact le_refl _
  · exact h.write
  · exact h.longWrite

/-- The parts of a prompt add up to it where what is cached fits in it. -/
theorem sum_billed_ofPrompt {usage : CanonicalUsage} (hcached : 0 ≤ usage.cachedInputTokens)
    (hwritten : 0 ≤ usage.cacheWriteTokens)
    (hfits : usage.cachedInputTokens + usage.cacheWriteTokens ≤ usage.promptTokens) :
    (PricedTerm.ofPrompt.map usage.billed).sum = usage.promptTokens := by
  have hlong : 0 ≤ longWrites usage ∧ longWrites usage ≤ usage.cacheWriteTokens := by
    unfold longWrites
    omega
  simp only [PricedTerm.ofPrompt, List.map_cons, List.map_nil, List.sum_cons, List.sum_nil,
    CanonicalUsage.billed, CanonicalUsage.uncachedInputTokens]
  omega

/-- A cost is what the answer costs and what the terms of the prompt do. -/
theorem Rates.costNanos_eq_output_add (r : Rates) (usage : CanonicalUsage) :
    r.costNanos usage =
      AiraGateway.costNanos (usage.billed .output) r.outputPerMillionNanos +
        (PricedTerm.ofPrompt.map fun term => AiraGateway.costNanos (usage.billed term)
          (r.rateOf term)).sum := by
  rw [Rates.costNanos_eq_sum]
  simp only [PricedTerm.all, PricedTerm.ofPrompt, List.map_cons, List.map_nil, List.sum_cons,
    List.sum_nil, Rates.rateOf]
  ring

/-- **The lowest rate**: pieces priced at rates of their own cost at least what their sum does at a
rate below all of them, up to a nano-unit for each piece that costs anything. -/
theorem costNanos_sum_le {α : Type} (tokens rate : α → ℤ) (lowest : ℤ) {pieces : List α}
    (htokens : ∀ piece ∈ pieces, 0 ≤ tokens piece)
    (hlowest : ∀ piece ∈ pieces, lowest ≤ rate piece) :
    costNanos (pieces.map tokens).sum lowest ≤
      (pieces.map fun piece => costNanos (tokens piece) (rate piece)).sum +
        (pieces.countP fun piece => 0 < tokens piece ∧ 0 < rate piece : ℕ) := by
  induction pieces with
  | nil => simp [costNanos_of_tokens_nonpos]
  | cons piece rest ih =>
    rw [List.forall_mem_cons] at htokens hlowest
    have hrest := ih htokens.2 hlowest.2
    have hsum : 0 ≤ (rest.map tokens).sum := by
      refine List.sum_nonneg fun n hn => ?_
      obtain ⟨other, hother, rfl⟩ := List.mem_map.mp hn
      exact htokens.2 other hother
    have hhead := costNanos_mono (le_refl (tokens piece)) hlowest.1
    have hadd := costNanos_add_le_succ htokens.1 hsum lowest
    rw [List.map_cons, List.sum_cons, List.map_cons, List.sum_cons, List.countP_cons]
    by_cases hpriced : 0 < tokens piece ∧ 0 < rate piece
    · rw [if_pos (decide_eq_true hpriced)]
      push_cast
      omega
    · -- a piece that costs nothing at its own rate costs nothing at the lowest
      have hfree : costNanos (tokens piece + (rest.map tokens).sum) lowest =
          costNanos (rest.map tokens).sum lowest := by
        by_cases hprice : 0 < rate piece
        · have hzero : tokens piece = 0 :=
            le_antisymm (not_lt.mp fun hpos => hpriced ⟨hpos, hprice⟩) htokens.1
          rw [hzero, zero_add]
        · have hlow : lowest ≤ 0 := hlowest.1.trans (not_lt.mp hprice)
          rw [costNanos_of_price_nonpos hlow, costNanos_of_price_nonpos hlow]
      have hnonneg := costNanos_nonneg (tokens piece) (rate piece)
      rw [if_neg (by simpa using hpriced), hfree]
      push_cast
      omega

/-! ### The floor -/

section Floor

variable {canCount : Bool} {request answer : Option Json} {unreported : Unreported}
  {counted bill : CanonicalUsage} {price : Price}

/-- A counted usage is the output and, taken as cached where it is long, one piece of prompt. -/
theorem floorPriced_costNanos_long
    (hcounted : countUnreported (vendorCount canCount request answer) unreported = some counted)
    (hlong : implicitCacheMinTokens ≤ counted.promptTokens) (r : Rates) :
    r.costNanos (floorPriced counted) =
      costNanos counted.completionTokens r.outputPerMillionNanos +
        costNanos counted.promptTokens r.cachedInputRate := by
  obtain ⟨prompt, completion, -, -, rfl⟩ := figures_of_countUnreported hcounted
  rw [floorPriced, if_neg (not_lt.mpr hlong)]
  have huncached : CanonicalUsage.uncachedInputTokens
      { promptTokens := prompt
        completionTokens := completion
        cachedInputTokens := prompt } = 0 := by
    simp [CanonicalUsage.uncachedInputTokens]
  rw [Rates.costNanos, requestCostNanos, huncached]
  have hnone : ∀ rate, costNanos 0 rate = 0 := costNanos_of_tokens_nonpos (le_refl 0)
  simp [longWrites, hnone]

/-- A bill without a cache is the output and the whole prompt at the input rate. -/
theorem costNanos_of_uncached {usage : CanonicalUsage} (hcached : usage.cachedInputTokens = 0)
    (hwritten : usage.cacheWriteTokens = 0) (r : Rates) :
    r.costNanos usage =
      costNanos usage.promptTokens r.inputPerMillionNanos +
        costNanos usage.completionTokens r.outputPerMillionNanos := by
  have hnone : ∀ rate, costNanos 0 rate = 0 := costNanos_of_tokens_nonpos (le_refl 0)
  have hwrites : longWrites usage = 0 := by
    unfold longWrites
    omega
  have huncached : usage.uncachedInputTokens = max 0 usage.promptTokens := by
    unfold CanonicalUsage.uncachedInputTokens
    rw [hcached, hwritten, sub_zero, sub_zero]
  rw [Rates.costNanos, requestCostNanos, huncached, hwrites, hcached, hwritten, costNanos_max_zero,
    sub_zero, hnone, hnone, hnone, add_zero, add_zero, add_zero]

/-- **The floor is under every bill**: a long prompt is priced at most at what the vendor may have
billed and a nano-unit for each term it priced, and a short one at the bill less what the rest of
the answer costs, with at most one nano-unit truncated. -/
theorem floorPriced_le_bill (hprice : price.ReadsCheapest)
    (hcounted : countUnreported (vendorCount canCount request answer) unreported = some counted)
    (hbill : MayBeBilled counted bill) :
    price.costOf (floorPriced counted) ≤
        price.costOf bill + (price.ratesFor bill.promptTokens).pricedTerms bill ∧
      (counted.promptTokens < implicitCacheMinTokens →
        let rest := costNanos (bill.completionTokens - counted.completionTokens)
          (price.ratesFor bill.promptTokens).outputPerMillionNanos
        price.costOf bill - rest - 1 ≤ price.costOf (floorPriced counted) ∧
          price.costOf (floorPriced counted) ≤ price.costOf bill - rest) := by
  obtain ⟨prompt, completion, -, hreceived, hfigures⟩ := figures_of_countUnreported hcounted
  have hsame : (floorPriced counted).promptTokens = bill.promptTokens := by
    rw [hbill.prompt, floorPriced]
    split_ifs <;> rfl
  set r := price.ratesFor bill.promptTokens with hr
  have hfloor : price.costOf (floorPriced counted) = r.costNanos (floorPriced counted) := by
    rw [Price.costOf, hsame]
  have hanswer := costNanos_mono hbill.completion (le_refl r.outputPerMillionNanos)
  by_cases hshort : counted.promptTokens < implicitCacheMinTokens
  · obtain ⟨hcached, hwritten⟩ := hbill.short (hbill.prompt ▸ hshort)
    have hcost : r.costNanos counted = costNanos counted.promptTokens r.inputPerMillionNanos +
        costNanos counted.completionTokens r.outputPerMillionNanos :=
      costNanos_of_uncached (by rw [hfigures]) (by rw [hfigures]) r
    have hbilled := costNanos_of_uncached hcached hwritten r
    have hnonneg : 0 ≤ counted.completionTokens := by
      rw [hfigures]
      exact hreceived
    -- the answer billed is the answer received and the rest of it
    have hrest : 0 ≤ bill.completionTokens - counted.completionTokens :=
      sub_nonneg.mpr hbill.completion
    have hlow := costNanos_add_le hnonneg hrest r.outputPerMillionNanos
    have hhigh := costNanos_add_le_succ hnonneg hrest r.outputPerMillionNanos
    rw [add_sub_cancel] at hlow hhigh
    have hpaid : floorPriced counted = counted := if_pos hshort
    rw [hfloor, hpaid, Price.costOf, ← hr, hcost, hbilled, hbill.prompt]
    refine ⟨?_, fun _ => ⟨?_, ?_⟩⟩
    · omega
    · omega
    · omega
  · have hlong := floorPriced_costNanos_long hcounted (not_lt.mp hshort) r
    have hcheapest : r.ReadsCheapest := Price.readsCheapest_ratesFor hprice bill.promptTokens
    have hpieces := costNanos_sum_le bill.billed r.rateOf r.cachedInputRate
      (fun term _ => bill.billed_nonneg term) (fun term hterm => hcheapest.le_rateOf hterm)
    rw [sum_billed_ofPrompt hbill.cached hbill.written hbill.fits, hbill.prompt] at hpieces
    have hterms : PricedTerm.ofPrompt.countP (fun term => 0 < bill.billed term ∧ 0 < r.rateOf term)
        ≤ r.pricedTerms bill := List.Sublist.countP_le (by decide)
    have hbilled := r.costNanos_eq_output_add bill
    have houtput : costNanos (bill.billed .output) r.outputPerMillionNanos =
        costNanos bill.completionTokens r.outputPerMillionNanos := costNanos_max_zero ..
    refine ⟨?_, fun h => absurd h hshort⟩
    rw [hfloor, Price.costOf, ← hr, hlong, hbilled, houtput]
    omega

/-- A stream left after a long prompt, of which the vendor cached a part and wrote another. -/
theorem floorPriced_le_bill_cached :
    let rates : Rates := ⟨1250000000, 10000000000, some 125000000, none⟩
    let price : Price := { toRates := rates }
    let counted : CanonicalUsage := { promptTokens := 5000, completionTokens := 20 }
    let bill : CanonicalUsage :=
      { promptTokens := 5000, completionTokens := 90, cachedInputTokens := 3000,
        cacheWriteTokens := 1000 }
    price.costOf (floorPriced counted) ≤ price.costOf bill + 4 := by
  intro rates price counted bill
  have hprice : price.ReadsCheapest :=
    ⟨⟨by decide, by decide, by decide⟩, fun _ h => absurd h (Option.some_ne_none _).symm⟩
  have hcounted : countUnreported
      (vendorCount true (some (.obj [("totalTokens", .int 5000)]))
        (some (.obj [("totalTokens", .int 20)]))) { answer := "Once" } = some counted := rfl
  have hbill : MayBeBilled counted bill :=
    ⟨rfl, by decide, by decide, by decide, by decide, fun h => absurd h (by decide)⟩
  exact (floorPriced_le_bill hprice hcounted hbill).1

end Floor

end AiraGateway
