import AiraGateway.Core.Canonical
import Mathlib.Algebra.Order.Ring.Int
import Mathlib.Tactic.Push
import Mathlib.Tactic.Ring

/-!
# What a request costs

Money is integers in nano-units and prices are stated per one million tokens. Each side of a
request is priced apart: output, ordinary input, and input read from or written to a cache. A
model may state a second set of rates for long prompts; a bill is made at the set its own prompt
selects.

Of every rate three facts are used: a cost grows with the tokens and with the rate
(`costNanos_mono`); pricing a prompt in pieces never costs more than pricing it whole, as each
piece is rounded down (`costNanos_add_le`); and two pieces cost at most one nano-unit less
(`costNanos_add_le_succ`).
-/

namespace AiraGateway

def tokensPerPriceUnit : ℤ := 1000000

/-- The cost of tokens at a price quoted per one million, truncated below one nano-unit. -/
def costNanos (tokens pricePerMillionNanos : ℤ) : ℤ :=
  if tokens ≤ 0 ∨ pricePerMillionNanos ≤ 0 then 0
  else tokens * pricePerMillionNanos / tokensPerPriceUnit

def requestCostNanos (promptTokens completionTokens inputPrice outputPrice : ℤ) : ℤ :=
  costNanos promptTokens inputPrice + costNanos completionTokens outputPrice

def cacheWriteNumerator : ℤ := 5

def cacheWriteDenominator : ℤ := 4

def longCacheWriteMultiplier : ℤ := 2

/-- The hour's cache writes, clamped into the writes they are part of. -/
def longWrites (usage : CanonicalUsage) : ℤ :=
  min (max 0 usage.longCacheWriteTokens) (max 0 usage.cacheWriteTokens)

/-- One set of prices per one million tokens. -/
structure Rates where
  inputPerMillionNanos : ℤ
  outputPerMillionNanos : ℤ
  cachedInputPerMillionNanos : Option ℤ := none
  cacheWritePerMillionNanos : Option ℤ := none
  deriving DecidableEq, Repr

namespace Rates

/-- A read from a cache is charged at the ordinary input rate where no rate is stated. -/
def cachedInputRate (r : Rates) : ℤ := r.cachedInputPerMillionNanos.getD r.inputPerMillionNanos

/-- A write to a cache is charged at five quarters of the input rate where no rate is stated. -/
def cacheWriteRate (r : Rates) : ℤ :=
  r.cacheWritePerMillionNanos.getD
    (r.inputPerMillionNanos * cacheWriteNumerator / cacheWriteDenominator)

def longCacheWriteRate (r : Rates) : ℤ :=
  max (r.inputPerMillionNanos * longCacheWriteMultiplier) r.cacheWriteRate

/-- A request's usage at these rates. -/
def costNanos (r : Rates) (usage : CanonicalUsage) : ℤ :=
  requestCostNanos usage.uncachedInputTokens usage.completionTokens r.inputPerMillionNanos
      r.outputPerMillionNanos
    + AiraGateway.costNanos usage.cachedInputTokens r.cachedInputRate
    + AiraGateway.costNanos (usage.cacheWriteTokens - longWrites usage) r.cacheWriteRate
    + AiraGateway.costNanos (longWrites usage) r.longCacheWriteRate

end Rates

/-- A model's price: its rates, and a second set above a prompt length where it has one. -/
structure Price extends Rates where
  longContextThreshold : Option ℤ := none
  longContext : Option Rates := none
  deriving DecidableEq, Repr

/-- The rates a request with such a prompt is billed at, the answer included. -/
def Price.ratesFor (p : Price) (promptTokens : ℤ) : Rates :=
  match p.longContext, p.longContextThreshold with
  | some long, some threshold => if promptTokens > threshold then long else p.toRates
  -- half a set is no set
  | _, _ => p.toRates

/-! ### What a cost is worth -/

theorem costNanos_nonneg (tokens price : ℤ) : 0 ≤ costNanos tokens price := by
  unfold costNanos
  split_ifs with h
  · exact le_refl 0
  · push Not at h
    exact Int.ediv_nonneg (mul_nonneg h.1.le h.2.le) (by decide)

theorem costNanos_of_nonneg {tokens price : ℤ} (ht : 0 ≤ tokens) (hp : 0 ≤ price) :
    costNanos tokens price = tokens * price / tokensPerPriceUnit := by
  unfold costNanos
  split_ifs with h
  · have hzero : tokens * price = 0 := by
      rcases h with h | h
      · rw [le_antisymm h ht, zero_mul]
      · rw [le_antisymm h hp, mul_zero]
    rw [hzero, Int.zero_ediv]
  · rfl

theorem costNanos_of_price_nonpos {price : ℤ} (hp : price ≤ 0) (tokens : ℤ) :
    costNanos tokens price = 0 := if_pos (.inr hp)

theorem costNanos_of_tokens_nonpos {tokens : ℤ} (h : tokens ≤ 0) (price : ℤ) :
    costNanos tokens price = 0 := if_pos (.inl h)

theorem costNanos_max_zero (tokens price : ℤ) :
    costNanos (max 0 tokens) price = costNanos tokens price := by
  rcases le_total tokens 0 with hnone | hsome
  · rw [max_eq_left hnone, costNanos, costNanos, if_pos (Or.inl le_rfl), if_pos (Or.inl hnone)]
  · rw [max_eq_right hsome]

/-- A cost grows with the tokens and with the rate. -/
theorem costNanos_mono {s t p q : ℤ} (hst : s ≤ t) (hpq : p ≤ q) :
    costNanos s p ≤ costNanos t q := by
  by_cases h : s ≤ 0 ∨ p ≤ 0
  · rw [costNanos, if_pos h]
    exact costNanos_nonneg t q
  · push Not at h
    rw [costNanos_of_nonneg h.1.le h.2.le,
      costNanos_of_nonneg (h.1.le.trans hst) (h.2.le.trans hpq)]
    exact Int.ediv_le_ediv (by decide)
      (mul_le_mul hst hpq h.2.le (h.1.le.trans hst))

/-- **Pieces never cost more than the whole**: each piece is rounded down. -/
theorem costNanos_add_le {s t : ℤ} (hs : 0 ≤ s) (ht : 0 ≤ t) (price : ℤ) :
    costNanos s price + costNanos t price ≤ costNanos (s + t) price := by
  rcases le_or_gt price 0 with hp | hp
  · simp only [costNanos_of_price_nonpos hp, add_zero, le_refl]
  · rw [costNanos_of_nonneg hs hp.le, costNanos_of_nonneg ht hp.le,
      costNanos_of_nonneg (add_nonneg hs ht) hp.le, add_mul]
    have hunit : (0 : ℤ) < tokensPerPriceUnit := by decide
    rw [Int.le_ediv_iff_mul_le hunit, add_mul]
    exact add_le_add (Int.ediv_mul_le _ hunit.ne') (Int.ediv_mul_le _ hunit.ne')

/-- Pieces cost at most one nano-unit less than the whole. -/
theorem costNanos_add_le_succ {s t : ℤ} (hs : 0 ≤ s) (ht : 0 ≤ t) (price : ℤ) :
    costNanos (s + t) price ≤ costNanos s price + costNanos t price + 1 := by
  rcases le_or_gt price 0 with hp | hp
  · simp only [costNanos_of_price_nonpos hp]
    omega
  · rw [costNanos_of_nonneg hs hp.le, costNanos_of_nonneg ht hp.le,
      costNanos_of_nonneg (add_nonneg hs ht) hp.le, add_mul]
    have hunit : (0 : ℤ) < tokensPerPriceUnit := by decide
    have hs' := Int.lt_ediv_add_one_mul_self (s * price) hunit
    have ht' := Int.lt_ediv_add_one_mul_self (t * price) hunit
    have hsum : s * price + t * price <
        (s * price / tokensPerPriceUnit + t * price / tokensPerPriceUnit + 2) *
          tokensPerPriceUnit := (add_lt_add hs' ht').trans_eq (by ring)
    have hless := Int.ediv_lt_of_lt_mul hunit hsum
    omega

/-- What tokens cost beyond the input rate when they are charged at a higher one, rounded up. -/
def surcharge (inputRate tokens rate : ℤ) : ℤ :=
  -(-(max 0 tokens * max 0 (rate - inputRate)) / tokensPerPriceUnit)

theorem surcharge_nonneg (inputRate tokens rate : ℤ) : 0 ≤ surcharge inputRate tokens rate := by
  have hprod : 0 ≤ max 0 tokens * max 0 (rate - inputRate) :=
    mul_nonneg (le_max_left _ _) (le_max_left _ _)
  have hdiv : -(max 0 tokens * max 0 (rate - inputRate)) / tokensPerPriceUnit ≤ 0 :=
    Int.ediv_le_of_le_mul (by decide) (by omega)
  unfold surcharge
  omega

/-- Tokens at another rate cost at most what they cost at the input rate and their surcharge. -/
theorem costNanos_le_surcharge (tokens rate inputRate : ℤ) :
    costNanos tokens rate ≤ costNanos tokens inputRate + surcharge inputRate tokens rate := by
  have hsur := surcharge_nonneg inputRate tokens rate
  by_cases h : tokens ≤ 0 ∨ rate ≤ 0
  · have hbase := costNanos_nonneg tokens inputRate
    rw [costNanos, if_pos h]
    omega
  · push Not at h
    obtain ⟨ht, hr⟩ := h
    rcases le_or_gt rate inputRate with hle | hgt
    · -- a rate that is not dearer needs no surcharge
      have hmono := costNanos_mono (le_refl tokens) hle
      omega
    · have hunit : (0 : ℤ) < tokensPerPriceUnit := by decide
      have hup : tokens * (rate - inputRate) ≤ surcharge inputRate tokens rate
          * tokensPerPriceUnit := by
        have hfloor := Int.ediv_mul_le (-(tokens * (rate - inputRate))) hunit.ne'
        rw [surcharge, max_eq_right ht.le, max_eq_right (by omega), neg_mul]
        omega
      rcases le_or_gt inputRate 0 with hneg | hpos
      · -- input that costs nothing: the surcharge carries the whole cost
        rw [costNanos_of_nonneg ht.le hr.le, costNanos_of_price_nonpos hneg, zero_add]
        refine Int.ediv_le_of_le_mul hunit ?_
        calc tokens * rate ≤ tokens * (rate - inputRate) :=
              mul_le_mul_of_nonneg_left (by omega) ht.le
          _ ≤ _ := hup
      · rw [costNanos_of_nonneg ht.le hr.le, costNanos_of_nonneg ht.le hpos.le]
        have hsplit : tokens * rate = tokens * inputRate + tokens * (rate - inputRate) := by
          ring
        rw [hsplit]
        calc (tokens * inputRate + tokens * (rate - inputRate)) / tokensPerPriceUnit
            ≤ (tokens * inputRate + surcharge inputRate tokens rate * tokensPerPriceUnit)
                / tokensPerPriceUnit := Int.ediv_le_ediv hunit (by omega)
          _ = tokens * inputRate / tokensPerPriceUnit + surcharge inputRate tokens rate :=
              Int.add_mul_ediv_right _ _ hunit.ne'

/-! ### What a bill can exceed its input by -/

namespace Rates

/-- What the cache reads and writes of a request cost beyond the input rate. -/
def cacheSurcharge (r : Rates) (usage : CanonicalUsage) : ℤ :=
  surcharge r.inputPerMillionNanos usage.cachedInputTokens r.cachedInputRate
    + surcharge r.inputPerMillionNanos (usage.cacheWriteTokens - longWrites usage)
        r.cacheWriteRate
    + surcharge r.inputPerMillionNanos (longWrites usage) r.longCacheWriteRate

/-- No token reported under this rate costs more than ordinary input. -/
def NoDearer (r : Rates) (tokens rate : ℤ) : Prop := tokens ≤ 0 ∨ rate ≤ r.inputPerMillionNanos

/-- No cache read or write of the request costs more than ordinary input. -/
structure CacheNoDearer (r : Rates) (usage : CanonicalUsage) : Prop where
  read : r.NoDearer usage.cachedInputTokens r.cachedInputRate
  write : r.NoDearer (usage.cacheWriteTokens - longWrites usage) r.cacheWriteRate
  long : r.NoDearer (longWrites usage) r.longCacheWriteRate

theorem surcharge_of_noDearer {r : Rates} {tokens rate : ℤ} (h : r.NoDearer tokens rate) :
    surcharge r.inputPerMillionNanos tokens rate = 0 := by
  have hzero : max 0 tokens * max 0 (rate - r.inputPerMillionNanos) = 0 := by
    rcases h with h | h
    · rw [max_eq_left h, zero_mul]
    · rw [max_eq_left (show rate - r.inputPerMillionNanos ≤ 0 by omega), mul_zero]
  rw [surcharge, hzero]
  rfl

theorem cacheSurcharge_of_noDearer {r : Rates} {usage : CanonicalUsage}
    (h : r.CacheNoDearer usage) : r.cacheSurcharge usage = 0 := by
  rw [cacheSurcharge, surcharge_of_noDearer h.read, surcharge_of_noDearer h.write,
    surcharge_of_noDearer h.long]
  rfl

/-- **A bill is at most the prompt at the input rate, the answer at the output rate and the
surcharge of its cache reads and writes**, for any split of the prompt. -/
theorem costNanos_le (r : Rates) {usage : CanonicalUsage} (hcached : 0 ≤ usage.cachedInputTokens)
    (hwrites : 0 ≤ usage.cacheWriteTokens)
    (hsplit : usage.cachedInputTokens + usage.cacheWriteTokens ≤ usage.promptTokens) :
    r.costNanos usage
      ≤ requestCostNanos usage.promptTokens usage.completionTokens r.inputPerMillionNanos
          r.outputPerMillionNanos + r.cacheSurcharge usage := by
  have hlong : 0 ≤ longWrites usage ∧ longWrites usage ≤ usage.cacheWriteTokens := by
    unfold longWrites
    omega
  have hread := costNanos_le_surcharge usage.cachedInputTokens r.cachedInputRate
    r.inputPerMillionNanos
  have hwrite := costNanos_le_surcharge (usage.cacheWriteTokens - longWrites usage)
    r.cacheWriteRate r.inputPerMillionNanos
  have hhour := costNanos_le_surcharge (longWrites usage) r.longCacheWriteRate
    r.inputPerMillionNanos
  -- at the input rate the four pieces of the prompt add up to at most the whole
  have huncached : usage.uncachedInputTokens
      = usage.promptTokens - usage.cachedInputTokens - usage.cacheWriteTokens := by
    unfold CanonicalUsage.uncachedInputTokens
    omega
  have hpieces₁ := costNanos_add_le (s := usage.uncachedInputTokens) (by omega) hcached
    r.inputPerMillionNanos
  have hpieces₂ := costNanos_add_le
    (s := usage.uncachedInputTokens + usage.cachedInputTokens) (by omega)
    (show 0 ≤ usage.cacheWriteTokens - longWrites usage by omega) r.inputPerMillionNanos
  have hpieces₃ := costNanos_add_le
    (s := usage.uncachedInputTokens + usage.cachedInputTokens
      + (usage.cacheWriteTokens - longWrites usage)) (by omega) hlong.1 r.inputPerMillionNanos
  have htotal : usage.uncachedInputTokens + usage.cachedInputTokens
      + (usage.cacheWriteTokens - longWrites usage) + longWrites usage = usage.promptTokens := by
    omega
  rw [htotal] at hpieces₃
  unfold costNanos cacheSurcharge requestCostNanos
  omega

end Rates

end AiraGateway
