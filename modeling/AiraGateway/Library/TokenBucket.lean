import Mathlib.Algebra.Order.Field.Basic
import Mathlib.Algebra.Order.Group.MinMax
import Mathlib.Tactic.Linarith
import Mathlib.Tactic.Positivity
import Mathlib.Tactic.Ring

/-!
# Token buckets

A bucket holds at most its capacity and takes in tokens at a steady rate. A take at some moment
weighs a cost against several buckets at once: each of them is debited, or none is.

`Buckets` is what every bucket holds at one moment, over any ordered field. Time passes by
`advance`, which does not care in how many steps it does (`advance_advance`).

* **A refused take is the passing of time** (`take_of_refused`, `take_take_of_refused`).
* **Traffic is bounded** (`admitted_le`): what is admitted of a bucket in a stretch of time is at
  most its capacity and what it takes in meanwhile.
* **Waiting is enough** (`refusal_eq_none_of_wait`): after the wait told to a refused take, every
  bucket that can hold the cost does.
-/

namespace AiraGateway

universe u v

/-- How much a bucket holds, and how much it takes in within a unit of time. -/
structure BucketTerms (K : Type u) where
  capacity : K
  refill : K
  deriving DecidableEq

/-- What each bucket holds at a moment. -/
@[ext]
structure Buckets (ι : Type v) (K : Type u) where
  now : K
  held : ι → K

/-- A take: when, of which buckets, and how much of each. -/
structure Take (ι : Type v) (K : Type u) where
  moment : K
  keys : List ι
  cost : K

variable {ι : Type v} {K : Type u} [Field K] [LinearOrder K]

/-- What a bucket that holds so much holds some time later. -/
def BucketTerms.after (terms : BucketTerms K) (held elapsed : K) : K :=
  min terms.capacity (held + elapsed * terms.refill)

namespace BucketTerms

variable {terms : BucketTerms K} {held d e : K}

theorem after_le_capacity : terms.after held d ≤ terms.capacity := min_le_left ..

theorem after_le : terms.after held d ≤ held + d * terms.refill := min_le_right ..

variable [IsStrictOrderedRing K]

/-- What a bucket holds does not hang on how often it was looked at. -/
theorem after_after (hrefill : 0 ≤ terms.refill) (he : 0 ≤ e) :
    terms.after (terms.after held d) e = terms.after held (d + e) := by
  have hgain : 0 ≤ e * terms.refill := mul_nonneg he hrefill
  simp only [after]
  rcases le_total terms.capacity (held + d * terms.refill) with hfull | hroom
  · rw [min_eq_left hfull, min_eq_left (by linarith), min_eq_left (by linarith)]
  · rw [min_eq_right hroom, add_mul, add_assoc]

/-- A bucket is full once it took in what it lacked. -/
theorem after_eq_capacity (h : terms.capacity - held ≤ d * terms.refill) :
    terms.after held d = terms.capacity := by
  rw [after]
  exact min_eq_left (by linarith)

end BucketTerms

namespace Buckets

/-- The buckets at a later moment. -/
def advance (terms : ι → BucketTerms K) (b : Buckets ι K) (moment : K) : Buckets ι K where
  now := moment
  held := fun i => (terms i).after (b.held i) (moment - b.now)

/-- The first bucket that does not hold the cost. -/
def refusal (b : Buckets ι K) (keys : List ι) (cost : K) : Option ι :=
  keys.find? fun i => b.held i < cost

variable {terms : ι → BucketTerms K}

omit [Field K] in
theorem refusal_eq_none_iff {b : Buckets ι K} {keys : List ι} {cost : K} :
    b.refusal keys cost = none ↔ ∀ i ∈ keys, cost ≤ b.held i := by
  rw [refusal, List.find?_eq_none]
  simp

/-! ### Time and waiting -/

variable [IsStrictOrderedRing K]

/-- What a bucket comes to hold does not hang on whether it was looked at before. -/
theorem after_held_advance (hrefill : ∀ i, 0 ≤ (terms i).refill) (b : Buckets ι K) (i : ι) {t u : K}
    (h : t ≤ u) : (terms i).after ((b.advance terms t).held i) (u - t) =
      (terms i).after (b.held i) (u - b.now) := by
  have helapsed : t - b.now + (u - t) = u - b.now := by ring
  rw [← helapsed]
  exact BucketTerms.after_after (hrefill i) (sub_nonneg.mpr h)

/-- Time passes in one step as in two. -/
theorem advance_advance (hrefill : ∀ i, 0 ≤ (terms i).refill) (b : Buckets ι K) {t u : K}
    (h : t ≤ u) : (b.advance terms t).advance terms u = b.advance terms u := by
  refine Buckets.ext rfl ?_
  ext i
  exact after_held_advance hrefill b i h

/-- **Waiting is enough**: whoever was refused and comes back once every bucket that refused had
the time to take in what it lacked finds the cost in every bucket that can hold it. -/
theorem refusal_eq_none_of_wait (hrefill : ∀ i, 0 < (terms i).refill) {b : Buckets ι K}
    {t : Take ι K} {u : K} (hlater : t.moment ≤ u)
    (hwait : ∀ i ∈ t.keys, (b.advance terms t.moment).held i < t.cost →
      (t.cost - (b.advance terms t.moment).held i) / (terms i).refill ≤ u - t.moment)
    (hcapacity : ∀ i ∈ t.keys, t.cost ≤ (terms i).capacity) :
    (b.advance terms u).refusal t.keys t.cost = none := by
  rw [refusal_eq_none_iff]
  intro i hi
  have hadvance := advance_advance (fun i => (hrefill i).le) b hlater
  rw [← hadvance]
  change t.cost ≤ min (terms i).capacity
    ((b.advance terms t.moment).held i + (u - t.moment) * (terms i).refill)
  refine le_min (hcapacity i hi) ?_
  by_cases hless : (b.advance terms t.moment).held i < t.cost
  · have hneed := (div_le_iff₀ (hrefill i)).mp (hwait i hi hless)
    linarith
  · have hgain : 0 ≤ (u - t.moment) * (terms i).refill :=
      mul_nonneg (sub_nonneg.mpr hlater) (hrefill i).le
    linarith

/-! ### Takes -/

section Takes

variable [DecidableEq ι]

/-- Each of these buckets with the cost taken from it, once. -/
def debit (b : Buckets ι K) (keys : List ι) (cost : K) : Buckets ι K :=
  { b with held := fun i => if i ∈ keys then b.held i - cost else b.held i }

variable (terms) in
/-- All or nothing: every bucket is debited, or none is. -/
def take (b : Buckets ι K) (t : Take ι K) : Buckets ι K :=
  match (b.advance terms t.moment).refusal t.keys t.cost with
  | none => (b.advance terms t.moment).debit t.keys t.cost
  | some _ => b.advance terms t.moment

variable (terms) in
/-- What a run of takes is granted of one bucket from one moment to another, in all. -/
def admitted (i : ι) (first last : K) : Buckets ι K → List (Take ι K) → K
  | _, [] => 0
  | b, t :: rest =>
    (if (first ≤ t.moment ∧ t.moment ≤ last) ∧
        (b.advance terms t.moment).refusal t.keys t.cost = none ∧ i ∈ t.keys
      then t.cost else 0) +
      admitted i first last (b.take terms t) rest

omit [IsStrictOrderedRing K] in
theorem now_take (b : Buckets ι K) (t : Take ι K) : (b.take terms t).now = t.moment := by
  rw [take]
  split <;> rfl

omit [IsStrictOrderedRing K] in
/-- An admitted take debits every bucket it asked for, and no other. -/
theorem take_of_admitted {b : Buckets ι K} {t : Take ι K}
    (h : (b.advance terms t.moment).refusal t.keys t.cost = none) :
    b.take terms t = (b.advance terms t.moment).debit t.keys t.cost := by
  rw [take, h]

omit [IsStrictOrderedRing K] in
/-- What the buckets hold right after an admitted take. -/
theorem held_advance_take {b : Buckets ι K} {t : Take ι K}
    (h : (b.advance terms t.moment).refusal t.keys t.cost = none) (i : ι) :
    ((b.take terms t).advance terms t.moment).held i =
      if i ∈ t.keys then min (terms i).capacity ((b.advance terms t.moment).held i - t.cost)
      else (b.advance terms t.moment).held i := by
  rw [take_of_admitted h]
  change min (terms i).capacity
    ((if i ∈ t.keys then (b.advance terms t.moment).held i - t.cost
      else (b.advance terms t.moment).held i) + (t.moment - t.moment) * (terms i).refill) = _
  rw [sub_self, zero_mul, add_zero]
  split_ifs with hi
  · rfl
  · exact min_eq_right BucketTerms.after_le_capacity

omit [IsStrictOrderedRing K] in
/-- A refused take is the passing of time. -/
theorem take_of_refused {b : Buckets ι K} {t : Take ι K}
    (h : (b.advance terms t.moment).refusal t.keys t.cost ≠ none) :
    b.take terms t = b.advance terms t.moment := by
  rw [take]
  cases hrefused : (b.advance terms t.moment).refusal t.keys t.cost with
  | none => exact absurd hrefused h
  | some i => rfl

/-- What a take does does not hang on whether the buckets were looked at before. -/
theorem take_advance (hrefill : ∀ i, 0 ≤ (terms i).refill) (b : Buckets ι K) {t : Take ι K}
    {moment : K} (hlater : moment ≤ t.moment) :
    (b.advance terms moment).take terms t = b.take terms t := by
  have hadvance := advance_advance hrefill b hlater
  rw [take, take, hadvance]

/-- **A refused take changes no later one.** -/
theorem take_take_of_refused (hrefill : ∀ i, 0 ≤ (terms i).refill) {b : Buckets ι K}
    {t u : Take ι K} (h : (b.advance terms t.moment).refusal t.keys t.cost ≠ none)
    (hlater : t.moment ≤ u.moment) : (b.take terms t).take terms u = b.take terms u := by
  rw [take_of_refused h]
  exact take_advance hrefill b hlater

/-! ### What is admitted -/

omit [IsStrictOrderedRing K] in
private theorem admitted_eq_zero (i : ι) {first last : K} {b : Buckets ι K}
    {takes : List (Take ι K)} (hlate : ∀ t ∈ takes, last < t.moment) :
    admitted terms i first last b takes = 0 := by
  induction takes generalizing b with
  | nil => rfl
  | cons t rest ih =>
    rw [List.forall_mem_cons] at hlate
    have hout : ¬((first ≤ t.moment ∧ t.moment ≤ last) ∧
        (b.advance terms t.moment).refusal t.keys t.cost = none ∧ i ∈ t.keys) :=
      fun h => absurd h.1.2 (not_le.mpr hlate.1)
    rw [admitted, if_neg hout, ih hlate.2, add_zero]

/-- What is admitted of a bucket comes out of what it holds and what it takes in. -/
private theorem admitted_le_held (hrefill : ∀ i, 0 ≤ (terms i).refill) (i : ι) {b : Buckets ι K}
    {takes : List (Take ι K)} {first last : K}
    (hsorted : takes.Pairwise fun t u => t.moment ≤ u.moment)
    (hnow : ∀ t ∈ takes, b.now ≤ t.moment) (hfirst : first ≤ b.now) (hle : b.now ≤ last) :
    admitted terms i first last b takes ≤
      max 0 (b.held i) + (last - b.now) * (terms i).refill := by
  have hpos : 0 ≤ max 0 (b.held i) + (last - b.now) * (terms i).refill := by
    have hgain : 0 ≤ (last - b.now) * (terms i).refill :=
      mul_nonneg (sub_nonneg.mpr hle) (hrefill i)
    have hzero := le_max_left 0 (b.held i)
    exact add_nonneg hzero hgain
  induction takes generalizing b with
  | nil => exact hpos
  | cons t rest ih =>
    rw [List.pairwise_cons] at hsorted
    rw [List.forall_mem_cons] at hnow
    by_cases hlast : t.moment ≤ last
    · have hgain : 0 ≤ (last - t.moment) * (terms i).refill :=
        mul_nonneg (sub_nonneg.mpr hlast) (hrefill i)
      have hrest := ih (b := b.take terms t) hsorted.2
        (fun u hu => (now_take b t).le.trans (hsorted.1 u hu))
        (hfirst.trans (hnow.1.trans (now_take b t).ge)) ((now_take b t).le.trans hlast)
        (by rw [now_take]; exact add_nonneg (le_max_left ..) hgain)
      rw [now_take] at hrest
      have hheld : (b.advance terms t.moment).held i ≤
          b.held i + (t.moment - b.now) * (terms i).refill := BucketTerms.after_le
      have helapsed : 0 ≤ (t.moment - b.now) * (terms i).refill :=
        mul_nonneg (sub_nonneg.mpr hnow.1) (hrefill i)
      have hsplit : (t.moment - b.now) * (terms i).refill + (last - t.moment) * (terms i).refill =
          (last - b.now) * (terms i).refill := by ring
      have hmax := le_max_left 0 (b.held i)
      have hmax' := le_max_right 0 (b.held i)
      -- what is not debited is there to be taken later
      have hkept : max 0 ((b.advance terms t.moment).held i) ≤
          max 0 (b.held i) + (t.moment - b.now) * (terms i).refill :=
        max_le (by linarith) (by linarith)
      rw [admitted]
      by_cases hadmitted : (b.advance terms t.moment).refusal t.keys t.cost = none
      · rw [take_of_admitted hadmitted] at hrest ⊢
        rw [debit] at hrest
        by_cases hi : i ∈ t.keys
        · have hcost : t.cost ≤ (b.advance terms t.moment).held i :=
            refusal_eq_none_iff.mp hadmitted i hi
          simp only [if_pos hi] at hrest
          rw [max_eq_right (by linarith)] at hrest
          rw [if_pos ⟨⟨hfirst.trans hnow.1, hlast⟩, hadmitted, hi⟩]
          exact (add_le_add_right hrest t.cost).trans (by linarith)
        · rw [if_neg fun h => hi h.2.2, zero_add]
          simp only [if_neg hi] at hrest
          exact hrest.trans (by linarith)
      · rw [take_of_refused hadmitted] at hrest ⊢
        rw [if_neg fun h => hadmitted h.2.1, zero_add]
        exact hrest.trans (by linarith)
    · have hlate : ∀ u ∈ t :: rest, last < u.moment := by
        rw [List.forall_mem_cons]
        exact ⟨not_le.mp hlast, fun u hu => (not_le.mp hlast).trans_le (hsorted.1 u hu)⟩
      rw [admitted_eq_zero i hlate]
      exact hpos

/-- **Traffic is bounded**: what a run of takes is granted of a bucket from one moment to another
is at most its capacity and what it takes in meanwhile. -/
theorem admitted_le (hrefill : ∀ i, 0 ≤ (terms i).refill) (i : ι) (b : Buckets ι K)
    {takes : List (Take ι K)} {first last : K}
    (hsorted : takes.Pairwise fun t u => t.moment ≤ u.moment) (hle : first ≤ last) :
    admitted terms i first last b takes ≤
      max 0 (terms i).capacity + (last - first) * (terms i).refill := by
  induction takes generalizing b with
  | nil =>
    have hgain : 0 ≤ (last - first) * (terms i).refill :=
      mul_nonneg (sub_nonneg.mpr hle) (hrefill i)
    exact add_nonneg (le_max_left ..) hgain
  | cons t rest ih =>
    by_cases hearly : t.moment < first
    · have hout : ¬((first ≤ t.moment ∧ t.moment ≤ last) ∧
          (b.advance terms t.moment).refusal t.keys t.cost = none ∧ i ∈ t.keys) :=
        fun h => absurd h.1.1 (not_le.mpr hearly)
      rw [admitted, if_neg hout, zero_add]
      exact ih _ (List.pairwise_cons.mp hsorted).2
    · -- the buckets as they are when the stretch begins
      have hfirst : first ≤ t.moment := not_lt.mp hearly
      have hadvance : admitted terms i first last b (t :: rest) =
          admitted terms i first last (b.advance terms first) (t :: rest) := by
        have hsame := advance_advance hrefill b hfirst
        have htake := take_advance hrefill b hfirst
        rw [admitted, admitted, hsame, htake]
      have hafter : ∀ u ∈ t :: rest, first ≤ u.moment := by
        rw [List.forall_mem_cons]
        exact ⟨hfirst, fun u hu => hfirst.trans ((List.pairwise_cons.mp hsorted).1 u hu)⟩
      have hheld := admitted_le_held hrefill i (b := b.advance terms first) hsorted hafter
        le_rfl hle
      have hfull : max 0 ((b.advance terms first).held i) ≤ max 0 (terms i).capacity :=
        max_le_max le_rfl BucketTerms.after_le_capacity
      rw [hadvance]
      exact hheld.trans (add_le_add_left hfull _)

end Takes

end Buckets

end AiraGateway
