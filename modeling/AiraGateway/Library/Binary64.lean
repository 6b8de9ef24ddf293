import Mathlib.Data.Nat.Log
import Mathlib.Tactic.NormNum
import Mathlib.Tactic.Positivity

/-!
# Integers read as binary64

A language whose only number is the IEEE double reads an integer as the nearest number with a
53-bit significand, ties going to the even one. This module defines that reading on integers
and proves what a comparison made through it still says:

* it is exact up to `2 ^ 53` (`binary64OfInt_eq_self`);
* it never turns an order around (`binary64OfInt_mono`), so a value that has reached a bound is
  still seen to have reached it.

The range of the exponent plays no part: the integers read here are 64-bit.
-/

namespace AiraGateway

/-- The quotient of `n` by `u`, rounded to the nearest integer, a tie to the even one. -/
def divHalfEven (n u : ℕ) : ℕ :=
  if 2 * (n % u) < u ∨ (2 * (n % u) = u ∧ n / u % 2 = 0) then n / u else n / u + 1

/-- The distance between neighbouring doubles at the magnitude of `n`, at least one. -/
def spacing (n : ℕ) : ℕ := 2 ^ (n.log2 - 52)

/-- The double nearest to a natural number. -/
def binary64OfNat (n : ℕ) : ℕ := divHalfEven n (spacing n) * spacing n

/-- The double nearest to an integer: the sign is kept apart from the magnitude. -/
def binary64OfInt (z : ℤ) : ℤ :=
  if z < 0 then -(binary64OfNat z.natAbs : ℤ) else binary64OfNat z.natAbs

/-! ### Rounding a quotient -/

theorem div_le_divHalfEven (n u : ℕ) : n / u ≤ divHalfEven n u := by
  unfold divHalfEven
  split_ifs <;> omega

theorem divHalfEven_le_succ (n u : ℕ) : divHalfEven n u ≤ n / u + 1 := by
  unfold divHalfEven
  split_ifs <;> omega

@[simp]
theorem divHalfEven_one (n : ℕ) : divHalfEven n 1 = n := by
  simp [divHalfEven, Nat.mod_one]

/-- Rounding to a fixed step keeps the order. -/
theorem divHalfEven_mono {n m : ℕ} (u : ℕ) (h : n ≤ m) :
    divHalfEven n u ≤ divHalfEven m u := by
  rcases Nat.lt_or_ge (n / u) (m / u) with hlt | hge
  · calc divHalfEven n u ≤ n / u + 1 := divHalfEven_le_succ n u
      _ ≤ m / u := hlt
      _ ≤ divHalfEven m u := div_le_divHalfEven m u
  · -- same quotient: the remainders are ordered, and only the larger one can round up
    have hq : n / u = m / u := le_antisymm (Nat.div_le_div_right h) hge
    have hr : n % u ≤ m % u := by
      have hn := Nat.div_add_mod n u
      have hm := Nat.div_add_mod m u
      rw [hq] at hn
      omega
    unfold divHalfEven
    rw [hq]
    split_ifs <;> omega

/-! ### Rounding at the magnitude of the number itself -/

theorem spacing_pos (n : ℕ) : 0 < spacing n := by
  unfold spacing
  positivity

/-- Below `2 ^ 53` neighbouring doubles are one apart. -/
theorem spacing_eq_one {n : ℕ} (h : n < 2 ^ 53) : spacing n = 1 := by
  have hlog : Nat.log 2 n - 52 = 0 := by
    have := Nat.log_lt_of_lt_pow' (b := 2) (by norm_num : (53 : ℕ) ≠ 0) h
    omega
  rw [spacing, Nat.log2_eq_log_two, hlog, pow_zero]

theorem binary64OfNat_of_lt {n : ℕ} (h : n < 2 ^ 53) : binary64OfNat n = n := by
  rw [binary64OfNat, spacing_eq_one h, divHalfEven_one, Nat.mul_one]

/-- A power of two at or below a number is not passed by its reading. -/
theorem pow_log_le_binary64OfNat {n : ℕ} (h : 2 ^ 53 ≤ n) :
    2 ^ Nat.log 2 n ≤ binary64OfNat n := by
  have hn : n ≠ 0 := by
    rintro rfl
    norm_num at h
  have hk : 53 ≤ Nat.log 2 n := Nat.le_log_of_pow_le (by norm_num) h
  have hsplit : 2 ^ Nat.log 2 n = 2 ^ 52 * spacing n := by
    rw [spacing, Nat.log2_eq_log_two, ← pow_add]
    congr 1
    omega
  have hquot : 2 ^ 52 ≤ n / spacing n := by
    rw [Nat.le_div_iff_mul_le (spacing_pos n), ← hsplit]
    exact Nat.pow_log_le_self 2 hn
  calc 2 ^ Nat.log 2 n = 2 ^ 52 * spacing n := hsplit
    _ ≤ n / spacing n * spacing n := Nat.mul_le_mul_right _ hquot
    _ ≤ binary64OfNat n := Nat.mul_le_mul_right _ (div_le_divHalfEven n _)

/-- The next power of two bounds the reading. -/
theorem binary64OfNat_le_pow_log {n : ℕ} (h : 2 ^ 53 ≤ n) :
    binary64OfNat n ≤ 2 ^ (Nat.log 2 n + 1) := by
  have hk : 53 ≤ Nat.log 2 n := Nat.le_log_of_pow_le (by norm_num) h
  have hsplit : 2 ^ (Nat.log 2 n + 1) = 2 ^ 53 * spacing n := by
    rw [spacing, Nat.log2_eq_log_two, ← pow_add]
    congr 1
    omega
  have hquot : n / spacing n < 2 ^ 53 := by
    rw [Nat.div_lt_iff_lt_mul (spacing_pos n), ← hsplit]
    exact Nat.lt_pow_succ_log_self (by norm_num) n
  calc binary64OfNat n ≤ (n / spacing n + 1) * spacing n :=
        Nat.mul_le_mul_right _ (divHalfEven_le_succ n _)
    _ ≤ 2 ^ 53 * spacing n := Nat.mul_le_mul_right _ hquot
    _ = 2 ^ (Nat.log 2 n + 1) := hsplit.symm

/-- Reading as a double keeps the order of natural numbers. -/
theorem binary64OfNat_mono {n m : ℕ} (h : n ≤ m) : binary64OfNat n ≤ binary64OfNat m := by
  rcases Nat.lt_or_ge m (2 ^ 53) with hm | hm
  · rw [binary64OfNat_of_lt hm, binary64OfNat_of_lt (lt_of_le_of_lt h hm)]
    exact h
  rcases Nat.lt_or_ge n (2 ^ 53) with hn | hn
  · have hk : 53 ≤ Nat.log 2 m := Nat.le_log_of_pow_le (by norm_num) hm
    calc binary64OfNat n = n := binary64OfNat_of_lt hn
      _ ≤ 2 ^ 53 := hn.le
      _ ≤ 2 ^ Nat.log 2 m := Nat.pow_le_pow_right (by norm_num) hk
      _ ≤ binary64OfNat m := pow_log_le_binary64OfNat hm
  rcases Nat.lt_or_ge (Nat.log 2 n) (Nat.log 2 m) with hlt | hge
  · calc binary64OfNat n ≤ 2 ^ (Nat.log 2 n + 1) := binary64OfNat_le_pow_log hn
      _ ≤ 2 ^ Nat.log 2 m := Nat.pow_le_pow_right (by norm_num) hlt
      _ ≤ binary64OfNat m := pow_log_le_binary64OfNat hm
  · have hlog : Nat.log 2 n = Nat.log 2 m := le_antisymm (Nat.log_mono_right h) hge
    have hsp : spacing n = spacing m := by
      rw [spacing, spacing, Nat.log2_eq_log_two, Nat.log2_eq_log_two, hlog]
    rw [binary64OfNat, binary64OfNat, hsp]
    exact Nat.mul_le_mul_right _ (divHalfEven_mono _ h)

/-! ### Integers -/

/-- The reading is exact up to `2 ^ 53`. -/
theorem binary64OfInt_eq_self {z : ℤ} (h : z.natAbs ≤ 2 ^ 53) : binary64OfInt z = z := by
  have hmag : binary64OfNat z.natAbs = z.natAbs := by
    rcases Nat.lt_or_eq_of_le h with hlt | heq
    · exact binary64OfNat_of_lt hlt
    · rw [heq]
      decide +kernel
  unfold binary64OfInt
  rw [hmag]
  split_ifs <;> omega

/-- **Comparisons are never turned around**: reading as a double keeps the order. -/
theorem binary64OfInt_mono {x y : ℤ} (h : x ≤ y) : binary64OfInt x ≤ binary64OfInt y := by
  unfold binary64OfInt
  split_ifs with hx hy hy
  · have := binary64OfNat_mono (show y.natAbs ≤ x.natAbs by omega)
    omega
  · omega
  · omega
  · have := binary64OfNat_mono (show x.natAbs ≤ y.natAbs by omega)
    omega

/-- The sign is kept: a reading is negative exactly when the integer is. -/
theorem binary64OfInt_neg_iff {z : ℤ} : binary64OfInt z < 0 ↔ z < 0 := by
  constructor
  · intro h
    by_contra hz
    have hnn : (0 : ℤ) ≤ binary64OfInt z := by
      rw [← binary64OfInt_eq_self (z := 0) (by norm_num)]
      exact binary64OfInt_mono (not_lt.mp hz)
    exact absurd h (not_lt.mpr hnn)
  · intro h
    calc binary64OfInt z ≤ binary64OfInt (-1) := binary64OfInt_mono (by omega)
      _ = -1 := binary64OfInt_eq_self (by norm_num)
      _ < 0 := by norm_num

/-- A bound of at most `2 ^ 53` is compared exactly. -/
theorem binary64OfInt_le_iff {b x : ℤ} (hb : 0 ≤ b) (hb' : b ≤ 2 ^ 53) (hx : 0 ≤ x) :
    binary64OfInt b ≤ binary64OfInt x ↔ b ≤ x := by
  refine ⟨fun h => ?_, binary64OfInt_mono⟩
  by_contra hlt
  have hbx : binary64OfInt b = b := binary64OfInt_eq_self (by omega)
  have hxx : binary64OfInt x = x := binary64OfInt_eq_self (by omega)
  omega

end AiraGateway
