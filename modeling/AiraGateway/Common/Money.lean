import AiraGateway.Library.CodePoints
import Mathlib.Algebra.Order.Ring.Abs

/-!
# Amounts of money

An amount is a whole number of nano-units of the currency. It is shown with two decimals, or with as
many as it takes not to show something as nothing.
-/

namespace AiraGateway

/-- A decimal number of so many places. -/
structure Amount where
  negative : Bool
  coefficient : ℕ
  places : ℕ

namespace Amount

/-- A decimal number as it is written: with an exponent where more than five zeros would follow the
point. -/
def text (amount : Amount) : CodePoints :=
  let digits := points (Nat.toDigits 10 amount.coefficient)
  let sign : CodePoints := if amount.negative then [45] else []
  let zeros := List.replicate (amount.places + 1 - digits.length) 48
  let padded := zeros ++ digits
  if amount.places < digits.length + 6 then
    if amount.places = 0 then sign ++ digits
    else sign ++ padded.take (padded.length - amount.places) ++
      46 :: padded.drop (padded.length - amount.places)
  else
    let exponent := points (Nat.toDigits 10 (amount.places + 1 - digits.length))
    let fraction := if digits.length = 1 then [] else 46 :: digits.drop 1
    sign ++ digits.take 1 ++ fraction ++ 69 :: 45 :: exponent

end Amount

/-- Nano-units rounded half up to so many decimals, nine at most. -/
def rounded (nanos : ℤ) (places : ℕ) : Amount :=
  let unit := 10 ^ (9 - places)
  { negative := nanos < 0
    coefficient := (2 * nanos.natAbs + unit) / (2 * unit)
    places := places }

/-- Amounts that can be stated to the nano-unit. -/
def Statable (nanos : ℤ) : Prop := nanos.natAbs < 10 ^ 28

instance (nanos : ℤ) : Decidable (Statable nanos) := inferInstanceAs (Decidable (_ < _))

/-- What is shown of an amount: two decimals, or the fewest of four, six and nine that show
something. -/
def displayed (nanos : ℤ) : Amount :=
  if nanos = 0 ∨ (rounded nanos 2).coefficient ≠ 0 then rounded nanos 2
  else
    (([4, 6, 9].map (rounded nanos)).find? (·.coefficient ≠ 0)).getD (rounded nanos 2)

/-- Nano-units for a person, or nothing where they cannot be stated. -/
def formatDisplay (nanos : ℤ) : Option CodePoints :=
  if Statable nanos then some (displayed nanos).text else none

example : (displayed 1234567890).text = "1.23" ∧ (displayed (-499)).text = "-4.99E-7" := by decide

end AiraGateway
