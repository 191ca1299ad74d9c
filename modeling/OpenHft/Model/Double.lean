import OpenHft.Lib.Rounding
import OpenHft.Model.Strategy

/-!
# `double`

The numbers the strategies compute with: rationals, of which every operation rounds its
result to 53 bits. Literals and integers that become a `double` are rounded as well. The
sign is not rounded. No strategy divides by zero, and what the strategies compute of prices
and quantities is far from the largest and the smallest exponent, so neither infinities nor
subnormal numbers are needed.

The processor rounds to nearest, ties to even; `Rounded` leaves the rounding open, and
`Double` has that one.
-/

namespace OpenHft

open Lib

/-- A number that is the result of operations rounded by `R`. -/
structure Rounded (R : Rounding 53) where
  val : ℚ

namespace Rounded

variable {R : Rounding 53}

instance : DoubleArith (Rounded R) where
  add x y := ⟨R.round (x.val + y.val)⟩
  sub x y := ⟨R.round (x.val - y.val)⟩
  mul x y := ⟨R.round (x.val * y.val)⟩
  div x y := ⟨R.round (x.val / y.val)⟩
  neg x := ⟨-x.val⟩
  ofScientific m s e := ⟨R.round (OfScientific.ofScientific m s e)⟩
  beq x y := x.val == y.val
  le x y := x.val ≤ y.val
  lt x y := x.val < y.val
  ofPrice price := ⟨R.round price.toInt⟩
  ofQuantity quantity := ⟨R.round quantity.toNat⟩
  decideLe x y := inferInstanceAs (Decidable (x.val ≤ y.val))
  decideLt x y := inferInstanceAs (Decidable (x.val < y.val))

end Rounded

/-- To the nearest number of 53 bits, and to the even one of two. -/
abbrev toNearest : Rounding 53 := nearestEven 53 (Nat.le_add_left 1 52)

/-- The numbers of the processor. -/
abbrev Double := Rounded toNearest

end OpenHft
