import KeyRelay.Decimal.Binary

/-!
The numbers rates are computed in. The programs compute rates in IEEE doubles, where a NaN
compares false with every number, and report them as doubles; the same computations can be
read in exact rationals, where nothing rounds and nothing is NaN.

The least and the greatest of two rates pass over a NaN operand, and of two operands that
compare equal (zeros of either sign among them) keep the second, as the doubles' `min` and
`max` do.
-/
namespace KeyRelay

/-- Numbers that rates are computed in. -/
class RateArith (R : Type) extends Zero R, Add R, Sub R, Mul R, Div R where
  /-- `a < b`; false when either is NaN. -/
  lt : R → R → Bool
  /-- The rate of a whole count. -/
  ofNat : Nat → R
  isNaN : R → Bool
  /-- The double a rate is reported as. -/
  toFloat : R → Float

namespace RateArith

variable {R : Type} [RateArith R]

/-- The lesser of two rates. -/
def least (a b : R) : R := if isNaN a then b else if isNaN b then a else if lt a b then a else b

/-- The greater of two rates. -/
def greatest (a b : R) : R := if isNaN a then b else if isNaN b then a else if lt b a then a else b

end RateArith

instance : RateArith Float where
  zero := 0.0
  lt a b := a < b
  ofNat := Binary.ofNat
  isNaN := Float.isNaN
  toFloat := id

end KeyRelay
