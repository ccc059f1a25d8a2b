import RowFilter.Binary64

/-!
# Decimals

A decimal is a whole coefficient scaled by a power of ten.  `Decimal.nearest` is
the floating-point number closest to it, which is how a number written in decimal
is read: the decimal becomes an exact fraction of the smallest positive
floating-point number, and that fraction is rounded once.

A decimal whose size lies far outside the floating-point range is settled by its
exponent alone, so that no power of ten larger than the written coefficient
warrants is ever formed.
-/

set_option autoImplicit false

namespace RowFilter

/-- The number `coefficient × 10 ^ exponent`. -/
structure Decimal where
  coefficient : Nat
  exponent : Int
deriving DecidableEq, Inhabited

namespace Decimal

/-- Numerator and denominator of a decimal, counted in units of the smallest
positive floating-point number `2 ^ -1074`. -/
def fraction (d : Decimal) : Nat × Nat :=
  (d.coefficient * Nat.pow 10 d.exponent.toNat * Nat.pow 2 1074, Nat.pow 10 (-d.exponent).toNat)

/-- Every decimal with a nonzero coefficient and an exponent beyond this bound
exceeds the largest finite floating-point number. -/
def greatExponent : Int := 400

/-- The rank of the floating-point number nearest to a decimal. -/
def nearestRank (d : Decimal) : Nat :=
  if d.coefficient = 0 then 0
  else if greatExponent < d.exponent then Binary64.infinityRank
  else if d.exponent + d.coefficient.log2 < -greatExponent then 0
  else Binary64.nearestRank d.fraction.1 d.fraction.2

/-- The floating-point number nearest to a decimal. -/
def nearest (d : Decimal) : Float :=
  Binary64.ofRank d.nearestRank

end Decimal
end RowFilter
