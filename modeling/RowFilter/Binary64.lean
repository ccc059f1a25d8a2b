/-!
# The binary64 numbers in order

The nonnegative floating-point numbers, listed in increasing order from zero, have
bit patterns `0, 1, 2, …`.  The position of a number in this list is its *rank*, and
the rank after the largest finite number stands for infinity.

Every finite number is a whole multiple of the smallest positive one, `2 ^ -1074`.
`units` gives that multiple exactly, so comparing and rounding numbers becomes
arithmetic on natural numbers: `nearestRank` rounds a fraction of units to the
closest rank, and a tie goes to the even rank, which is the rank whose significand
is even.
-/

set_option autoImplicit false

namespace RowFilter.Binary64

/-- How many ranks share one power of two. -/
def binade : Nat := Nat.pow 2 52

/-- The rank of infinity, one past the largest finite number. -/
def infinityRank : Nat := 2047 * binade

/-- The number at a rank, as a multiple of `2 ^ -1074`. -/
def units (rank : Nat) : Nat :=
  if rank < binade then rank
  else (rank % binade + binade) * Nat.pow 2 (rank / binade - 1)

/-- The quotient of two natural numbers, rounded to the nearest natural number, a
tie going to the even one. -/
def roundQuotient (numerator denominator : Nat) : Nat :=
  let whole := numerator / denominator
  let twice := 2 * (numerator % denominator)
  if twice < denominator then whole
  else if denominator < twice then whole + 1
  else whole + whole % 2

/-- The rank of the number nearest to `numerator / denominator` units.  Carrying out
of a significand enters the next power of two by itself, because ranks count on
across it. -/
def nearestRank (numerator denominator : Nat) : Nat :=
  let scale := (numerator / denominator).log2 - 52
  min infinityRank (scale * binade + roundQuotient numerator (denominator * Nat.pow 2 scale))

/-- The nonnegative floating-point number at a rank. -/
def ofRank (rank : Nat) : Float :=
  Float.ofBits (UInt64.ofNat rank)

/-- The rank of the magnitude of a floating-point number. -/
def rank (x : Float) : Nat :=
  x.toBits.toNat % Nat.pow 2 63

/-- Whether the sign of a floating-point number is negative, as it is for `-0.0`. -/
def isNegative (x : Float) : Bool :=
  Nat.pow 2 63 ≤ x.toBits.toNat

end RowFilter.Binary64
