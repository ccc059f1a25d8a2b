import RowFilter.Decimal.Basic

/-!
# The shortest decimal of a floating-point number

Many decimals read back as a given floating-point number.  `shortest` takes one
with the fewest digits and, among those, the one closest to the number itself.

A number of rank `r` is exactly `units r × 5 ^ 1074` times `10 ^ -1074`.  Dropping
the last `n` digits of that coefficient leaves the two neighbours of the number on
the decimal grid of spacing `10 ^ (n - 1074)`.  The search starts on the coarsest
grid and refines it one digit at a time until a neighbour reads back; on the finest
grid the number itself is one of its neighbours, so the search always ends with a
decimal that reads back.
-/

set_option autoImplicit false

namespace RowFilter.Decimal

/-- Which of two equally close decimals is taken. -/
inductive TieRule where
  /-- The larger one. -/
  | upward
  /-- The one with an even coefficient. -/
  | even
deriving DecidableEq

/-- The neighbours of `coefficient` on the grid that drops its last `dropped` digits,
in the order in which they are preferred: the closer one first. -/
def neighbours (tie : TieRule) (coefficient dropped : Nat) : Nat × Nat :=
  let below := coefficient / Nat.pow 10 dropped
  let twice := 2 * (coefficient % Nat.pow 10 dropped)
  let closerBelow : Bool :=
    if twice = Nat.pow 10 dropped then
      match tie with
      | .upward => false
      | .even => below % 2 == 0
    else twice < Nat.pow 10 dropped
  if closerBelow then (below, below + 1) else (below + 1, below)

/-- The decimal that a coefficient stands for on the grid that drops `dropped` of the
digits after the point. -/
def onGrid (coefficient dropped : Nat) : Decimal :=
  ⟨coefficient, dropped - 1074⟩

/-- Search the grids from the one that drops `dropped` digits down to the exact one. -/
def searchGrids (tie : TieRule) (rank coefficient : Nat) : Nat → Decimal
  | 0 => onGrid coefficient 0
  | dropped + 1 =>
      let (closer, other) := neighbours tie coefficient (dropped + 1)
      if (onGrid closer (dropped + 1)).nearestRank = rank then onGrid closer (dropped + 1)
      else if (onGrid other (dropped + 1)).nearestRank = rank then onGrid other (dropped + 1)
      else searchGrids tie rank coefficient dropped

/-- No natural number has more decimal digits than this, because `2 ^ 100000` is less than
`10 ^ 30103`. -/
def digitBound (n : Nat) : Nat :=
  n.log2 * 30103 / 100000 + 1

/-- The shortest decimal that reads back as the number at a finite rank. -/
def shortest (tie : TieRule) (rank : Nat) : Decimal :=
  if rank = 0 then ⟨0, 0⟩
  else
    let coefficient := Binary64.units rank * Nat.pow 5 1074
    searchGrids tie rank coefficient (digitBound coefficient)

end RowFilter.Decimal
