import RowFilter.Decimal.Shortest

/-!
# Writing floating-point numbers

A `Layout` holds the decisions a format makes about numbers: for which sizes the
digits are written plainly around a point, and how an exponent is written
otherwise.  The digits themselves are always those of the shortest decimal that
reads back, and a plainly written number always has a digit after its point, so that
it is not taken for an integer.
-/

set_option autoImplicit false

namespace RowFilter.Decimal

/-- The decisions of a format on how floating-point numbers are written.  A number
between one and ten times `10 ^ e` is written plainly when
`leastPlain ≤ e < plainLimit`. -/
structure Layout where
  leastPlain : Int
  plainLimit : Int
  /-- Whether a positive exponent carries a plus sign. -/
  plusSign : Bool
  tie : TieRule

/-- The digits of a coefficient, with `zeros` trailing zeros. -/
def padded (digits : List Char) (zeros : Nat) : List Char :=
  digits ++ List.replicate zeros '0'

/-- Digits with the point after the first of them when `scale` is zero, further right
when it is positive, and further left when it is negative. -/
def plain (digits : List Char) (scale : Int) : List Char :=
  match scale with
  | .negSucc zeros => '0' :: '.' :: (List.replicate zeros '0' ++ digits)
  | .ofNat places =>
      if digits.length ≤ places + 1 then
        padded digits (places + 1 - digits.length) ++ ['.', '0']
      else digits.take (places + 1) ++ '.' :: digits.drop (places + 1)

/-- Digits with the point after the first of them, and the power of ten written out. -/
def scientific (plusSign : Bool) (digits : List Char) (scale : Int) : List Char :=
  let exponent := if plusSign && 0 < scale then '+' :: scale.repr.toList else scale.repr.toList
  match digits with
  | [] => []
  | [d] => d :: 'e' :: exponent
  | d :: rest => d :: '.' :: (rest ++ 'e' :: exponent)

/-- A decimal whose coefficient does not end in a zero, unless it is zero. -/
def written (layout : Layout) (d : Decimal) : List Char :=
  let digits := Nat.toDigits 10 d.coefficient
  let scale := d.exponent + (digits.length - 1 : Nat)
  if layout.leastPlain ≤ scale ∧ scale < layout.plainLimit then plain digits scale
  else scientific layout.plusSign digits scale

/-- The text of a finite floating-point number. -/
def Layout.finite (layout : Layout) (x : Float) : String :=
  let magnitude := String.ofList (written layout (shortest layout.tie (Binary64.rank x)))
  if Binary64.isNegative x then "-" ++ magnitude else magnitude

end RowFilter.Decimal
