import RowFilter.Decimal.Layout
import RowFilter.Script.Lexeme
import RowFilter.Text.Quoted
import RowFilter.Value

/-!
# Literals

How a value is written in a script, and how it is read.  A number without a fraction
and an exponent is an integer as long as it fits into 64 bits with a sign, and a
floating-point number otherwise; a number with either is always a floating-point
number.  Signs are not part of a literal, so the text written for a negative number is
read as an operator and its operand, and the texts written for infinity and for NaN
are read as names.
-/

set_option autoImplicit false

namespace RowFilter.Script

open Reader

/-! ## Writing -/

/-- Numbers from `0.0001` up to, but not including, `10 ^ 16` are written plainly, an
exponent has no plus sign, and of two equally close decimals the larger is taken. -/
def floatLayout : Decimal.Layout :=
  ⟨-4, 16, false, .upward⟩

/-- The text of a floating-point number in a script. -/
def floatText (x : Float) : String :=
  if x.isNaN then "NaN"
  else if x.isInf then if Binary64.isNegative x then "-inf" else "inf"
  else floatLayout.finite x

/-- The text of a value in a script. -/
def literalText : Value → String
  | .null => "null"
  | .boolean true => "true"
  | .boolean false => "false"
  | .integer n => n.toInt.repr
  | .float x => floatText x
  | .text s => Quoted.encode s

/-! ## Reading -/

/-- The number that a run of decimal digits stands for. -/
def ofDigits (digits : List Char) : Nat :=
  Nat.ofDigitChars 10 digits 0

/-- One or more decimal digits. -/
def digits : Reader (List Char) :=
  run1 Char.isDigit

/-- A power of ten: a mark, an optional sign and digits. -/
def exponent : Reader Int := do
  let _ ← satisfying fun c => c == 'e' || c == 'E'
  let sign ← optional (satisfying fun c => c == '+' || c == '-')
  let size ← digits
  return if sign = some '-' then -(ofDigits size : Int) else ofDigits size

/-- The value of a number given by its digits before the point, those after the point
and its exponent. -/
def numberValue (whole : List Char) : Option (List Char) → Option Int → Value
  | none, none =>
      if ofDigits whole < Nat.pow 2 63 then .integer (Int64.ofNat (ofDigits whole))
      else .float (Decimal.nearest ⟨ofDigits whole, 0⟩)
  | fraction, power =>
      let places := fraction.getD []
      .float (Decimal.nearest ⟨ofDigits (whole ++ places), power.getD 0 - places.length⟩)

/-- A number. -/
def number : Reader Value := do
  let whole ← digits
  let fraction ← optional (do char '.'; digits)
  let power ← optional exponent
  return numberValue whole fraction power

/-- A text between the given quotes. -/
def quotedBy (quote : Char) : Reader Value := do
  char quote
  fun s => (Quoted.decodeUpTo quote s).map fun (read, rest) => (.text (String.ofList read), rest)

/-- A text between double or single quotes. -/
def quoted : Reader Value :=
  quotedBy '"' <|> quotedBy '\x27'

/-- A word that stands for a value. -/
def wordFor (w : String) (value : Value) : Reader Value := do
  Lexeme.keyword w
  return value

/-- A literal. -/
def literal : Reader Value :=
  wordFor "true" (.boolean true) <|> wordFor "false" (.boolean false) <|>
    wordFor "null" .null <|> number <|> quoted

end RowFilter.Script
