import RowFilter.Json
import RowFilter.Proofs.Binary64
import RowFilter.Script.Literal

/-!
# The grammar of JSON documents

The texts that a program at the other end may read as a document, whoever has written them.
White space may stand between any two parts, any character of a text may be written by its
code, and a number is an integer unless it shows a point or an exponent.  There is no comma
after the last item, and a number begins with a zero only if the zero stands by itself.

Documents contain documents, so the rules take the reader for the documents inside, and the
knot is tied by length, as it is for scripts.
-/

set_option autoImplicit false

namespace RowFilter.Json.Grammar

open Reader

/-! ## White space -/

/-- White space: a blank, a tab, a line feed or a carriage return. -/
def isSpace (c : Char) : Bool :=
  c == ' ' || c == '\t' || c == '\n' || c == '\r'

/-- White space, if there is any. -/
def spaces : Reader Unit := do
  let _ ← run isSpace

/-- A part of a document and the white space after it. -/
def spaced {α : Type} (p : Reader α) : Reader α := do
  let a ← p
  spaces
  return a

/-- A mark between parts and the white space after it. -/
def mark (c : Char) : Reader Unit :=
  spaced (char c)

/-! ## Numbers -/

/-- The digits before the point: a zero by itself, or digits that begin with another. -/
def whole : Reader (List Char) :=
  (do char '0'; return ['0']) <|> Script.digits

/-- The number given by its sign, its digits before the point, those after the point and its
exponent. -/
def numberValue (negative : Bool) (whole : List Char) : Option (List Char) → Option Int → Json
  | none, none =>
      .integer (if negative then -(Script.ofDigits whole : Int) else Script.ofDigits whole)
  | fraction, power =>
      let places := fraction.getD []
      .float (Binary64.withSign negative
        (Decimal.nearestRank ⟨Script.ofDigits (whole ++ places), power.getD 0 - places.length⟩))

/-- A number. -/
def number : Reader Json := do
  let sign ← optional (char '-')
  let digits ← whole
  let fraction ← optional (do char '.'; Script.digits)
  let power ← optional Script.exponent
  return numberValue sign.isSome digits fraction power

/-! ## Texts -/

/-- The value of a hexadecimal digit. -/
def hexValue (c : Char) : Option Nat :=
  if c.isDigit then some (c.toNat - '0'.toNat)
  else if 'a' ≤ c && c ≤ 'f' then some (c.toNat - 'a'.toNat + 10)
  else if 'A' ≤ c && c ≤ 'F' then some (c.toNat - 'A'.toNat + 10)
  else none

/-- A hexadecimal digit. -/
def hexDigit : Reader Nat
  | [] => none
  | c :: rest => (hexValue c).map fun digit => (digit, rest)

/-- A code of four hexadecimal digits. -/
def code : Reader Nat := do
  let a ← hexDigit
  let b ← hexDigit
  let c ← hexDigit
  let d ← hexDigit
  return ((a * 16 + b) * 16 + c) * 16 + d

/-- A code that is the first half of a character. -/
def isHigh (n : Nat) : Bool := 0xD800 ≤ n && n < 0xDC00

/-- A code that is the second half of a character. -/
def isLow (n : Nat) : Bool := 0xDC00 ≤ n && n < 0xE000

/-- A character by its code, or by the codes of its two halves. -/
def coded : Reader Char := do
  let first ← code
  if isHigh first then
    word "\\u"
    let second ← code
    if isLow second then
      return Char.ofNat (0x10000 + (first - 0xD800) * 0x400 + (second - 0xDC00))
    else refuse
  else if isLow first then refuse
  else return Char.ofNat first

/-- The letters that stand for a character after a backslash. -/
def letters : List (Char × Char) :=
  [('"', '"'), ('\\', '\\'), ('/', '/'), ('b', '\x08'), ('f', '\x0c'), ('n', '\n'),
    ('r', '\r'), ('t', '\t')]

/-- A character by its letter. -/
def lettered : Reader Char
  | [] => none
  | c :: rest => (letters.lookup c).map fun read => (read, rest)

/-- A character that stands for itself between quotes. -/
def isBare (c : Char) : Bool :=
  c != '"' && c != '\\' && 0x20 ≤ c.toNat

/-- A character between quotes. -/
def character : Reader Char :=
  satisfying isBare <|> (do char '\\'; lettered <|> (do char 'u'; coded))

/-- A text between quotes. -/
def quotation : Reader String := do
  char '"'
  let characters ← many character
  char '"'
  return String.ofList characters

/-! ## Documents -/

/-- Elements between an opening and a closing mark with commas between them. -/
def listed {α : Type} (opening closing : Char) (element : Reader α) : Reader (List α) := do
  mark opening
  let elements ← separated (spaced element) (mark ',')
  char closing
  return elements

/-- A key, a colon and a document. -/
def member (document : Reader Json) : Reader (String × Json) := do
  let key ← spaced quotation
  mark ':'
  let value ← document
  return (key, value)

/-- Items in brackets. -/
def array (document : Reader Json) : Reader Json :=
  Json.array <$> listed '[' ']' document

/-- Members in braces. -/
def object (document : Reader Json) : Reader Json :=
  Json.object <$> listed '\x7b' '\x7d' (member document)

/-- A word that stands for a value. -/
def wordFor (w : String) (value : Json) : Reader Json := do
  word w
  return value

/-- A document, given a reader for the documents inside it. -/
def documentOf (document : Reader Json) : Reader Json :=
  wordFor "null" .null <|> wordFor "true" (.boolean true) <|> wordFor "false" (.boolean false) <|>
    number <|> Json.text <$> quotation <|> array document <|> object document

/-- Documents from texts of fewer than the given number of characters. -/
def within : Nat → Reader Json
  | 0 => refuse
  | n + 1 => documentOf (within n)

/-- A document with white space before and after it. -/
def document : Reader Json := do
  spaces
  spaced fun s => within (s.length + 1) s

end Grammar

/-- The document that a text is. -/
def read (s : String) : Option Json :=
  (Grammar.document s.toList).bind fun found => if found.2.isEmpty then some found.1 else none

end RowFilter.Json
