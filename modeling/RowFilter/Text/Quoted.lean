/-!
# Quoted texts

A quoted text stands between two equal quotes, with a backslash before each character
that must not be taken literally.  Writing escapes as little as it can and always uses
double quotes.  Reading is more generous: either quote may be used, and a backslash
before a character without a meaning of its own stands for that character.  A line
feed that is not escaped, or the end of the text, leaves a quotation unfinished.
-/

set_option autoImplicit false

namespace RowFilter.Quoted

/-! ## Writing -/

/-- A character as it is written between double quotes. -/
def escape : Char → List Char
  | '"' => ['\\', '"']
  | '\\' => ['\\', '\\']
  | '\n' => ['\\', 'n']
  | '\t' => ['\\', 't']
  | '\r' => ['\\', 'r']
  | '\x00' => ['\\', '0']
  | c => [c]

/-- A text between double quotes. -/
def encode (s : String) : String :=
  "\"" ++ String.ofList (s.toList.flatMap escape) ++ "\""

/-! ## Reading -/

/-- The character that a backslash and the given character stand for. -/
def unescape : Char → Char
  | 'n' => '\n'
  | 't' => '\t'
  | 'r' => '\r'
  | '0' => '\x00'
  | c => c

/-- The characters up to the closing quote, and the text after it. -/
def decodeUpTo (quote : Char) : List Char → Option (List Char × List Char)
  | [] => none
  | '\\' :: [] => none
  | '\\' :: c :: rest =>
      (decodeUpTo quote rest).map fun (read, after) => (unescape c :: read, after)
  | c :: rest =>
      if c = quote then some ([], rest)
      else if c = '\n' then none
      else (decodeUpTo quote rest).map fun (read, after) => (c :: read, after)

end RowFilter.Quoted
