import RowFilter.Decimal.Layout

/-!
# JSON documents

Documents as trees, and two texts of a document: a compact one, and one that spreads
over lines.  Integers and floating-point numbers are kept apart, and their texts are
never alike, because a floating-point number always shows a fraction or an exponent.
Infinities and NaN have no text in JSON, and are written as `null`.
-/

set_option autoImplicit false

namespace RowFilter

/-- A JSON document. -/
inductive Json where
  | null
  | boolean (truth : Bool)
  | integer (number : Int)
  | float (number : Float)
  | text (characters : String)
  | array (items : List Json)
  | object (members : List (String × Json))

namespace Json

instance : Inhabited Json := ⟨.null⟩

/-! ## Scalars -/

/-- Numbers from `0.00001` up to, but not including, `10 ^ 16` are written plainly, a
positive exponent has a plus sign, and of two equally close decimals the one with an even
coefficient is taken. -/
def floatLayout : Decimal.Layout :=
  ⟨-5, 16, true, .even⟩

/-- The text of a floating-point number. -/
def floatText (x : Float) : String :=
  if x.isFinite then floatLayout.finite x else "null"

/-- A character as it is written inside a JSON text.  Only quotes, backslashes and
control characters are escaped. -/
def escape (c : Char) : List Char :=
  if c = '"' then ['\\', '"']
  else if c = '\\' then ['\\', '\\']
  else if c = '\x08' then ['\\', 'b']
  else if c = '\t' then ['\\', 't']
  else if c = '\n' then ['\\', 'n']
  else if c = '\x0c' then ['\\', 'f']
  else if c = '\r' then ['\\', 'r']
  else if c.toNat < 0x20 then
    ['\\', 'u', '0', '0', (c.toNat / 16).digitChar, (c.toNat % 16).digitChar]
  else [c]

/-- A text between double quotes. -/
def quoted (s : String) : String :=
  "\"" ++ String.ofList (s.toList.flatMap escape) ++ "\""

/-! ## Documents -/

/-- Items between an opening and a closing mark, each on a line of its own with two more
blanks before it than before the marks. -/
def spread (opening closing : String) (depth : Nat) (items : List String) : String :=
  let margin (levels : Nat) := String.ofList (List.replicate (2 * levels) ' ')
  if items.isEmpty then opening ++ closing
  else
    opening ++ "\n" ++ ",\n".intercalate (items.map (margin (depth + 1) ++ ·)) ++ "\n" ++
      margin depth ++ closing

mutual
/-- The text of a document without any spacing. -/
def compact : Json → String
  | .null => "null"
  | .boolean true => "true"
  | .boolean false => "false"
  | .integer n => n.repr
  | .float x => floatText x
  | .text s => quoted s
  | .array items => "[" ++ ",".intercalate (compactItems items) ++ "]"
  | .object members => "\x7b" ++ ",".intercalate (compactMembers members) ++ "\x7d"

/-- The compact texts of items. -/
def compactItems : List Json → List String
  | [] => []
  | item :: items => item.compact :: compactItems items

/-- The compact texts of members. -/
def compactMembers : List (String × Json) → List String
  | [] => []
  | (key, value) :: members => (quoted key ++ ":" ++ value.compact) :: compactMembers members
end

mutual
/-- The text of a document that is spread over lines, `depth` levels from the margin. -/
def pretty (depth : Nat) : Json → String
  | .array items => spread "[" "]" depth (prettyItems (depth + 1) items)
  | .object members => spread "\x7b" "\x7d" depth (prettyMembers (depth + 1) members)
  | scalar => scalar.compact

/-- The texts of items. -/
def prettyItems (depth : Nat) : List Json → List String
  | [] => []
  | item :: items => item.pretty depth :: prettyItems depth items

/-- The texts of members. -/
def prettyMembers (depth : Nat) : List (String × Json) → List String
  | [] => []
  | (key, value) :: members =>
      (quoted key ++ ": " ++ value.pretty depth) :: prettyMembers depth members
end

end Json
end RowFilter
