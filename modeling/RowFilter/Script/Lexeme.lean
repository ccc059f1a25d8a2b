import RowFilter.Text.Reader

/-!
# Names, keywords and gaps

The smallest parts of a script.  Names are ASCII: a letter, an underscore or a dollar
sign, then any of these and digits.  A name that is reserved for the language may name
a member of an object but nothing else.  A keyword is read only where no longer name
could have been read.

Between any two parts there may be a gap of white space and comments.  A comment that
is never closed is no comment.
-/

set_option autoImplicit false

namespace RowFilter.Script.Lexeme

open Reader

/-! ## Names -/

/-- A character that may begin a name. -/
def isNameStart (c : Char) : Bool :=
  c.isAlpha || c == '_' || c == '$'

/-- A character that may continue a name. -/
def isNameChar (c : Char) : Bool :=
  c.isAlphanum || c == '_' || c == '$'

/-- Names that no variable, parameter or function may have. -/
def reserved : List String :=
  [ "await", "class", "const", "delete", "else", "false", "function", "if", "in",
    "instanceof", "let", "new", "null", "return", "this", "true", "typeof", "var",
    "void", "yield" ]

/-- Any name, reserved or not. -/
def name : Reader String := do
  let first ← satisfying isNameStart
  let others ← run isNameChar
  return String.ofList (first :: others)

/-- A name that is not reserved. -/
def identifier : Reader String := do
  let read ← name
  if read ∈ reserved then refuse else return read

/-- A word of the language, not followed by a character that would continue it. -/
def keyword (w : String) : Reader Unit := do
  word w
  notNext isNameChar

/-! ## Gaps -/

/-- White space: a blank, a tab, a carriage return or a line feed. -/
def isSpace (c : Char) : Bool :=
  c == ' ' || c == '\t' || c == '\r' || c == '\n'

/-- A comment up to the end of its line. -/
def lineComment : Reader Unit := do
  word "//"
  let _ ← run fun c => c != '\n' && c != '\r'

/-- What follows the first closing mark of a comment. -/
def afterClosingMark : List Char → Option (List Char)
  | [] => none
  | '*' :: '/' :: rest => some rest
  | _ :: rest => afterClosingMark rest

/-- A comment between an opening and a closing mark. -/
def blockComment : Reader Unit := do
  word "/*"
  fun s => (afterClosingMark s).map fun rest => ((), rest)

/-- One white-space character or one comment. -/
def gap : Reader Unit :=
  (do let _ ← satisfying isSpace) <|> lineComment <|> blockComment

/-- A text without the white space and the comments that it begins with. -/
def skipGaps (s : List Char) : List Char :=
  (repeated gap s).2

/-- All white space and comments up to the next part of the script. -/
def gaps : Reader Unit := fun s => some ((), skipGaps s)

/-- Go on after a gap, if there is one. -/
def afterGaps {α : Type} (p : Reader α) : Reader α := do
  gaps
  p

/-- One character of punctuation, with a gap before it. -/
def sign (c : Char) : Reader Unit :=
  afterGaps (char c)

end RowFilter.Script.Lexeme
