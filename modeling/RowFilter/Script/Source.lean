import RowFilter.Script.Grammar
import RowFilter.Text.Position

/-!
# Scripts as text

A text is a script when statements can be read from it until nothing is left.  Reading
statements never fails as such: it goes on as far as it can, and whatever text remains
then is the one thing that can be wrong with a script.  The place where the remaining
text begins is reported.
-/

set_option autoImplicit false

namespace RowFilter.Script

/-- Statements have been read up to a place, and no further statement begins there. -/
structure ParseError where
  position : Position
deriving DecidableEq

/-- What is wrong, leaving the place aside. -/
def ParseError.detail (_ : ParseError) : String :=
  "unexpected trailing input"

/-- What is wrong, and where. -/
def ParseError.message (e : ParseError) : String :=
  e.detail ++ " (line " ++ e.position.line.repr ++ ", column " ++ e.position.column.repr ++
    ", offset " ++ e.position.offset.repr ++ ")"

/-- The part of a text before a given remainder of it. -/
def before (text rest : List Char) : List Char :=
  text.take (text.length - rest.length)

/-- The program that a text is. -/
def parse (source : String) : Except ParseError Program :=
  match Grammar.statements source.toList with
  | (program, []) => .ok program
  | (_, rest) => .error ⟨Position.after (before source.toList rest)⟩

end RowFilter.Script
