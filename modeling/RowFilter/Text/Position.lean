/-!
# Places in a text

A place between two characters of a text is described in three ways at once: by the
number of bytes before it in UTF-8, by the number of the line it is on, and by its
column, counted in characters.  All three are determined by the text that comes
before the place, so `Position.after` reads them off that text.
-/

set_option autoImplicit false

namespace RowFilter

/-- A place in a text.  Lines and columns count from one. -/
structure Position where
  /-- Bytes before the place. -/
  offset : Nat
  line : Nat
  column : Nat
deriving DecidableEq, Inhabited

namespace Position

/-- The place before the first character. -/
def start : Position := ⟨0, 1, 1⟩

/-- The place one character further on.  Only a line feed begins a line. -/
def advance (here : Position) (c : Char) : Position :=
  if c = '\n' then ⟨here.offset + c.utf8Size, here.line + 1, 1⟩
  else ⟨here.offset + c.utf8Size, here.line, here.column + 1⟩

/-- The place reached after a text. -/
def after (text : List Char) : Position :=
  text.foldl advance start

end Position
end RowFilter
