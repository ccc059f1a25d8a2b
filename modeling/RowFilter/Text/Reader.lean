/-!
# Readers

A reader takes a text and either refuses it or returns a value together with the
text that remains.  Readers are combined in sequence, by ordered choice and by
repetition.  A choice takes the first alternative that does not refuse, and an
alternative that refuses leaves nothing behind: the next one starts on the same text.

Repetition needs no proof that its reader makes progress.  A reader that does takes
at least one character each time, so a text bounds the number of times it can be
applied to itself, and `repeated` counts its rounds along the text.
-/

set_option autoImplicit false

namespace RowFilter

/-- A reader refuses a text or returns a value and the text that remains. -/
def Reader (α : Type) : Type := List Char → Option (α × List Char)

namespace Reader

variable {α β : Type}

instance : Monad Reader where
  pure a := fun s => some (a, s)
  bind p f := fun s =>
    match p s with
    | none => none
    | some (a, rest) => f a rest

/-- The reader that refuses every text. -/
def refuse : Reader α := fun _ => none

/-- Ordered choice: the second reader is used only where the first refuses. -/
def choose (first : Reader α) (second : Unit → Reader α) : Reader α := fun s =>
  match first s with
  | none => second () s
  | some found => some found

instance : OrElse (Reader α) where
  orElse := choose

/-- The first character, if it is of the given class. -/
def satisfying (accepts : Char → Bool) : Reader Char
  | [] => none
  | c :: rest => if accepts c then some (c, rest) else none

/-- The given character. -/
def char (c : Char) : Reader Unit := do
  let _ ← satisfying (· == c)

/-- The given word, character by character. -/
def word (w : String) : Reader Unit := fun s =>
  (w.toList.isPrefixOf? s).map fun rest => ((), rest)

/-- Take nothing, but refuse a text whose first character is of the given class. -/
def notNext (refused : Char → Bool) : Reader Unit
  | [] => some ((), [])
  | c :: rest => if refused c then none else some ((), c :: rest)

/-- The longest run of characters of a class, which may be empty. -/
def run (accepts : Char → Bool) : Reader (List Char) := fun s =>
  some (s.takeWhile accepts, s.dropWhile accepts)

/-- The longest run of characters of a class, which may not be empty. -/
def run1 (accepts : Char → Bool) : Reader (List Char) := do
  let first ← satisfying accepts
  let others ← run accepts
  return first :: others

/-- What the reader returns, or nothing where it refuses. -/
def optional (p : Reader α) : Reader (Option α) :=
  some <$> p <|> pure none

/-- Apply a reader until it refuses, but in no more rounds than the bound has
characters. -/
def rounds (p : Reader α) : List Char → List Char → List α × List Char
  | [], s => ([], s)
  | _ :: bound, s =>
      match p s with
      | none => ([], s)
      | some (a, rest) =>
          let (others, remaining) := rounds p bound rest
          (a :: others, remaining)

/-- Apply a reader until it refuses. -/
def repeated (p : Reader α) (s : List Char) : List α × List Char :=
  rounds p s s

/-- What a reader returns as often as it can be applied. -/
def many (p : Reader α) : Reader (List α) := fun s =>
  some (repeated p s)

/-- Elements with a separator between each two of them.  A separator that no element
follows is not taken. -/
def separated (element : Reader α) (separator : Reader Unit) : Reader (List α) :=
  (do
    let first ← element
    let others ← many (do separator; element)
    return first :: others)
  <|> pure []

end Reader
end RowFilter
