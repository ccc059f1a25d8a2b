import RowFilter.Placeholder

/-!
# SQL conditions

A condition is made of columns, placeholders and the words between them.  It has two
readings: the text that goes into a statement, and the bindings that go with that text.
Both visit the parts from left to right, so the placeholders in the text appear in the
order of the bindings.

A compound is a flat run of parts with blanks between them.  It has no parentheses of
its own.
-/

set_option autoImplicit false

namespace RowFilter.Sql

/-- A column, perhaps of a named table. -/
structure Field where
  name : String
  qualifier : Option String
deriving DecidableEq

/-- A column of a table, where the empty name stands for no table. -/
def Field.of (table name : String) : Field :=
  ⟨name, if table = "" then none else some table⟩

/-- A column that names no table. -/
def Field.plain (name : String) : Field := ⟨name, none⟩

/-- The words that compare. -/
inductive Comparator where
  | equal | unequal | greater | greaterOrEqual | less | lessOrEqual
deriving DecidableEq

/-- The words that join conditions. -/
inductive Connective where
  | and | or
deriving DecidableEq

/-- A condition or a part of one. -/
inductive Condition where
  | field (field : Field)
  | placeholder (binding : Binding)
  | comparator (comparator : Comparator)
  | connective (connective : Connective)
  | comparison (left : Condition) (comparator : Comparator) (right : Condition)
  | compound (parts : List Condition)

instance : Inhabited Condition := ⟨.compound []⟩

/-- Two conditions with a connective between them. -/
def Condition.combine (left : Condition) (connective : Connective) (right : Condition) :
    Condition :=
  .compound [left, .connective connective, right]

/-! ## Text -/

/-- A name in brackets, with every closing bracket inside it doubled. -/
def quoteName (name : String) : String :=
  "[" ++ String.ofList (name.toList.flatMap fun c => if c = ']' then [c, c] else [c]) ++ "]"

/-- The text of a column. -/
def Field.text (f : Field) : String :=
  match f.qualifier with
  | none => quoteName f.name
  | some table => quoteName table ++ "." ++ quoteName f.name

/-- The spelling of a comparator. -/
def Comparator.text : Comparator → String
  | .equal => "="
  | .unequal => "!="
  | .greater => ">"
  | .greaterOrEqual => ">="
  | .less => "<"
  | .lessOrEqual => "<="

/-- The spelling of a connective. -/
def Connective.text : Connective → String
  | .and => "AND"
  | .or => "OR"

/-- Every comparator. -/
def Comparator.all : List Comparator :=
  [.equal, .unequal, .greater, .greaterOrEqual, .less, .lessOrEqual]

/-- Every connective. -/
def Connective.all : List Connective := [.and, .or]

/-- The comparator with a given spelling. -/
def Comparator.ofText? (s : String) : Option Comparator :=
  Comparator.all.find? (·.text == s)

/-- The connective with a given spelling. -/
def Connective.ofText? (s : String) : Option Connective :=
  Connective.all.find? (·.text == s)

/-- No two comparators are spelled alike. -/
theorem Comparator.ofText?_text (c : Comparator) : ofText? c.text = some c := by
  cases c <;> rfl

/-- No two connectives are spelled alike. -/
theorem Connective.ofText?_text (c : Connective) : ofText? c.text = some c := by
  cases c <;> rfl

mutual
/-- The text of a condition. -/
def Condition.text : Condition → String
  | .field f => f.text
  | .placeholder b => b.name
  | .comparator c => c.text
  | .connective c => c.text
  | .comparison left c right => left.text ++ " " ++ c.text ++ " " ++ right.text
  | .compound parts => " ".intercalate (Condition.texts parts)

/-- The text of each part of a list. -/
def Condition.texts : List Condition → List String
  | [] => []
  | part :: parts => part.text :: Condition.texts parts
end

/-! ## Bindings -/

mutual
/-- The bindings of a condition, in the order in which its text mentions them. -/
def Condition.bindings : Condition → List Binding
  | .placeholder b => [b]
  | .comparison left _ right => left.bindings ++ right.bindings
  | .compound parts => Condition.bindingsOf parts
  | .field _ | .comparator _ | .connective _ => []

/-- The bindings of the parts of a list, in order. -/
def Condition.bindingsOf : List Condition → List Binding
  | [] => []
  | part :: parts => part.bindings ++ Condition.bindingsOf parts
end

/-! ## Numeric agreement -/

mutual
/-- Whether two conditions differ at most in values that agree as numbers. -/
def Condition.same : Condition → Condition → Bool
  | .field f, .field g => f == g
  | .placeholder a, .placeholder b => a.name == b.name && a.value.same b.value
  | .comparator c, .comparator d => c == d
  | .connective c, .connective d => c == d
  | .comparison a c b, .comparison d e f => a.same d && c == e && b.same f
  | .compound ps, .compound qs => Condition.sameAll ps qs
  | _, _ => false

/-- Agreement of lists of parts. -/
def Condition.sameAll : List Condition → List Condition → Bool
  | [], [] => true
  | p :: ps, q :: qs => p.same q && Condition.sameAll ps qs
  | _, _ => false
end

end RowFilter.Sql
