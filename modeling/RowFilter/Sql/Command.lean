import RowFilter.Sql.Condition

/-!
# SQL commands

A query, an insertion or an update is described first and written afterwards.  Writing
it gives a command: a text and the bindings of the placeholders in that text.  An
insertion and an update bind the values they store to new names of a supply; the names
in a filter have been handed out before.
-/

set_option autoImplicit false

namespace RowFilter.Sql

/-- The text of a statement and the bindings of its placeholders. -/
structure Command where
  text : String
  bindings : List Binding
deriving DecidableEq

/-- The text of a condition on rows, which may be absent. -/
def whereText : Option Condition → String
  | none => ""
  | some condition => " WHERE " ++ condition.text

/-- The bindings of a condition on rows, which may be absent. -/
def whereBindings : Option Condition → List Binding
  | none => []
  | some condition => condition.bindings

/-! ## Queries -/

/-- The columns of the rows of a table that meet a condition. -/
structure Select where
  table : String
  fields : List Field
  filter : Option Condition

namespace Select

/-- All columns of all rows. -/
def «from» (table : String) : Select := ⟨table, [], none⟩

/-- Ask for one more column. -/
def addField (q : Select) (name : String) : Select :=
  { q with fields := q.fields ++ [.plain name] }

/-- Ask for more columns. -/
def addFields (q : Select) (names : List String) : Select :=
  { q with fields := q.fields ++ names.map .plain }

/-- Ask for the rows that meet a condition, in place of any condition before. -/
def filtered (q : Select) (condition : Condition) : Select :=
  { q with filter := some condition }

/-- The columns as they are listed; a star where none has been asked for. -/
def fieldsText (q : Select) : String :=
  if q.fields.isEmpty then "*" else ", ".intercalate (q.fields.map Field.text)

/-- The command of a query. -/
def command (q : Select) : Command :=
  ⟨"SELECT " ++ q.fieldsText ++ " FROM " ++ quoteName q.table ++ whereText q.filter,
    whereBindings q.filter⟩

end Select

/-! ## Insertions -/

/-- A row of values for a table. -/
structure Insert where
  table : String
  values : List Value

namespace Insert

/-- A row without values. -/
def into (table : String) : Insert := ⟨table, []⟩

/-- Add one more value to the row. -/
def addValue (q : Insert) (value : Value) : Insert :=
  { q with values := q.values ++ [value] }

/-- Add more values to the row. -/
def addValues (q : Insert) (values : List Value) : Insert :=
  { q with values := q.values ++ values }

/-- The command of an insertion, and the names that are left. -/
def command (q : Insert) (supply : NameSupply) : Command × NameSupply :=
  let (bindings, rest) := supply.bindAll q.values
  (⟨"INSERT INTO " ++ quoteName q.table ++ " VALUES (" ++
      ", ".intercalate (bindings.map Binding.name) ++ ")", bindings⟩, rest)

end Insert

/-! ## Updates -/

/-- New values for columns of the rows of a table that meet a condition. -/
structure Update where
  table : String
  assignments : List (Field × Value)
  filter : Option Condition

/-- Why an update cannot be written. -/
inductive UpdateError where
  /-- No column is given a value. -/
  | noAssignments (table : String)
deriving DecidableEq

/-- The wording of an error. -/
def UpdateError.message : UpdateError → String
  | .noAssignments table => "UPDATE of " ++ table ++ " has no assignments"

namespace Update

/-- An update that changes nothing. -/
def of (table : String) : Update := ⟨table, [], none⟩

/-- Give one more column a value. -/
def assign (q : Update) (name : String) (value : Value) : Update :=
  { q with assignments := q.assignments ++ [(.plain name, value)] }

/-- Restrict the update to the rows that meet a condition, in place of any condition
before. -/
def filtered (q : Update) (condition : Condition) : Update :=
  { q with filter := some condition }

/-- A column and the placeholder of its new value. -/
def assignmentText (assignment : Field × Value) (binding : Binding) : String :=
  assignment.1.text ++ " = " ++ binding.name

/-- The command of an update, and the names that are left.  The new values come first
among the bindings, as they do in the text. -/
def command (q : Update) (supply : NameSupply) : Except UpdateError Command × NameSupply :=
  if q.assignments.isEmpty then (.error (.noAssignments q.table), supply)
  else
    let (bindings, rest) := supply.bindAll (q.assignments.map Prod.snd)
    (.ok ⟨"UPDATE " ++ quoteName q.table ++ " SET " ++
        ", ".intercalate (List.zipWith assignmentText q.assignments bindings) ++
        whereText q.filter, bindings ++ whereBindings q.filter⟩, rest)

end Update

/-! ## Statements -/

/-- Any of the three. -/
inductive Statement where
  | select (query : Select)
  | insert (query : Insert)
  | update (query : Update)

/-- The command of a statement, and the names that are left. -/
def Statement.command : Statement → NameSupply → Except UpdateError Command × NameSupply
  | .select q, supply => (.ok q.command, supply)
  | .insert q, supply =>
      let (command, rest) := q.command supply
      (.ok command, rest)
  | .update q, supply => q.command supply

end RowFilter.Sql
