import RowFilter.Compilation
import RowFilter.Script.Printer

/-!
# The log of a compilation

A compilation can be followed by its records: the program that was read, each constant
as it was bound, and the condition that came out.  The records are made from what the
compilation leaves behind.
-/

set_option autoImplicit false

namespace RowFilter

open Script

/-- How much detail a record gives. -/
inductive LogLevel where
  | debug | trace
deriving DecidableEq

/-- The name of a level. -/
def LogLevel.name : LogLevel → String
  | .debug => "DEBUG"
  | .trace => "TRACE"

/-- One line of a log. -/
structure LogRecord where
  level : LogLevel
  message : String
deriving DecidableEq

namespace LogRecord

/-- A value together with its kind. -/
def described : Value → String
  | .null => "Null"
  | .boolean b => "Bool(" ++ literalText (.boolean b) ++ ")"
  | .integer n => "Int(" ++ literalText (.integer n) ++ ")"
  | .float x => "Float(" ++ literalText (.float x) ++ ")"
  | .text s => "String(" ++ literalText (.text s) ++ ")"

/-- A program has been read. -/
def parsed (program : Program) : LogRecord :=
  ⟨.trace, "parsed program: " ++ Program.text program⟩

/-- A constant has been bound. -/
def bound (binding : Binding) : LogRecord :=
  ⟨.trace, "bound " ++ binding.name ++ " = " ++ described binding.value⟩

/-- A condition has come out. -/
def compiled (condition : Sql.Condition) (parameters : Nat) : LogRecord :=
  ⟨.debug, "compiled predicate \x60" ++ condition.text ++ "\x60 binding " ++
    parameters.repr ++ " parameter(s)"⟩

end LogRecord

/-- The records of a compilation, in order. -/
def Compilation.log (c : Compilation) : List LogRecord :=
  c.program.toList.map .parsed ++ c.bound.map .bound ++
    match c.result with
    | .ok condition => [.compiled condition c.bound.length]
    | .error _ => []

end RowFilter
