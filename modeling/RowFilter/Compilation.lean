import RowFilter.FilterFunction
import RowFilter.Script.Source
import RowFilter.Lowering

/-!
# Compiling filters

A filter function is compiled to an SQL condition in three steps: its text is read, the
condition it returns is found, and that condition is lowered.  Each step has errors
of its own.  A filter that is already a tree skips the first step.

The text is read inside parentheses, so that a function in it is an expression.  Places
in the text are reported as if the parentheses were not there.
-/

set_option autoImplicit false

namespace RowFilter

open Script Sql

/-- Why a filter was not compiled. -/
inductive CompileError where
  | parse (error : ParseError)
  | misfit (misfit : FilterFunction.Misfit)
  | unsupported (part : Lowering.Unsupported)
deriving DecidableEq

namespace CompileError

/-- The wording of the step's own error. -/
def cause : CompileError → String
  | .parse e => e.message
  | .misfit e => e.message
  | .unsupported e => e.message

/-- The step that failed. -/
def step : CompileError → String
  | .parse _ => "Parse error"
  | .misfit _ => "Unsupported function shape"
  | .unsupported _ => "Unsupported expression"

/-- The wording of an error. -/
def message (e : CompileError) : String :=
  e.step ++ ": " ++ e.cause

end CompileError

/-- All that a compilation leaves behind. -/
structure Compilation where
  result : Except CompileError Condition
  /-- The names that are left. -/
  supply : NameSupply
  /-- The program, where the filter was given as text that could be read. -/
  program : Option Program
  /-- The bindings made, in order, whether or not the compilation succeeded. -/
  bound : List Binding

namespace Compilation

/-- A place in a text, given the same place in the text in parentheses. -/
def inside (source : String) (p : Position) : Position :=
  ⟨min (p.offset - 1) source.utf8ByteSize, p.line,
    if p.line = 1 then max (p.column - 1) 1 else p.column⟩

/-- Read a text in parentheses. -/
def parseInside (source : String) : Except ParseError Program :=
  match parse ("(" ++ source ++ ")") with
  | .ok program => .ok program
  | .error e => .error ⟨inside source e.position⟩

/-- A compilation that fails before any name is bound. -/
def failed (error : CompileError) (supply : NameSupply) (program : Option Program) :
    Compilation :=
  ⟨.error error, supply, program, []⟩

/-- Lower the condition of a filter function. -/
def finish (condition : Except FilterFunction.Misfit Expr) (supply : NameSupply)
    (program : Option Program) : Compilation :=
  match condition with
  | .error misfit => failed (.misfit misfit) supply program
  | .ok e =>
      let (result, ledger) := Lowering.lower e supply
      ⟨result.mapError .unsupported, ledger.supply, program, ledger.bound⟩

end Compilation

/-- Compile a filter given as text. -/
def compile (source : String) (supply : NameSupply) : Compilation :=
  match Compilation.parseInside source with
  | .error e => .failed (.parse e) supply none
  | .ok program => .finish (FilterFunction.ofProgram program) supply program

/-- Compile a filter given as a tree. -/
def compileExpr (e : Expr) (supply : NameSupply) : Compilation :=
  .finish (FilterFunction.ofExpr e) supply none

end RowFilter
