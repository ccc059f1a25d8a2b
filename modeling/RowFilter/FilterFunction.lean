import RowFilter.Script.Tree

/-!
# Filter functions

A filter is written as a function of one row.  The script must consist of that function
alone, the function must be neither asynchronous nor a generator, and it must return
its condition at once: as the expression of an arrow, or in a block that holds one
`return` and nothing else.  The condition must be a comparison or join conditions with
a connective.

These requirements are examined from the outside in, and the first one that is not met
is reported.
-/

set_option autoImplicit false

namespace RowFilter.FilterFunction

open Script

/-- Why a script is not a filter function. -/
inductive Misfit where
  | statementCount (found : Nat)
  | notExpression (found : StatementKind)
  | notFunction (found : ExprKind)
  | async
  | generator
  | blockLength (found : Nat)
  | notResult (found : StatementKind)
  | noArgument
  | notCondition (found : ExprKind)
deriving DecidableEq

/-- The wording of a misfit. -/
def Misfit.message : Misfit → String
  | .statementCount n => "Expected exactly one top-level statement, found " ++ n.repr
  | .notExpression kind => "Unexpected statement type: " ++ kind.name
  | .notFunction kind => "Unexpected expression type: " ++ kind.name
  | .async => "Cannot use async functions"
  | .generator => "Cannot use generator functions"
  | .blockLength n => "Block statement should contain exactly one statement, found " ++ n.repr
  | .notResult kind => "Expected ReturnStatement but got " ++ kind.name
  | .noArgument => "Return statement is missing its argument"
  | .notCondition kind => "Unsupported function body type: " ++ kind.name

/-- An expression that is a condition on the outside. -/
def condition (e : Expr) : Except Misfit Expr :=
  match e with
  | .binary _ (.compare _) _ => .ok e
  | .binary _ (.connect _) _ => .ok e
  | _ => .error (.notCondition e.kind)

/-- The condition that a body returns. -/
def returned : Body → Except Misfit Expr
  | .expression e => condition e
  | .block [.result (some e)] => condition e
  | .block [.result none] => .error .noArgument
  | .block [s] => .error (.notResult s.kind)
  | .block statements => .error (.blockLength statements.length)

/-- The condition of a function literal. -/
def ofFunction (signature : Signature) (body : Body) : Except Misfit Expr :=
  if signature.async then .error .async
  else if signature.generator then .error .generator
  else returned body

/-- The condition of an expression that is a function literal. -/
def ofExpr : Expr → Except Misfit Expr
  | .function signature body => ofFunction signature body
  | e => .error (.notFunction e.kind)

/-- The condition of a program that is a function literal. -/
def ofProgram : Program → Except Misfit Expr
  | [.expression e] => ofExpr e
  | [s] => .error (.notExpression s.kind)
  | program => .error (.statementCount program.length)

end RowFilter.FilterFunction
