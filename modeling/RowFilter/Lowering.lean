import RowFilter.Script.Tree
import RowFilter.Sql.Condition

/-!
# From scripts to SQL

A condition of the script language becomes a condition of SQL.  Comparisons, the
connectives "and" and "or", named members and literals have a counterpart; nothing else
has.  A member becomes the column of its name, whatever it is a member of.  A literal
becomes a placeholder that is bound to its value.

The tree is visited from left to right, an operator before its operands.  The first part
without a counterpart ends the walk, and the names bound up to there stay bound.
-/

set_option autoImplicit false

namespace RowFilter.Lowering

open Script Sql

/-- A part of a script that has no counterpart in SQL. -/
inductive Unsupported where
  | expression (kind : ExprKind)
  | operator (op : BinaryOp)
  | computedMember
deriving DecidableEq

/-- The wording of a refusal. -/
def Unsupported.message : Unsupported → String
  | .expression kind => "Unknown expression to handle: " ++ kind.name
  | .operator op => "Unhandled operator: " ++ op.token
  | .computedMember => "Computed member access is not supported; use \x60x.field\x60"

/-- The names that are left, and the bindings made so far, in order. -/
structure Ledger where
  supply : NameSupply
  bound : List Binding
deriving DecidableEq

/-- Bind a value to the next name. -/
def Ledger.bind (value : Value) (ledger : Ledger) : Binding × Ledger :=
  let (binding, rest) := ledger.supply.bind value
  (binding, ⟨rest, ledger.bound ++ [binding]⟩)

/-- A walk that binds names as it goes, and keeps them when it ends early. -/
abbrev Binder : Type → Type := ExceptT Unsupported (StateM Ledger)

/-- The comparator of a comparison.  Strictness makes no difference. -/
def comparator : Comparison → Comparator
  | .equal | .strictlyEqual => .equal
  | .unequal | .strictlyUnequal => .unequal
  | .less => .less
  | .lessOrEqual => .lessOrEqual
  | .greater => .greater
  | .greaterOrEqual => .greaterOrEqual

/-- The placeholder of a literal. -/
def placeholder (value : Value) : Binder Condition := do
  let binding ← modifyGet (Ledger.bind value)
  return .placeholder binding

/-- The condition of an expression. -/
def condition : Expr → Binder Condition
  | .literal value => placeholder value
  | .member _ name => return .field (.plain name)
  | .index _ _ => throw .computedMember
  | .binary left (.compare c) right => do
      let l ← condition left
      let r ← condition right
      return .comparison l (comparator c) r
  | .binary left (.connect .and) right => do
      let l ← condition left
      let r ← condition right
      return .combine l .and r
  | .binary left (.connect .or) right => do
      let l ← condition left
      let r ← condition right
      return .combine l .or r
  | .binary _ op _ => throw (.operator op)
  | e => throw (.expression e.kind)

/-- Lower an expression with the names of a supply. -/
def lower (e : Expr) (supply : NameSupply) : Except Unsupported Condition × Ledger :=
  (condition e).run ⟨supply, []⟩

end RowFilter.Lowering
