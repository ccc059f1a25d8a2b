import RowFilter.Script.Tree

/-!
# Building filters

Filters that are assembled while a program runs need not go through text.  The
functions here build the trees that reading the corresponding text would give.
-/

set_option autoImplicit false

namespace RowFilter.Script.Builder

/-- The name of the row in a filter that is built. -/
def row : String := "x"

/-- A column of the row. -/
def field (name : String) : Expr :=
  .member (.identifier row) name

/-- A constant. -/
def constant (value : Value) : Expr :=
  .literal value

/-- The function from a row to a condition. -/
def arrow (condition : Expr) : Expr :=
  .function ⟨none, [row], true, false, false⟩ (.expression condition)

/-- Both sides have the same value. -/
def equals (left right : Expr) : Expr := .binary left (.compare .strictlyEqual) right

/-- The sides have different values. -/
def notEquals (left right : Expr) : Expr := .binary left (.compare .strictlyUnequal) right

/-- The left side exceeds the right one. -/
def greater (left right : Expr) : Expr := .binary left (.compare .greater) right

/-- The left side is at least the right one. -/
def greaterOrEqual (left right : Expr) : Expr := .binary left (.compare .greaterOrEqual) right

/-- The left side is below the right one. -/
def less (left right : Expr) : Expr := .binary left (.compare .less) right

/-- The left side is at most the right one. -/
def lessOrEqual (left right : Expr) : Expr := .binary left (.compare .lessOrEqual) right

/-- Both conditions hold. -/
def both (left right : Expr) : Expr := .binary left (.connect .and) right

/-- At least one condition holds. -/
def either (left right : Expr) : Expr := .binary left (.connect .or) right

end RowFilter.Script.Builder
