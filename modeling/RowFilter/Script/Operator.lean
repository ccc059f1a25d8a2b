/-!
# Operators of the script language

A two-sided operator compares, computes or connects.  Only comparisons and the
connectives "and" and "or" have a counterpart among SQL conditions, which is why the
three classes are separate types rather than one list of operators.
-/

set_option autoImplicit false

namespace RowFilter.Script

/-- Operators with a truth value that look at both sides. -/
inductive Comparison where
  | equal | strictlyEqual | unequal | strictlyUnequal
  | less | lessOrEqual | greater | greaterOrEqual
deriving DecidableEq

/-- Operators on numbers and on their bits. -/
inductive Arithmetic where
  | add | subtract | multiply | divide | remainder
  | bitAnd | bitOr | bitXor | shiftLeft | shiftRight
deriving DecidableEq

/-- Operators that may leave their right side unread. -/
inductive Connective where
  | and | or
  /-- The right side where the left is absent. -/
  | coalesce
deriving DecidableEq

/-- The operators between two operands. -/
inductive BinaryOp where
  | compare (comparison : Comparison)
  | compute (arithmetic : Arithmetic)
  | connect (connective : Connective)
deriving DecidableEq

/-- The operators before one operand. -/
inductive UnaryOp where
  | not | negate | plus | bitNot
deriving DecidableEq

/-! ## Spelling -/

/-- The spelling of a comparison. -/
def Comparison.token : Comparison → String
  | .equal => "=="
  | .strictlyEqual => "==="
  | .unequal => "!="
  | .strictlyUnequal => "!=="
  | .less => "<"
  | .lessOrEqual => "<="
  | .greater => ">"
  | .greaterOrEqual => ">="

/-- The spelling of an arithmetic operator. -/
def Arithmetic.token : Arithmetic → String
  | .add => "+"
  | .subtract => "-"
  | .multiply => "*"
  | .divide => "/"
  | .remainder => "%"
  | .bitAnd => "&"
  | .bitOr => "|"
  | .bitXor => "^"
  | .shiftLeft => "<<"
  | .shiftRight => ">>"

/-- The spelling of a connective. -/
def Connective.token : Connective → String
  | .and => "&&"
  | .or => "||"
  | .coalesce => "??"

/-- The spelling of an operator between two operands. -/
def BinaryOp.token : BinaryOp → String
  | .compare comparison => comparison.token
  | .compute arithmetic => arithmetic.token
  | .connect connective => connective.token

/-- The spelling of an operator before one operand. -/
def UnaryOp.token : UnaryOp → String
  | .not => "!"
  | .negate => "-"
  | .plus => "+"
  | .bitNot => "~"

/-! ## All operators -/

/-- Every operator between two operands. -/
def BinaryOp.all : List BinaryOp :=
  [ .compare .equal, .compare .strictlyEqual, .compare .unequal, .compare .strictlyUnequal,
    .compare .less, .compare .lessOrEqual, .compare .greater, .compare .greaterOrEqual,
    .compute .add, .compute .subtract, .compute .multiply, .compute .divide,
    .compute .remainder, .compute .bitAnd, .compute .bitOr, .compute .bitXor,
    .compute .shiftLeft, .compute .shiftRight,
    .connect .and, .connect .or, .connect .coalesce ]

/-- Every operator before one operand. -/
def UnaryOp.all : List UnaryOp := [.not, .negate, .plus, .bitNot]

/-- The operator between two operands with a given spelling. -/
def BinaryOp.ofToken? (token : String) : Option BinaryOp :=
  BinaryOp.all.find? (·.token == token)

/-- The operator before one operand with a given spelling. -/
def UnaryOp.ofToken? (token : String) : Option UnaryOp :=
  UnaryOp.all.find? (·.token == token)

/-- No two operators between two operands are spelled alike. -/
theorem BinaryOp.ofToken?_token (op : BinaryOp) : ofToken? op.token = some op := by
  match op with
  | .compare c => cases c <;> rfl
  | .compute a => cases a <;> rfl
  | .connect c => cases c <;> rfl

/-- No two operators before one operand are spelled alike. -/
theorem UnaryOp.ofToken?_token (op : UnaryOp) : ofToken? op.token = some op := by
  cases op <;> rfl

end RowFilter.Script
