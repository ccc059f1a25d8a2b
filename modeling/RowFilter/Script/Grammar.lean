import RowFilter.Script.Lexeme
import RowFilter.Script.Literal
import RowFilter.Script.Tree

/-!
# The grammar of scripts

Expressions, functions, blocks and statements contain one another, so the grammar is
given first as if the contained parts were already known: every rule takes the readers
`expr` and `block` for the expressions and blocks inside it.  A rule uses them only
after it has taken a character of its own, so that they start on a shorter text, with
one exception: a statement may begin with an expression or a block, and is read with
the readers for the same text.

The knot is tied by length.  `exprWithin n` reads expressions from texts of fewer than
`n` characters, and takes the readers for parts from `n - 1`; the bound for a whole
text is its own length.

Operators between two operands have ten levels, listed from the loosest to the
tightest in `levels`.  Operators of one level group to the left.  Whether an operator
has been read to its end is decided where it is read: `<` is not taken from `<<`, nor
`|` from `||` or `|=`.
-/

set_option autoImplicit false

namespace RowFilter.Script.Grammar

open Reader Lexeme

/-! ## Operators -/

/-- An operator, by its spelling. -/
def spelled (op : BinaryOp) : Reader BinaryOp := do
  word op.token
  return op

/-- An operator that is not part of a longer one that goes on with such a character. -/
def spelledBefore (op : BinaryOp) (continues : Char → Bool) : Reader BinaryOp := do
  word op.token
  notNext continues
  return op

/-- The operators between two operands, level by level from the loosest. -/
def levels : List (Reader BinaryOp) :=
  [ spelled (.connect .or) <|> spelled (.connect .coalesce),
    spelled (.connect .and),
    spelledBefore (.compute .bitOr) fun c => c == '|' || c == '=',
    spelledBefore (.compute .bitXor) fun c => c == '=',
    spelledBefore (.compute .bitAnd) fun c => c == '&' || c == '=',
    spelled (.compare .strictlyEqual) <|> spelled (.compare .strictlyUnequal) <|>
      spelled (.compare .equal) <|> spelled (.compare .unequal),
    spelled (.compare .lessOrEqual) <|> spelled (.compare .greaterOrEqual) <|>
      spelledBefore (.compare .less) (fun c => c == '<') <|>
      spelledBefore (.compare .greater) (fun c => c == '>'),
    spelled (.compute .shiftLeft) <|> spelled (.compute .shiftRight),
    spelled (.compute .add) <|> spelled (.compute .subtract),
    spelled (.compute .multiply) <|> spelled (.compute .divide) <|>
      spelled (.compute .remainder) ]

/-- An operator before an operand, by its spelling. -/
def unaryOp : Reader UnaryOp :=
  (do char '!'; notNext (fun c => c == '='); return .not) <|>
  (do char '-'; return .negate) <|>
  (do char '+'; return .plus) <|>
  (do char '~'; return .bitNot)

/-- An operator before an operand, and the gap after it. -/
def unaryMark : Reader UnaryOp := do
  let op ← unaryOp
  gaps
  return op

/-! ## Lists in parentheses -/

/-- Elements in parentheses with commas between them, and perhaps one after the last. -/
def listed {α : Type} (element : Reader α) : Reader (List α) := do
  char '('
  gaps
  let elements ← separated element (do sign ','; gaps)
  let _ ← optional (sign ',')
  sign ')'
  return elements

/-- A parameter.  Its type annotation is read and dropped. -/
def parameter : Reader String := do
  let read ← identifier
  let _ ← optional (do sign ':'; afterGaps name)
  return read

/-! ## Functions -/

/-- The mark of an asynchronous function, if it is there. -/
def asyncMark : Reader Bool := do
  let mark ← optional (do keyword "async"; gaps)
  return mark.isSome

/-- A function literal with the word `function`. -/
def functionLiteral (block : Reader (List Statement)) : Reader Expr := do
  let async ← asyncMark
  keyword "function"
  let star ← optional (sign '*')
  let called ← optional (afterGaps identifier)
  let parameters ← afterGaps (listed parameter)
  let statements ← afterGaps block
  return .function ⟨called, parameters, false, async, star.isSome⟩ (.block statements)

/-- A function literal with an arrow.  A single parameter needs no parentheses. -/
def arrowFunction (expr : Reader Expr) (block : Reader (List Statement)) : Reader Expr := do
  let async ← asyncMark
  let parameters ← (do let only ← identifier; return [only]) <|> listed parameter
  gaps
  word "=>"
  gaps
  let body ← Body.block <$> block <|> Body.expression <$> expr
  return .function ⟨none, parameters, true, async, false⟩ body

/-! ## Operands -/

/-- An expression in parentheses. -/
def parenthesized (expr : Reader Expr) : Reader Expr := do
  char '('
  let inner ← afterGaps expr
  sign ')'
  return inner

/-- The expressions that operators and members are applied to. -/
def primary (expr : Reader Expr) (block : Reader (List Statement)) : Reader Expr :=
  functionLiteral block <|> arrowFunction expr block <|> parenthesized expr <|>
    Expr.literal <$> literal <|> Expr.identifier <$> identifier

/-- One step from an expression to a member of it or to its value at arguments. -/
def access (expr : Reader Expr) : Reader (Expr → Expr) :=
  afterGaps <|
    (do
      char '.'
      let read ← afterGaps name
      return (.member · read)) <|>
    (do
      char '['
      let key ← afterGaps expr
      sign ']'
      return (.index · key)) <|>
    (do
      let arguments ← listed expr
      return (.call · arguments))

/-- An operand with the steps taken from it. -/
def postfixed (expr : Reader Expr) (block : Reader (List Statement)) : Reader Expr := do
  let first ← primary expr block
  let steps ← many (access expr)
  return steps.foldl (fun e step => step e) first

/-- An operand with the operators before it. -/
def unary (expr : Reader Expr) (block : Reader (List Statement)) : Reader Expr := do
  let ops ← many unaryMark
  let operand ← postfixed expr block
  return ops.foldr .unary operand

/-! ## Operations -/

/-- An operator and the operand to its right. -/
def continuation (operand : Reader Expr) (operator : Reader BinaryOp) :
    Reader (BinaryOp × Expr) := do
  let op ← afterGaps operator
  let right ← afterGaps operand
  return (op, right)

/-- Operands with operators of one level between them, grouped to the left. -/
def chain (operand : Reader Expr) (operator : Reader BinaryOp) : Reader Expr := do
  let first ← operand
  let others ← many (continuation operand operator)
  return others.foldl (fun left (op, right) => .binary left op right) first

/-- Operations of the given levels, the tightest on the given operands. -/
def ladder (operand : Reader Expr) : List (Reader BinaryOp) → Reader Expr
  | [] => operand
  | operator :: tighter => chain (ladder operand tighter) operator

/-- The two branches of a conditional. -/
def branches (expr : Reader Expr) : Reader (Expr × Expr) := do
  sign '?'
  notNext (fun c => c == '?')
  let consequent ← afterGaps expr
  sign ':'
  let alternate ← afterGaps expr
  return (consequent, alternate)

/-- An expression, given readers for the expressions and blocks inside it. -/
def expression (expr : Reader Expr) (block : Reader (List Statement)) : Reader Expr := do
  let test ← ladder (unary expr block) levels
  match ← optional (branches expr) with
  | some (consequent, alternate) => return .conditional test consequent alternate
  | none => return test

/-! ## Statements -/

/-- A semicolon, if it is there. -/
def terminator : Reader Unit := do
  let _ ← optional (sign ';')

/-- A statement that ends a function. -/
def resultStatement (expr : Reader Expr) : Reader Statement := do
  keyword "return"
  let argument ← optional (afterGaps expr)
  terminator
  return .result argument

/-- The word that introduces a declaration. -/
def declarationKind : Reader DeclarationKind :=
  (do keyword "let"; return .let) <|>
  (do keyword "const"; return .const) <|>
  (do keyword "var"; return .var)

/-- A declaration. -/
def declaration (expr : Reader Expr) : Reader Statement := do
  let kind ← declarationKind
  let declared ← afterGaps identifier
  let initial ← optional (do sign '='; afterGaps expr)
  terminator
  return .declaration kind declared initial

/-- A statement that is an expression. -/
def expressionStatement (expr : Reader Expr) : Reader Statement := do
  let content ← expr
  terminator
  return .expression content

/-- A statement, given readers for the expressions and blocks it begins with or holds. -/
def statementOf (expr : Reader Expr) (block : Reader (List Statement)) : Reader Statement :=
  Statement.block <$> block <|> resultStatement expr <|> declaration expr <|>
    (do char ';'; return .empty) <|> expressionStatement expr

/-- A statement and the gap after it. -/
def spaced (statement : Reader Statement) : Reader Statement := do
  let read ← statement
  gaps
  return read

/-- A block, given a reader for the statements inside it. -/
def blockOf (statement : Reader Statement) : Reader (List Statement) := do
  char '\x7b'
  gaps
  let statements ← many (spaced statement)
  char '\x7d'
  return statements

/-! ## Tying the knot -/

mutual
/-- Expressions from texts of fewer than the given number of characters. -/
def exprWithin : Nat → Reader Expr
  | 0 => refuse
  | n + 1 => expression (exprWithin n) (blockWithin n)

/-- Blocks from texts of fewer than the given number of characters. -/
def blockWithin : Nat → Reader (List Statement)
  | 0 => refuse
  | n + 1 => blockOf (statementOf (exprWithin n) (blockWithin n))
end

/-- An expression. -/
def expr : Reader Expr := fun s => exprWithin (s.length + 1) s

/-- A block. -/
def block : Reader (List Statement) := fun s => blockWithin (s.length + 1) s

/-- A statement. -/
def statement : Reader Statement := statementOf expr block

/-- As many statements as can be read, each with the gap after it, and the text that
follows them. -/
def statements (s : List Char) : List Statement × List Char :=
  repeated (spaced statement) (skipGaps s)

end RowFilter.Script.Grammar
