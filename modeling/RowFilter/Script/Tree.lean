import RowFilter.Script.Operator
import RowFilter.Value

/-!
# Script trees

The script language has expressions, function literals and the statements that the
body of a function may hold.  It is wider than the language of filters: a filter is a
function of a particular shape, and the wider language is there so that a script of
another shape can be named for what it is.

Expressions, bodies and statements contain one another, so they are one family of
trees.  A tree does not record parentheses, comments or spacing.
-/

set_option autoImplicit false

namespace RowFilter.Script

/-- How a declaration is introduced. -/
inductive DeclarationKind where
  | «let» | const | var
deriving DecidableEq

/-- The word that introduces a declaration. -/
def DeclarationKind.keyword : DeclarationKind → String
  | .let => "let"
  | .const => "const"
  | .var => "var"

/-- All of a function literal but its body. -/
structure Signature where
  name : Option String
  parameters : List String
  /-- Whether the function is written with an arrow. -/
  arrow : Bool
  async : Bool
  generator : Bool
deriving DecidableEq

mutual
/-- An expression. -/
inductive Expr where
  | identifier (name : String)
  | literal (value : Value)
  /-- A named member of an object. -/
  | member (object : Expr) (name : String)
  /-- The member of an object that a computed key selects. -/
  | index (object : Expr) (key : Expr)
  | call (callee : Expr) (arguments : List Expr)
  | unary (op : UnaryOp) (operand : Expr)
  | binary (left : Expr) (op : BinaryOp) (right : Expr)
  | conditional (test consequent alternate : Expr)
  | function (signature : Signature) (body : Body)

/-- The body of a function literal. -/
inductive Body where
  | block (statements : List Statement)
  | expression (result : Expr)

/-- A statement. -/
inductive Statement where
  | expression (content : Expr)
  | result (argument : Option Expr)
  | declaration (kind : DeclarationKind) (name : String) (initial : Option Expr)
  | block (statements : List Statement)
  | empty
end

instance : Inhabited Expr := ⟨.literal .null⟩
instance : Inhabited Body := ⟨.block []⟩
instance : Inhabited Statement := ⟨.empty⟩

/-- A program is a sequence of statements. -/
abbrev Program := List Statement

/-! ## Kinds

A message about a tree names the kind of its root. -/

/-- What an expression is, leaving its parts aside. -/
inductive ExprKind where
  | identifier | literal | member | call | unary | binary | logical | conditional
  | arrowFunction | function
deriving DecidableEq

/-- What a statement is, leaving its parts aside. -/
inductive StatementKind where
  | expression | result | declaration | block | empty
deriving DecidableEq

/-- The kind of an expression. -/
def Expr.kind : Expr → ExprKind
  | .identifier _ => .identifier
  | .literal _ => .literal
  | .member _ _ => .member
  | .index _ _ => .member
  | .call _ _ => .call
  | .unary _ _ => .unary
  | .binary _ (.connect _) _ => .logical
  | .binary _ _ _ => .binary
  | .conditional _ _ _ => .conditional
  | .function signature _ => if signature.arrow then .arrowFunction else .function

/-- The kind of a statement. -/
def Statement.kind : Statement → StatementKind
  | .expression _ => .expression
  | .result _ => .result
  | .declaration _ _ _ => .declaration
  | .block _ => .block
  | .empty => .empty

/-- The name of a kind of expression. -/
def ExprKind.name : ExprKind → String
  | .identifier => "Identifier"
  | .literal => "Literal"
  | .member => "MemberExpression"
  | .call => "CallExpression"
  | .unary => "UnaryExpression"
  | .binary => "BinaryExpression"
  | .logical => "LogicalExpression"
  | .conditional => "ConditionalExpression"
  | .arrowFunction => "ArrowFunctionExpression"
  | .function => "FunctionExpression"

/-- The name of a kind of statement. -/
def StatementKind.name : StatementKind → String
  | .expression => "ExpressionStatement"
  | .result => "ReturnStatement"
  | .declaration => "VariableDeclaration"
  | .block => "BlockStatement"
  | .empty => "EmptyStatement"

/-! ## Numeric agreement of trees -/

mutual
/-- Whether two expressions differ at most in literals that agree as numbers. -/
def Expr.same : Expr → Expr → Bool
  | .identifier m, .identifier n => m == n
  | .literal v, .literal w => v.same w
  | .member o m, .member p n => o.same p && m == n
  | .index o k, .index p l => o.same p && k.same l
  | .call f as, .call g bs => f.same g && Expr.sameAll as bs
  | .unary o a, .unary p b => o == p && a.same b
  | .binary a o b, .binary c p d => a.same c && o == p && b.same d
  | .conditional a b c, .conditional d e f => a.same d && b.same e && c.same f
  | .function s b, .function t c => s == t && b.same c
  | _, _ => false

/-- Agreement of argument lists. -/
def Expr.sameAll : List Expr → List Expr → Bool
  | [], [] => true
  | a :: as, b :: bs => a.same b && Expr.sameAll as bs
  | _, _ => false

/-- Agreement of function bodies. -/
def Body.same : Body → Body → Bool
  | .block ss, .block ts => Statement.sameAll ss ts
  | .expression a, .expression b => a.same b
  | _, _ => false

/-- Agreement of statements. -/
def Statement.same : Statement → Statement → Bool
  | .expression a, .expression b => a.same b
  | .result none, .result none => true
  | .result (some a), .result (some b) => a.same b
  | .declaration k m none, .declaration l n none => k == l && m == n
  | .declaration k m (some a), .declaration l n (some b) => k == l && m == n && a.same b
  | .block ss, .block ts => Statement.sameAll ss ts
  | .empty, .empty => true
  | _, _ => false

/-- Agreement of sequences of statements. -/
def Statement.sameAll : List Statement → List Statement → Bool
  | [], [] => true
  | s :: ss, t :: ts => s.same t && Statement.sameAll ss ts
  | _, _ => false
end

end RowFilter.Script
