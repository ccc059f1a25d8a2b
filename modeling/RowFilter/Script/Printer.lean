import RowFilter.Script.Literal
import RowFilter.Script.Tree

/-!
# Writing scripts

Every tree has a text.  Operands that are themselves operations or functions are
always put in parentheses, so the text shows the tree and relies on no precedence.
A number is put in parentheses before a member is taken of it, where its point could
be misread.
-/

set_option autoImplicit false

namespace RowFilter.Script

/-! ## Where parentheses stand -/

/-- Expressions that are put in parentheses as operands. -/
def Expr.isCompound : Expr → Bool
  | .unary _ _ | .binary _ _ _ | .conditional _ _ _ | .function _ _ => true
  | _ => false

/-- Expressions that are put in parentheses before a member or an argument list. -/
def Expr.isUnfitReceiver : Expr → Bool
  | .literal (.integer _) | .literal (.float _) => true
  | e => e.isCompound

/-- Expressions that are put in parentheses as parts of a conditional. -/
def Expr.isUnfitBranch : Expr → Bool
  | .conditional _ _ _ | .function _ _ => true
  | _ => false

/-- A text in parentheses where they are called for. -/
def grouped (parentheses : Bool) (text : String) : String :=
  if parentheses then "(" ++ text ++ ")" else text

/-- The texts of statements in braces. -/
def braced (statements : List String) : String :=
  "\x7b " ++ " ".intercalate statements ++ " \x7d"

/-! ## Texts of trees -/

/-- What is written before the body of a function. -/
def Signature.text (s : Signature) : String :=
  (if s.async then "async " else "") ++
  (if s.arrow then "" else
    "function" ++ (if s.generator then "*" else "") ++
      (match s.name with
      | none => ""
      | some name => " " ++ name)) ++
  "(" ++ ", ".intercalate s.parameters ++ ")" ++
  (if s.arrow then " =>" else "")

mutual
/-- The text of an expression. -/
def Expr.text : Expr → String
  | .identifier name => name
  | .literal value => literalText value
  | .member object name => grouped object.isUnfitReceiver object.text ++ "." ++ name
  | .index object key => grouped object.isUnfitReceiver object.text ++ "[" ++ key.text ++ "]"
  | .call callee arguments =>
      grouped callee.isUnfitReceiver callee.text ++ "(" ++
        ", ".intercalate (Expr.texts arguments) ++ ")"
  | .unary op operand => op.token ++ grouped operand.isCompound operand.text
  | .binary left op right =>
      grouped left.isCompound left.text ++ " " ++ op.token ++ " " ++
        grouped right.isCompound right.text
  | .conditional test consequent alternate =>
      grouped test.isUnfitBranch test.text ++ " ? " ++
        grouped consequent.isUnfitBranch consequent.text ++ " : " ++
          grouped alternate.isUnfitBranch alternate.text
  | .function signature body => signature.text ++ " " ++ body.text

/-- The text of each expression of a list. -/
def Expr.texts : List Expr → List String
  | [] => []
  | e :: es => e.text :: Expr.texts es

/-- The text of a function body. -/
def Body.text : Body → String
  | .block statements => braced (Statement.texts statements)
  | .expression result => result.text

/-- The text of a statement. -/
def Statement.text : Statement → String
  | .expression content => content.text ++ ";"
  | .result none => "return;"
  | .result (some argument) => "return " ++ argument.text ++ ";"
  | .declaration kind name none => kind.keyword ++ " " ++ name ++ ";"
  | .declaration kind name (some initial) =>
      kind.keyword ++ " " ++ name ++ " = " ++ initial.text ++ ";"
  | .block statements => braced (Statement.texts statements)
  | .empty => ";"

/-- The text of each statement of a list. -/
def Statement.texts : List Statement → List String
  | [] => []
  | s :: ss => s.text :: Statement.texts ss
end

/-- The text of a program. -/
def Program.text (program : Program) : String :=
  " ".intercalate (Statement.texts program)

end RowFilter.Script
