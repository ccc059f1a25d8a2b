import RowFilter.Proofs.Script.Operation

/-!
# Texts with few parentheses

The printer puts every operation that is an operand in parentheses.  The sparing text of an
expression has a blank between any two tokens, and it has parentheses only where the
operators call for them.  How tightly an expression holds together is a number
(`Expr.tightness`): a conditional is loosest, the operators between two operands follow
level by level, then come the operators before an operand, and everything else is
tightest.  A left operand may be as tight as its operator, a right operand has to be tighter.
-/

set_option autoImplicit false

namespace RowFilter.Script

open Reader Lexeme Grammar

/-! ## Tightness -/

/-- How tightly an operator holds its operands together, from one to ten. -/
def BinaryOp.tightness (op : BinaryOp) : Nat := op.level + 1

/-- The tightness of an operator before an operand. -/
def UnaryOp.tightness : Nat := 11

/-- How tightly an expression holds together. -/
def Expr.tightness : Expr → Nat
  | .conditional _ _ _ => 0
  | .binary _ op _ => op.tightness
  | .unary _ _ => UnaryOp.tightness
  | _ => 12

/-! ## The text -/

/-- Tokens, in parentheses where they are called for. -/
def enclosed (parentheses : Bool) (tokens : List String) : List String :=
  if parentheses then "(" :: (tokens ++ [")"]) else tokens

mutual
/-- The tokens of an expression with no parentheses but those that are needed. -/
def Expr.tokens : Expr → List String
  | .identifier name => [name]
  | .literal value => [literalText value]
  | .member object name => enclosed object.isUnfitReceiver object.tokens ++ [".", name]
  | .call callee arguments =>
      enclosed callee.isUnfitReceiver callee.tokens ++
        "(" :: ([","].intercalate (Expr.tokensEach arguments) ++ [")"])
  | .unary op operand =>
      op.token :: enclosed (operand.tightness < UnaryOp.tightness) operand.tokens
  | .binary left op right =>
      enclosed (left.tightness < op.tightness) left.tokens ++
        op.token :: enclosed (right.tightness ≤ op.tightness) right.tokens
  | .conditional test consequent alternate =>
      enclosed (test.tightness = 0) test.tokens ++
        "?" :: (consequent.tokens ++ ":" :: alternate.tokens)
  | e => [e.text]

/-- The tokens of each expression of a list. -/
def Expr.tokensEach : List Expr → List (List String)
  | [] => []
  | e :: es => e.tokens :: Expr.tokensEach es
end

/-- The text of an expression with few parentheses. -/
def Expr.sparing (e : Expr) : String := " ".intercalate e.tokens

/-! ## Operator trees -/

/-- Whether an expression is an identifier, a natural number, a named member, a call or an
operation, leaving its parts aside. -/
def Expr.isOperatorNode : Expr → Bool
  | .identifier name => isIdentifier name
  | .literal (.integer n) => decide (0 ≤ n)
  | .member _ name => isName name
  | .literal _ | .index _ _ | .function _ _ => false
  | .call _ _ | .unary _ _ | .binary _ _ _ | .conditional _ _ _ => true

/-- Operations of any depth between identifiers, natural numbers, named members and calls. -/
abbrev Expr.isOperatorTree (e : Expr) : Bool :=
  e.every Expr.isOperatorNode fun _ => true

/-! ## Tokens with blanks between them -/

/-- Tokens with a blank between any two of them, and the text that follows. -/
def spread (tokens : List String) (rest : List Char) : List Char :=
  (" ".intercalate tokens).toList ++ rest

section Spread

variable {ts us : List String} {rest : List Char}

theorem spread_singleton (t : String) (rest : List Char) : spread [t] rest = t.toList ++ rest := by
  simp [spread]

theorem spread_cons (t : String) (nonempty : us ≠ []) :
    spread (t :: us) rest = t.toList ++ ' ' :: spread us rest := by
  obtain ⟨u, us, rfl⟩ := List.exists_cons_of_ne_nil nonempty
  simp [spread, String.intercalate_cons_cons]

/-- The texts of two rows of tokens have a blank between them. -/
theorem spread_append (nonempty : ts ≠ []) (nonempty' : us ≠ []) :
    spread (ts ++ us) rest = spread ts (' ' :: spread us rest) := by
  induction ts with
  | nil => exact absurd rfl nonempty
  | cons t ts ih =>
      cases ts with
      | nil => rw [List.singleton_append, spread_cons t nonempty', spread_singleton]
      | cons next ts =>
          rw [List.cons_append, spread_cons t (by simp), ih (by simp), spread_cons t (by simp)]

theorem enclosed_ne_nil (parentheses : Bool) (nonempty : ts ≠ []) :
    enclosed parentheses ts ≠ [] := by
  cases parentheses with
  | true => exact List.cons_ne_nil _ _
  | false => exact nonempty

/-- Parentheses are tokens too, with blanks around them. -/
theorem spread_enclosed (nonempty : ts ≠ []) :
    spread (enclosed true ts) rest = '(' :: ' ' :: spread ts (' ' :: ')' :: rest) := by
  have opening : "(".toList = ['('] := rfl
  have closing : ")".toList = [')'] := rfl
  rw [enclosed, if_pos rfl, spread_cons "(" (by simp), spread_append nonempty (by simp),
    spread_singleton, opening, closing]
  rfl

end Spread

theorem Expr.tokens_ne_nil (e : Expr) : e.tokens ≠ [] := by
  cases e <;> simp [Expr.tokens]

/-! ## What follows a blank -/

theorem Breaks.blank {s : List Char} (breaks : Breaks s) : Breaks (' ' :: s) where
  boundary := boundary_blank s
  name := by rw [skipGaps_blank]; exact breaks.name
  arrow := by rw [skipGaps_blank]; exact breaks.arrow
  parameters := by rw [skipGaps_blank]; exact breaks.parameters

/-- A closing character after a blank. -/
theorem ends_blank {c : Char} (t : List Char) (closer : isCloser c = true) :
    Ends (' ' :: c :: t) := by
  refine ends_of_skipGaps (t := t) ?_ closer (boundary_blank _) (by simp)
  rw [skipGaps_blank]
  apply skipGaps_cons <;>
    simp only [isCloser, Bool.or_eq_true, beq_iff_eq] at closer <;>
    rcases closer with ((((rfl | rfl) | rfl) | rfl) | rfl) | rfl <;> decide

/-- Nothing follows. -/
theorem ends_nil : Ends [] where
  boundary := fun _ head => by cases head
  name := fun _ head => by cases head
  arrow := rfl
  parameters := fun _ _ opened => by cases opened
  point := by simp
  access := silent_nil.access
  operators := silent_nil.operators
  branches := silent_nil.branches

end RowFilter.Script
