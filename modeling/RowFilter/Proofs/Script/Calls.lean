import RowFilter.Proofs.Script.Precedence
import RowFilter.Proofs.Script.Traced
import RowFilter.Proofs.Script.Trailing

/-!
# Calls between rules

The rules of the grammar call one another, and a rule may come back to itself.  The readers
of the grammar are tied together by the length of the text.  Here the same rules are written
once more, each with the rules it calls as they come: what a rule does is given as soon as
it is given what the calls do (`Rule.body`), and no text is measured.  Operators before an
operand are read by a rule that calls itself, and so are the characters of a quoted text.

A rule at work on a text is a job.  Running a job keeps a record of every call, with the job
that makes it and the job that is begun by it (`run`).  The only bound is one on how deep
calls are nested, and a job that is not begun because of it is in the record as well.

Every rule has a rank.  A rule that begins with a call, before it takes a character, may
only begin with rules of lower ranks.
-/

set_option autoImplicit false

namespace RowFilter.Script

open Reader Lexeme Grammar

/-! ## Rules and jobs -/

/-- The rules that call others or are called. -/
inductive Rule where
  | program | statement | result | declaration | block
  | expr
  /-- The operations of a level and of the tighter ones. -/
  | rung (level : Fin levels.length)
  /-- An operator of a level and the operand to its right. -/
  | item (level : Fin levels.length)
  | unary | postfixed
  /-- One step from an expression to a member of it or to its value at arguments. -/
  | access
  | arguments
  | primary | function | arrow | parenthesized
  | parameters | parameter | identifier | literal
  /-- A text up to the quote that closes it. -/
  | contents (quote : Char)
  | gaps | gap
deriving DecidableEq

namespace Rule

/-- What a rule reads. -/
abbrev Value : Rule → Type
  | program | block => List Statement
  | statement | result | declaration => Statement
  | item _ => BinaryOp × Expr
  | access => Expr → Expr
  | arguments => List Expr
  | parameters => List String
  | parameter | identifier => String
  | literal => RowFilter.Value
  | contents _ => List Char
  | gaps | gap => Unit
  | _ => Expr

/-- The reader of the grammar for a rule. -/
def reader : (rule : Rule) → Reader rule.Value
  | program => Script.program
  | statement => Grammar.statement
  | result => resultStatement Grammar.expr
  | declaration => Grammar.declaration Grammar.expr
  | block => Grammar.block
  | expr => Grammar.expr
  | rung level => Script.rung level
  | item level => continuation (Script.rung (level + 1)) (operatorAt level)
  | unary => Grammar.unary Grammar.expr Grammar.block
  | postfixed => Grammar.postfixed Grammar.expr Grammar.block
  | access => Grammar.access Grammar.expr
  | arguments => listed Grammar.expr
  | primary => Grammar.primary Grammar.expr Grammar.block
  | function => functionLiteral Grammar.block
  | arrow => arrowFunction Grammar.expr Grammar.block
  | parenthesized => Grammar.parenthesized Grammar.expr
  | parameters => listed Grammar.parameter
  | parameter => Grammar.parameter
  | identifier => Lexeme.identifier
  | literal => Script.literal
  | contents quote => Quoted.decodeUpTo quote
  | gaps => Lexeme.gaps
  | gap => Lexeme.gap

/-- Whether a rule takes something whenever it does not refuse. -/
def takes : Rule → Bool
  | program | gaps => false
  | _ => true

/-- How high a rule stands.  Lowest are the rules that take a character before they call
another. -/
def rank : Rule → Nat
  | gap | identifier | literal | contents _ => 0
  | block | result | declaration | function | parenthesized | arguments | parameters => 0
  | gaps | parameter | arrow => 1
  | access | item _ | primary => 2
  | postfixed => 3
  | unary => 4
  | rung level => 4 + (levels.length - level)
  | expr => 15
  | statement => 16
  | program => 17

end Rule

/-- A rule at work on a text. -/
structure Job where
  rule : Rule
  text : List Char
deriving DecidableEq

/-- The text of the one job is shorter, or it is the same and the rule has a lower rank. -/
def Job.Below (callee caller : Job) : Prop :=
  callee.text.length < caller.text.length ∨
    callee.text = caller.text ∧ callee.rule.rank < caller.rule.rank

/-- How deep calls can be nested in a job.  There are fewer than 18 ranks. -/
def Job.height (job : Job) : Nat := 18 * job.text.length + job.rule.rank + 1

theorem Rule.rank_lt (rule : Rule) : rule.rank < 18 := by
  have count : levels.length = 10 := rfl
  cases rule <;> simp only [Rule.rank] <;> omega

theorem Job.Below.height_lt {callee caller : Job} (below : callee.Below caller) :
    callee.height < caller.height := by
  have bounded := callee.rule.rank_lt
  simp only [Job.height]
  rcases below with shorter | ⟨same, lower⟩
  · omega
  · rw [same]
    omega

/-! ## The rules, as they call one another -/

/-- A traced reader for every rule. -/
abbrev Calls : Type := (rule : Rule) → Traced Job rule.Value

namespace Calls

open Traced

variable {α : Type} (call : Calls)

/-- Go on after a gap, if there is one. -/
def afterGaps (p : Traced Job α) : Traced Job α := do
  call .gaps
  p

/-- One character of punctuation, with a gap before it. -/
def sign (c : Char) : Traced Job Unit :=
  call.afterGaps (plain (char c))

/-- Elements in parentheses with commas between them, and perhaps one after the last. -/
def listed (element : Traced Job α) : Traced Job (List α) := do
  plain (char '(')
  call .gaps
  let elements ← separated element (do call.sign ','; call .gaps)
  let _ ← optional (call.sign ',')
  call.sign ')'
  return elements

/-! Each of the following does what the rule of its name does. -/

def gaps : Traced Job Unit := do
  let _ ← many (call .gap)

def contents (quote : Char) : Traced Job (List Char) := do
  let c ← plain (satisfying fun _ => true)
  if c = '\\' then
    let escaped ← plain (satisfying fun _ => true)
    let others ← call (.contents quote)
    return Quoted.unescape escaped :: others
  else if c = quote then return []
  else if c = '\n' then plain refuse
  else
    let others ← call (.contents quote)
    return c :: others

def quotedBy (quote : Char) : Traced Job Value := do
  plain (char quote)
  let read ← call (.contents quote)
  return .text (String.ofList read)

def literal : Traced Job Value :=
  plain (wordFor "true" (.boolean true)) <|> plain (wordFor "false" (.boolean false)) <|>
    plain (wordFor "null" .null) <|> plain number <|>
    (call.quotedBy '"' <|> call.quotedBy '\x27')

def parameter : Traced Job String := do
  let read ← call .identifier
  let _ ← optional (do call.sign ':'; call.afterGaps (plain name))
  return read

def asyncMark : Traced Job Bool := do
  let mark ← optional (do plain (keyword "async"); call .gaps)
  return mark.isSome

def function : Traced Job Expr := do
  let async ← call.asyncMark
  plain (keyword "function")
  let star ← optional (call.sign '*')
  let called ← optional (call.afterGaps (call .identifier))
  let parameters ← call.afterGaps (call .parameters)
  let statements ← call.afterGaps (call .block)
  return .function ⟨called, parameters, false, async, star.isSome⟩ (.block statements)

def arrow : Traced Job Expr := do
  let async ← call.asyncMark
  let parameters ← (do let only ← call .identifier; return [only]) <|> call .parameters
  call .gaps
  plain (word "=>")
  call .gaps
  let body ← Body.block <$> call .block <|> Body.expression <$> call .expr
  return .function ⟨none, parameters, true, async, false⟩ body

def parenthesized : Traced Job Expr := do
  plain (char '(')
  let inner ← call.afterGaps (call .expr)
  call.sign ')'
  return inner

def primary : Traced Job Expr :=
  call .function <|> call .arrow <|> call .parenthesized <|>
    Expr.literal <$> call .literal <|> Expr.identifier <$> call .identifier

def access : Traced Job (Expr → Expr) :=
  call.afterGaps <|
    (do
      plain (char '.')
      let read ← call.afterGaps (plain name)
      return (.member · read)) <|>
    (do
      plain (char '[')
      let key ← call.afterGaps (call .expr)
      call.sign ']'
      return (.index · key)) <|>
    (do
      let arguments ← call .arguments
      return (.call · arguments))

def postfixed : Traced Job Expr := do
  let first ← call .primary
  let steps ← many (call .access)
  return steps.foldl (fun e step => step e) first

def unary : Traced Job Expr := do
  match ← optional (do let op ← plain unaryOp; call .gaps; return op) with
  | some op =>
      let operand ← call .unary
      return .unary op operand
  | none => call .postfixed

/-- The operands of a level are the operations of the next. -/
def operand (level : Fin levels.length) : Traced Job Expr :=
  if tighter : level + 1 < levels.length then call (.rung ⟨level + 1, tighter⟩) else call .unary

def item (level : Fin levels.length) : Traced Job (BinaryOp × Expr) := do
  let op ← call.afterGaps (plain (operatorAt level))
  let right ← call.afterGaps (call.operand level)
  return (op, right)

def rung (level : Fin levels.length) : Traced Job Expr := do
  let first ← call.operand level
  let others ← many (call (.item level))
  return others.foldl (fun left (op, right) => .binary left op right) first

def branches : Traced Job (Expr × Expr) := do
  call.sign '?'
  plain (notNext fun c => c == '?')
  let consequent ← call.afterGaps (call .expr)
  call.sign ':'
  let alternate ← call.afterGaps (call .expr)
  return (consequent, alternate)

def expr : Traced Job Expr := do
  let test ← call (.rung ⟨0, by decide⟩)
  match ← optional call.branches with
  | some (consequent, alternate) => return .conditional test consequent alternate
  | none => return test

def terminator : Traced Job Unit := do
  let _ ← optional (call.sign ';')

def result : Traced Job Statement := do
  plain (keyword "return")
  let argument ← optional (call.afterGaps (call .expr))
  call.terminator
  return .result argument

def declaration : Traced Job Statement := do
  let kind ← plain declarationKind
  let declared ← call.afterGaps (call .identifier)
  let initial ← optional (do call.sign '='; call.afterGaps (call .expr))
  call.terminator
  return .declaration kind declared initial

def statement : Traced Job Statement :=
  Statement.block <$> call .block <|> call .result <|> call .declaration <|>
    (do plain (char ';'); return .empty) <|>
    (do let content ← call .expr; call.terminator; return .expression content)

/-- A statement and the gap after it. -/
def spaced : Traced Job Statement := do
  let read ← call .statement
  call .gaps
  return read

def block : Traced Job (List Statement) := do
  plain (char '\x7b')
  call .gaps
  let statements ← many call.spaced
  plain (char '\x7d')
  return statements

def program : Traced Job (List Statement) := do
  call .gaps
  many call.spaced

end Calls

/-- What a rule does, given what the rules do that it calls. -/
def Rule.body (call : Calls) : (rule : Rule) → Traced Job rule.Value
  | program => call.program
  | statement => call.statement
  | result => call.result
  | declaration => call.declaration
  | block => call.block
  | expr => call.expr
  | rung level => call.rung level
  | item level => call.item level
  | unary => call.unary
  | postfixed => call.postfixed
  | access => call.access
  | arguments => call.listed (call .expr)
  | primary => call.primary
  | function => call.function
  | arrow => call.arrow
  | parenthesized => call.parenthesized
  | parameters => call.listed (call .parameter)
  | parameter => call.parameter
  | identifier => Traced.plain Lexeme.identifier
  | literal => call.literal
  | contents quote => call.contents quote
  | gaps => call.gaps
  | gap => Traced.plain Lexeme.gap

/-- A rule reads its text, and every rule it calls reads the text it is called on, down to
the given depth. -/
def run : Nat → (job : Job) → Trace Job job.rule.Value
  | 0, job => ⟨[.exhausted job], none⟩
  | depth + 1, job =>
      job.rule.body (fun rule text => (run depth ⟨rule, text⟩).after [.call job ⟨rule, text⟩])
        job.text

end RowFilter.Script
