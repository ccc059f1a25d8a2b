import RowFilter.Proofs.Script.Parsed

/-!
# The nodes of what is read

All expressions and statements of a program, however deep they stand, are its nodes
(`Program.nodes`).  What can be said of every node of a program that has been read is said
here in plain terms (`Node.Proper`): which names stand where, which numbers a literal has,
and what a function looks like.

A test of all nodes along the tree is a test of the listed nodes (`Expr.every_iff_nodes`), and
a node passes the test for regular trees just when it is proper (`passes_iff_proper`).  So the
nodes of a program that has been read are proper, and conversely a program of proper nodes
is read from some text, at least if none of its literals is infinite
(`parse_proper_and_conversely`).
-/

set_option autoImplicit false

namespace RowFilter.Script

/-! ## Nodes -/

/-- A part of a program. -/
inductive Node where
  | expression (e : Expr)
  | statement (s : Statement)

mutual
/-- An expression with all expressions and statements inside it. -/
def Expr.nodes : Expr → List Node
  | .identifier n => [.expression (.identifier n)]
  | .literal v => [.expression (.literal v)]
  | .member o n => .expression (.member o n) :: o.nodes
  | .index o k => .expression (.index o k) :: (o.nodes ++ k.nodes)
  | .call f as => .expression (.call f as) :: (f.nodes ++ Expr.nodesAll as)
  | .unary op a => .expression (.unary op a) :: a.nodes
  | .binary l op r => .expression (.binary l op r) :: (l.nodes ++ r.nodes)
  | .conditional t c a => .expression (.conditional t c a) :: (t.nodes ++ c.nodes ++ a.nodes)
  | .function s b => .expression (.function s b) :: b.nodes

/-- The nodes of the expressions of a list. -/
def Expr.nodesAll : List Expr → List Node
  | [] => []
  | e :: es => e.nodes ++ Expr.nodesAll es

/-- The nodes of the body of a function. -/
def Body.nodes : Body → List Node
  | .block ss => Statement.nodesAll ss
  | .expression e => e.nodes

/-- A statement with all expressions and statements inside it. -/
def Statement.nodes : Statement → List Node
  | .expression e => .statement (.expression e) :: e.nodes
  | .result none => [.statement (.result none)]
  | .result (some e) => .statement (.result (some e)) :: e.nodes
  | .declaration k n none => [.statement (.declaration k n none)]
  | .declaration k n (some e) => .statement (.declaration k n (some e)) :: e.nodes
  | .block ss => .statement (.block ss) :: Statement.nodesAll ss
  | .empty => [.statement .empty]

/-- The nodes of the statements of a list. -/
def Statement.nodesAll : List Statement → List Node
  | [] => []
  | s :: ss => s.nodes ++ Statement.nodesAll ss
end

/-- All expressions and statements of a program. -/
def Program.nodes (p : Program) : List Node := Statement.nodesAll p

/-- Whether a node passes the test for its kind. -/
def Node.passes (p : Expr → Bool) (q : Statement → Bool) : Node → Bool
  | .expression e => p e
  | .statement s => q s

section Every

variable (p : Expr → Bool) (q : Statement → Bool)

mutual
/-- A tree passes a test of all nodes just when the listed nodes do. -/
theorem Expr.every_iff_nodes : ∀ e : Expr,
    e.every p q = true ↔ ∀ node ∈ e.nodes, node.passes p q = true
  | .identifier n => by simp [Expr.every, Expr.nodes, Node.passes]
  | .literal v => by simp [Expr.every, Expr.nodes, Node.passes]
  | .member o n => by simp [Expr.every, Expr.nodes, Node.passes, o.every_iff_nodes]
  | .index o k => by
      simp [Expr.every, Expr.nodes, Node.passes, o.every_iff_nodes, k.every_iff_nodes, or_imp,
        forall_and, and_assoc]
  | .call f as => by
      simp [Expr.every, Expr.nodes, Node.passes, f.every_iff_nodes, Expr.everyAll_iff_nodes as,
        or_imp, forall_and, and_assoc]
  | .unary op a => by simp [Expr.every, Expr.nodes, Node.passes, a.every_iff_nodes]
  | .binary l op r => by
      simp [Expr.every, Expr.nodes, Node.passes, l.every_iff_nodes, r.every_iff_nodes, or_imp,
        forall_and, and_assoc]
  | .conditional t c a => by
      simp [Expr.every, Expr.nodes, Node.passes, t.every_iff_nodes, c.every_iff_nodes,
        a.every_iff_nodes, or_imp, forall_and, and_assoc]
  | .function s b => by simp [Expr.every, Expr.nodes, Node.passes, b.every_iff_nodes]

theorem Expr.everyAll_iff_nodes : ∀ es : List Expr,
    Expr.everyAll p q es = true ↔ ∀ node ∈ Expr.nodesAll es, node.passes p q = true
  | [] => by simp [Expr.everyAll, Expr.nodesAll]
  | e :: es => by
      simp [Expr.everyAll, Expr.nodesAll, e.every_iff_nodes, Expr.everyAll_iff_nodes es, or_imp,
        forall_and]

theorem Body.every_iff_nodes : ∀ b : Body,
    b.every p q = true ↔ ∀ node ∈ b.nodes, node.passes p q = true
  | .block ss => Statement.everyAll_iff_nodes ss
  | .expression e => e.every_iff_nodes

theorem Statement.every_iff_nodes : ∀ s : Statement,
    s.every p q = true ↔ ∀ node ∈ s.nodes, node.passes p q = true
  | .expression e => by simp [Statement.every, Statement.nodes, Node.passes, e.every_iff_nodes]
  | .result none => by simp [Statement.every, Statement.nodes, Node.passes]
  | .result (some e) => by
      simp [Statement.every, Statement.nodes, Node.passes, e.every_iff_nodes]
  | .declaration k n none => by simp [Statement.every, Statement.nodes, Node.passes]
  | .declaration k n (some e) => by
      simp [Statement.every, Statement.nodes, Node.passes, e.every_iff_nodes]
  | .block ss => by
      simp [Statement.every, Statement.nodes, Node.passes, Statement.everyAll_iff_nodes ss]
  | .empty => by simp [Statement.every, Statement.nodes, Node.passes]

theorem Statement.everyAll_iff_nodes : ∀ ss : List Statement,
    Statement.everyAll p q ss = true ↔ ∀ node ∈ Statement.nodesAll ss, node.passes p q = true
  | [] => by simp [Statement.everyAll, Statement.nodesAll]
  | s :: ss => by
      simp [Statement.everyAll, Statement.nodesAll, s.every_iff_nodes,
        Statement.everyAll_iff_nodes ss, or_imp, forall_and]
end

end Every

/-! ## Names, character by character -/

/-- A letter of the Latin alphabet, an underscore or a dollar sign. -/
def IsLetter (c : Char) : Prop :=
  'A' ≤ c ∧ c ≤ 'Z' ∨ 'a' ≤ c ∧ c ≤ 'z' ∨ c = '_' ∨ c = '$'

/-- A letter in this sense and then letters and digits. -/
def HasNameForm (n : String) : Prop :=
  ∃ first others, n.toList = first :: others ∧ IsLetter first ∧
    ∀ c ∈ others, IsLetter c ∨ '0' ≤ c ∧ c ≤ '9'

/-- A name that is not reserved. -/
def IsFreeName (n : String) : Prop := HasNameForm n ∧ n ∉ Lexeme.reserved

theorem isNameStart_iff (c : Char) : Lexeme.isNameStart c = true ↔ IsLetter c := by
  simp only [Lexeme.isNameStart, IsLetter, Char.isAlpha, Char.isUpper, Char.isLower,
    Bool.or_eq_true, Bool.and_eq_true, decide_eq_true_eq, beq_iff_eq, or_assoc]
  rfl

theorem isNameChar_iff (c : Char) :
    Lexeme.isNameChar c = true ↔ IsLetter c ∨ '0' ≤ c ∧ c ≤ '9' := by
  have digit : c.isDigit = true ↔ '0' ≤ c ∧ c ≤ '9' := by
    simp only [Char.isDigit, Bool.and_eq_true, decide_eq_true_eq]
    rfl
  rw [← isNameStart_iff, ← digit]
  simp only [Lexeme.isNameChar, Lexeme.isNameStart, Char.isAlphanum, Bool.or_eq_true]
  tauto

/-- Names are a letter and then letters and digits. -/
theorem isName_iff (n : String) : isName n = true ↔ HasNameForm n := by
  rw [isName, HasNameForm]
  cases n.toList with
  | nil => simp
  | cons first others => simp [isNameStart_iff, isNameChar_iff]

/-- Identifiers are names that are not reserved. -/
theorem isIdentifier_iff (n : String) : isIdentifier n = true ↔ IsFreeName n := by
  simp [isIdentifier, IsFreeName, isName_iff]

/-! ## Proper nodes -/

/-- What is true of a function literal that has been read. -/
structure ProperFunction (s : Signature) (b : Body) : Prop where
  name : ∀ n ∈ s.name, IsFreeName n
  parameters : ∀ n ∈ s.parameters, IsFreeName n
  arrow : s.arrow = true → s.name = none ∧ s.generator = false
  word : s.arrow = false → ∃ statements, b = .block statements

/-- What is true of a node that has been read, leaving the nodes inside it aside. -/
def Node.Proper : Node → Prop
  | .expression (.identifier n) => IsFreeName n
  | .expression (.member _ n) => HasNameForm n
  | .expression (.literal (.integer n)) => 0 ≤ n.toInt ∧ n.toInt ≤ 2 ^ 63 - 1
  | .expression (.literal (.float x)) => x.isNaN = false ∧ Binary64.isNegative x = false
  | .expression (.function s b) => ProperFunction s b
  | .statement (.declaration _ n _) => IsFreeName n
  | _ => True

theorem isRegular_iff_proper (s : Signature) (b : Body) :
    (s.isRegular && (s.arrow || b.isBlock)) = true ↔ ProperFunction s b := by
  have block : b.isBlock = true ↔ ∃ statements, b = .block statements := by
    cases b <;> simp [Body.isBlock]
  have named : s.name.all isIdentifier = true ↔ ∀ n ∈ s.name, IsFreeName n := by
    simp [Option.all_eq_true, isIdentifier_iff]
  have parameters : s.parameters.all isIdentifier = true ↔ ∀ n ∈ s.parameters, IsFreeName n := by
    simp [isIdentifier_iff]
  simp only [Signature.isRegular, Bool.and_eq_true, Bool.or_eq_true, named, parameters, block]
  constructor
  · rintro ⟨⟨⟨called, all⟩, arrow⟩, word⟩
    refine ⟨called, all, ?_, ?_⟩
    · intro isArrow
      simpa [isArrow] using arrow
    · intro notArrow
      simpa [notArrow] using word
  · intro proper
    refine ⟨⟨⟨proper.name, proper.parameters⟩, ?_⟩, ?_⟩
    · cases isArrow : s.arrow with
      | false => simp
      | true => simpa using proper.arrow isArrow
    · cases isArrow : s.arrow with
      | false => exact .inr (proper.word isArrow)
      | true => simp

theorem isWritable_integer_iff (n : Int64) :
    (Value.integer n).isWritable = true ↔ 0 ≤ n.toInt ∧ n.toInt ≤ 2 ^ 63 - 1 := by
  rw [Value.isWritable, decide_eq_true_iff, Int64.le_iff_toInt_le]
  exact ⟨fun positive => ⟨positive, n.toInt_le⟩, And.left⟩

/-- A node is regular just when it is proper. -/
theorem passes_iff_proper (node : Node) :
    node.passes (Expr.isRegularNode Value.isWritable) Statement.isRegularNode = true ↔
      node.Proper := by
  cases node with
  | expression e =>
      cases e with
      | identifier n => exact isIdentifier_iff n
      | member o n => exact isName_iff n
      | function s b => exact isRegular_iff_proper s b
      | literal v =>
          cases v with
          | integer n => exact isWritable_integer_iff n
          | float x => simp [Node.passes, Node.Proper, Expr.isRegularNode, Value.isWritable]
          | _ => exact iff_of_true rfl trivial
      | _ => exact iff_of_true rfl trivial
  | statement s =>
      cases s with
      | declaration k n initial => exact isIdentifier_iff n
      | _ => exact iff_of_true rfl trivial

/-- A program is regular if each of its nodes is proper. -/
theorem Program.isRegular_iff (p : Program) :
    p.isRegular = true ↔ ∀ node ∈ p.nodes, node.Proper := by
  rw [Program.isRegular, Statement.everyAll_iff_nodes]
  simp only [passes_iff_proper]
  rfl

/-- **All nodes of a program that is read are proper, and a program of proper nodes whose
literals are finite is read from some text.** -/
theorem parse_proper_and_conversely (p : Program) :
    (∀ source, parse source = .ok p → ∀ node ∈ p.nodes, node.Proper) ∧
      ((∀ node ∈ p.nodes, node.Proper) → p.isFinite = true → ∃ source, parse source = .ok p) := by
  constructor
  · intro source parsed
    exact p.isRegular_iff.mp (regular_of_parse parsed)
  · intro proper finite
    refine ⟨p.text, ?_⟩
    rw [parse_text_reread (p.isRegular_iff.mpr proper), (Statement.rereadAll_eq_iff p).mpr finite]

theorem parse_proper_and_conversely_sampleProgram :
    parse "const async = /* row */ async x => 15e-1 .in < async(x)" = .ok sampleProgram ∧
      (∀ node ∈ Program.nodes sampleProgram, node.Proper) ∧
      Program.isFinite sampleProgram = true ∧ ∃ source, parse source = .ok sampleProgram := by
  have parsed : parse "const async = /* row */ async x => 15e-1 .in < async(x)" =
      .ok sampleProgram := eq_ok_of_toOption (by decide +kernel)
  have finite : Program.isFinite sampleProgram = true := by decide +kernel
  obtain ⟨forward, conversely⟩ := parse_proper_and_conversely sampleProgram
  have proper := forward _ parsed
  exact ⟨parsed, proper, finite, conversely proper finite⟩

end RowFilter.Script
