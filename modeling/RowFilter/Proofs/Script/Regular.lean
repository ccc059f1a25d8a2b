import RowFilter.Proofs.Script.Literal

/-!
# Regular trees

Not every tree has a text that is read back.  A regular tree has names where names stand,
literals that can be written, arrows only on functions that may have one, and a block as
the body of any other function.  These are conditions on the single nodes of a tree, and
`Expr.every` asks them of all nodes.

The text of an infinite number is the name `inf`, which is read back as an identifier.
What a regular tree is read back as is therefore the tree with these literals replaced
(`Expr.reread`), and that is the tree itself just when none of its literals is infinite
(`Expr.reread_eq_iff`).
-/

set_option autoImplicit false

namespace RowFilter.Script

/-! ## Conditions on all nodes -/

mutual
/-- Whether an expression and all expressions and statements inside it pass a test. -/
def Expr.every (p : Expr → Bool) (q : Statement → Bool) : Expr → Bool
  | .identifier n => p (.identifier n)
  | .literal v => p (.literal v)
  | .member o n => p (.member o n) && o.every p q
  | .index o k => p (.index o k) && o.every p q && k.every p q
  | .call f as => p (.call f as) && f.every p q && Expr.everyAll p q as
  | .unary op a => p (.unary op a) && a.every p q
  | .binary l op r => p (.binary l op r) && l.every p q && r.every p q
  | .conditional t c a => p (.conditional t c a) && t.every p q && c.every p q && a.every p q
  | .function s b => p (.function s b) && b.every p q

/-- The test for the expressions of a list. -/
def Expr.everyAll (p : Expr → Bool) (q : Statement → Bool) : List Expr → Bool
  | [] => true
  | e :: es => e.every p q && Expr.everyAll p q es

/-- The test for what is inside the body of a function. -/
def Body.every (p : Expr → Bool) (q : Statement → Bool) : Body → Bool
  | .block ss => Statement.everyAll p q ss
  | .expression e => e.every p q

/-- The test for a statement and what is inside it. -/
def Statement.every (p : Expr → Bool) (q : Statement → Bool) : Statement → Bool
  | .expression e => q (.expression e) && e.every p q
  | .result none => q (.result none)
  | .result (some e) => q (.result (some e)) && e.every p q
  | .declaration k n none => q (.declaration k n none)
  | .declaration k n (some e) => q (.declaration k n (some e)) && e.every p q
  | .block ss => q (.block ss) && Statement.everyAll p q ss
  | .empty => q .empty

/-- The test for the statements of a list. -/
def Statement.everyAll (p : Expr → Bool) (q : Statement → Bool) : List Statement → Bool
  | [] => true
  | s :: ss => s.every p q && Statement.everyAll p q ss
end

/-- Whatever passes the first test passes the second. -/
def Stronger {α : Type} (p p' : α → Bool) : Prop := ∀ a, p a = true → p' a = true

section Weaken

variable {p p' : Expr → Bool} {q q' : Statement → Bool}

mutual
/-- Nodes that pass a test pass a weaker one. -/
theorem Expr.every_weaken (exprs : Stronger p p') (statements : Stronger q q') :
    ∀ e : Expr, e.every p q = true → e.every p' q' = true
  | .identifier _, passed => exprs _ passed
  | .literal _, passed => exprs _ passed
  | .member o _, passed => by
      simp only [Expr.every, Bool.and_eq_true] at passed ⊢
      exact ⟨exprs _ passed.1, o.every_weaken exprs statements passed.2⟩
  | .index o k, passed => by
      simp only [Expr.every, Bool.and_eq_true] at passed ⊢
      exact ⟨⟨exprs _ passed.1.1, o.every_weaken exprs statements passed.1.2⟩,
        k.every_weaken exprs statements passed.2⟩
  | .call f as, passed => by
      simp only [Expr.every, Bool.and_eq_true] at passed ⊢
      exact ⟨⟨exprs _ passed.1.1, f.every_weaken exprs statements passed.1.2⟩,
        Expr.everyAll_weaken exprs statements as passed.2⟩
  | .unary _ a, passed => by
      simp only [Expr.every, Bool.and_eq_true] at passed ⊢
      exact ⟨exprs _ passed.1, a.every_weaken exprs statements passed.2⟩
  | .binary l _ r, passed => by
      simp only [Expr.every, Bool.and_eq_true] at passed ⊢
      exact ⟨⟨exprs _ passed.1.1, l.every_weaken exprs statements passed.1.2⟩,
        r.every_weaken exprs statements passed.2⟩
  | .conditional t c a, passed => by
      simp only [Expr.every, Bool.and_eq_true] at passed ⊢
      exact ⟨⟨⟨exprs _ passed.1.1.1, t.every_weaken exprs statements passed.1.1.2⟩,
        c.every_weaken exprs statements passed.1.2⟩, a.every_weaken exprs statements passed.2⟩
  | .function _ b, passed => by
      simp only [Expr.every, Bool.and_eq_true] at passed ⊢
      exact ⟨exprs _ passed.1, b.every_weaken exprs statements passed.2⟩

theorem Expr.everyAll_weaken (exprs : Stronger p p') (statements : Stronger q q') :
    ∀ es : List Expr, Expr.everyAll p q es = true → Expr.everyAll p' q' es = true
  | [], _ => rfl
  | e :: es, passed => by
      simp only [Expr.everyAll, Bool.and_eq_true] at passed ⊢
      exact ⟨e.every_weaken exprs statements passed.1,
        Expr.everyAll_weaken exprs statements es passed.2⟩

theorem Body.every_weaken (exprs : Stronger p p') (statements : Stronger q q') :
    ∀ b : Body, b.every p q = true → b.every p' q' = true
  | .block ss, passed => Statement.everyAll_weaken exprs statements ss passed
  | .expression e, passed => e.every_weaken exprs statements passed

theorem Statement.every_weaken (exprs : Stronger p p') (statements : Stronger q q') :
    ∀ s : Statement, s.every p q = true → s.every p' q' = true
  | .expression e, passed => by
      simp only [Statement.every, Bool.and_eq_true] at passed ⊢
      exact ⟨statements _ passed.1, e.every_weaken exprs statements passed.2⟩
  | .result none, passed => statements _ passed
  | .result (some e), passed => by
      simp only [Statement.every, Bool.and_eq_true] at passed ⊢
      exact ⟨statements _ passed.1, e.every_weaken exprs statements passed.2⟩
  | .declaration _ _ none, passed => statements _ passed
  | .declaration _ _ (some e), passed => by
      simp only [Statement.every, Bool.and_eq_true] at passed ⊢
      exact ⟨statements _ passed.1, e.every_weaken exprs statements passed.2⟩
  | .block ss, passed => by
      simp only [Statement.every, Bool.and_eq_true] at passed ⊢
      exact ⟨statements _ passed.1, Statement.everyAll_weaken exprs statements ss passed.2⟩
  | .empty, passed => statements _ passed

theorem Statement.everyAll_weaken (exprs : Stronger p p') (statements : Stronger q q') :
    ∀ ss : List Statement, Statement.everyAll p q ss = true → Statement.everyAll p' q' ss = true
  | [], _ => rfl
  | s :: ss, passed => by
      simp only [Statement.everyAll, Bool.and_eq_true] at passed ⊢
      exact ⟨s.every_weaken exprs statements passed.1,
        Statement.everyAll_weaken exprs statements ss passed.2⟩
end

end Weaken

/-! ## Regular nodes -/

/-- Whether a function with such a signature can be written. -/
def Signature.isRegular (s : Signature) : Bool :=
  s.name.all isIdentifier && s.parameters.all isIdentifier &&
    (!s.arrow || s.name.isNone && !s.generator)

/-- Whether a function body is a block. -/
def Body.isBlock : Body → Bool
  | .block _ => true
  | .expression _ => false

/-- Whether an expression can be written, leaving its parts aside, if its literals are
limited to a class of values. -/
def Expr.isRegularNode (good : Value → Bool) : Expr → Bool
  | .identifier n => isIdentifier n
  | .literal v => good v
  | .member _ n => isName n
  | .function s b => s.isRegular && (s.arrow || b.isBlock)
  | _ => true

/-- Whether a statement can be written, leaving its parts aside. -/
def Statement.isRegularNode : Statement → Bool
  | .declaration _ n _ => isIdentifier n
  | _ => true

/-- Whether all nodes of an expression are regular. -/
abbrev Expr.isRegular (e : Expr) : Bool :=
  e.every (Expr.isRegularNode Value.isWritable) Statement.isRegularNode

/-- Whether all nodes of the body of a function are regular. -/
abbrev Body.isRegular (b : Body) : Bool :=
  b.every (Expr.isRegularNode Value.isWritable) Statement.isRegularNode

/-- Whether all nodes of a statement are regular. -/
abbrev Statement.isRegular (s : Statement) : Bool :=
  s.every (Expr.isRegularNode Value.isWritable) Statement.isRegularNode

/-- Whether an expression is no infinite number, leaving its parts aside. -/
def Expr.isFiniteNode : Expr → Bool
  | .literal v => !v.isInfinite
  | _ => true

/-- Whether all nodes of a program are regular. -/
def Program.isRegular (p : Program) : Bool :=
  Statement.everyAll (Expr.isRegularNode Value.isWritable) Statement.isRegularNode p

/-- Whether no literal of a program is an infinite number. -/
def Program.isFinite (p : Program) : Bool :=
  Statement.everyAll Expr.isFiniteNode (fun _ => true) p

/-- Whether an expression can be written and is no infinite number, leaving its parts aside. -/
abbrev Expr.isWellFormedNode : Expr → Bool :=
  Expr.isRegularNode fun v => v.isWritable && !v.isInfinite

/-- Whether all nodes of an expression are regular and no literal is an infinite number. -/
abbrev Expr.isWellFormed (e : Expr) : Bool :=
  e.every Expr.isWellFormedNode Statement.isRegularNode

/-- Whether all nodes of a program are regular and no literal is an infinite number. -/
def Program.isWellFormed (p : Program) : Bool :=
  Statement.everyAll (Expr.isRegularNode fun v => v.isWritable && !v.isInfinite)
    Statement.isRegularNode p

/-- A well-formed node is regular: it holds no value that cannot be written. -/
theorem stronger_isRegularNode :
    Stronger Expr.isWellFormedNode (Expr.isRegularNode Value.isWritable) := by
  intro e wellFormed
  cases e with
  | literal v => exact (Bool.and_eq_true _ _ ▸ wellFormed).1
  | _ => exact wellFormed

theorem stronger_isFiniteNode : Stronger Expr.isWellFormedNode Expr.isFiniteNode := by
  intro e wellFormed
  cases e with
  | literal v => exact (Bool.and_eq_true _ _ ▸ wellFormed).2
  | _ => rfl

/-- Well-formed expressions are regular at every node. -/
theorem Expr.isRegular_of_isWellFormed {e : Expr} (wellFormed : e.isWellFormed = true) :
    e.isRegular = true :=
  e.every_weaken stronger_isRegularNode (fun _ regular => regular) wellFormed

theorem Program.isRegular_of_isWellFormed {p : Program} (wellFormed : p.isWellFormed = true) :
    p.isRegular = true :=
  Statement.everyAll_weaken stronger_isRegularNode (fun _ regular => regular) p wellFormed

/-- Well-formed programs hold finite numbers only. -/
theorem Program.isFinite_of_isWellFormed {p : Program} (wellFormed : p.isWellFormed = true) :
    p.isFinite = true :=
  Statement.everyAll_weaken stronger_isFiniteNode (fun _ _ => rfl) p wellFormed

/-! ## What is read back -/

mutual
/-- An expression with its infinite numbers replaced by the name that is their text. -/
def Expr.reread : Expr → Expr
  | .identifier n => .identifier n
  | .literal v => if v.isInfinite then .identifier "inf" else .literal v
  | .member o n => .member o.reread n
  | .index o k => .index o.reread k.reread
  | .call f as => .call f.reread (Expr.rereadAll as)
  | .unary op a => .unary op a.reread
  | .binary l op r => .binary l.reread op r.reread
  | .conditional t c a => .conditional t.reread c.reread a.reread
  | .function s b => .function s b.reread

/-- The replacement in the expressions of a list. -/
def Expr.rereadAll : List Expr → List Expr
  | [] => []
  | e :: es => e.reread :: Expr.rereadAll es

/-- The replacement in the body of a function. -/
def Body.reread : Body → Body
  | .block ss => .block (Statement.rereadAll ss)
  | .expression e => .expression e.reread

/-- The replacement in a statement. -/
def Statement.reread : Statement → Statement
  | .expression e => .expression e.reread
  | .result none => .result none
  | .result (some e) => .result (some e.reread)
  | .declaration k n none => .declaration k n none
  | .declaration k n (some e) => .declaration k n (some e.reread)
  | .block ss => .block (Statement.rereadAll ss)
  | .empty => .empty

/-- The replacement in the statements of a list. -/
def Statement.rereadAll : List Statement → List Statement
  | [] => []
  | s :: ss => s.reread :: Statement.rereadAll ss
end

mutual
/-- **An expression is read back as itself just when none of its literals is infinite.** -/
theorem Expr.reread_eq_iff : ∀ e : Expr,
    e.reread = e ↔ e.every Expr.isFiniteNode (fun _ => true) = true
  | .identifier n => by simp [Expr.reread, Expr.every, Expr.isFiniteNode]
  | .literal v => by
      cases infinite : v.isInfinite <;> simp [Expr.reread, Expr.every, Expr.isFiniteNode, infinite]
  | .member o n => by simp [Expr.reread, Expr.every, Expr.isFiniteNode, o.reread_eq_iff]
  | .index o k => by
      simp [Expr.reread, Expr.every, Expr.isFiniteNode, o.reread_eq_iff, k.reread_eq_iff]
  | .call f as => by
      simp [Expr.reread, Expr.every, Expr.isFiniteNode, f.reread_eq_iff, Expr.rereadAll_eq_iff as]
  | .unary op a => by simp [Expr.reread, Expr.every, Expr.isFiniteNode, a.reread_eq_iff]
  | .binary l op r => by
      simp [Expr.reread, Expr.every, Expr.isFiniteNode, l.reread_eq_iff, r.reread_eq_iff]
  | .conditional t c a => by
      simp [Expr.reread, Expr.every, Expr.isFiniteNode, t.reread_eq_iff, c.reread_eq_iff,
        a.reread_eq_iff, and_assoc]
  | .function s b => by simp [Expr.reread, Expr.every, Expr.isFiniteNode, b.reread_eq_iff]

theorem Expr.rereadAll_eq_iff : ∀ es : List Expr,
    Expr.rereadAll es = es ↔ Expr.everyAll Expr.isFiniteNode (fun _ => true) es = true
  | [] => by simp [Expr.rereadAll, Expr.everyAll]
  | e :: es => by
      simp [Expr.rereadAll, Expr.everyAll, e.reread_eq_iff, Expr.rereadAll_eq_iff es]

theorem Body.reread_eq_iff : ∀ b : Body,
    b.reread = b ↔ b.every Expr.isFiniteNode (fun _ => true) = true
  | .block ss => by simp [Body.reread, Body.every, Statement.rereadAll_eq_iff ss]
  | .expression e => by simp [Body.reread, Body.every, e.reread_eq_iff]

theorem Statement.reread_eq_iff : ∀ s : Statement,
    s.reread = s ↔ s.every Expr.isFiniteNode (fun _ => true) = true
  | .expression e => by simp [Statement.reread, Statement.every, e.reread_eq_iff]
  | .result none => by simp [Statement.reread, Statement.every]
  | .result (some e) => by simp [Statement.reread, Statement.every, e.reread_eq_iff]
  | .declaration k n none => by simp [Statement.reread, Statement.every]
  | .declaration k n (some e) => by simp [Statement.reread, Statement.every, e.reread_eq_iff]
  | .block ss => by simp [Statement.reread, Statement.every, Statement.rereadAll_eq_iff ss]
  | .empty => by simp [Statement.reread, Statement.every]

theorem Statement.rereadAll_eq_iff : ∀ ss : List Statement,
    Statement.rereadAll ss = ss ↔ Statement.everyAll Expr.isFiniteNode (fun _ => true) ss = true
  | [] => by simp [Statement.rereadAll, Statement.everyAll]
  | s :: ss => by
      simp [Statement.rereadAll, Statement.everyAll, s.reread_eq_iff,
        Statement.rereadAll_eq_iff ss]
end

/-- Reading back changes nothing in a well-formed expression. -/
theorem Expr.reread_of_isWellFormed {e : Expr} (wellFormed : e.isWellFormed = true) :
    e.reread = e :=
  e.reread_eq_iff.mpr (e.every_weaken stronger_isFiniteNode (fun _ _ => rfl) wellFormed)

end RowFilter.Script
