import RowFilter.Proofs.Script.Function
import RowFilter.Script.Source

/-!
# Written scripts are read back

The text of a regular tree is read back, piece by piece: every kind of expression and of
statement has been treated where its parts are already known to be read back, and here
the pieces are put together by induction on the tree.  A program whose literals are all
finite is the program that its text is (`parse_text`).
-/

set_option autoImplicit false

namespace RowFilter.Script

open Reader Lexeme Grammar

mutual
/-- **The text of a regular expression is read back in all places.** -/
theorem Expr.reads : ∀ e : Expr, e.isRegular = true → Reads e
  | .identifier _, regular => reads_identifier regular
  | .literal _, regular => reads_literal regular
  | .member o _, regular => by
      simp only [Expr.isRegular, Expr.every, Bool.and_eq_true] at regular
      exact (o.reads regular.2).member regular.1
  | .index o k, regular => by
      simp only [Expr.isRegular, Expr.every, Bool.and_eq_true] at regular
      exact (o.reads regular.1.2).index (k.reads regular.2)
  | .call f as, regular => by
      simp only [Expr.isRegular, Expr.every, Bool.and_eq_true] at regular
      exact (f.reads regular.1.2).call (Expr.reads_all as regular.2)
  | .unary op a, regular => by
      simp only [Expr.isRegular, Expr.every, Bool.and_eq_true] at regular
      exact (a.reads regular.2).unary op
  | .binary l op r, regular => by
      simp only [Expr.isRegular, Expr.every, Bool.and_eq_true] at regular
      exact (l.reads regular.1.2).binary op (r.reads regular.2)
  | .conditional t c a, regular => by
      simp only [Expr.isRegular, Expr.every, Bool.and_eq_true] at regular
      exact (t.reads regular.1.1.2).conditional (c.reads regular.1.2) (a.reads regular.2)
  | .function s (.block ss), regular => by
      simp only [Expr.isRegular, Expr.every, Body.every, Expr.isRegularNode,
        Bool.and_eq_true] at regular
      have statements := Statement.reads_all ss regular.2
      cases arrow : s.arrow with
      | true => exact .arrow arrow regular.1.1 (readsBody_block statements)
      | false => exact .function arrow regular.1.1 statements
  | .function s (.expression e), regular => by
      simp only [Expr.isRegular, Expr.every, Body.every, Expr.isRegularNode, Body.isBlock,
        Bool.and_eq_true, Bool.or_false] at regular
      exact .arrow regular.1.2 regular.1.1 (readsBody_expression (e.reads regular.2))

theorem Expr.reads_all : ∀ es : List Expr,
    Expr.everyAll (Expr.isRegularNode Value.isWritable) Statement.isRegularNode es = true →
      ∀ e ∈ es, Reads e
  | [], _ => fun _ member => absurd member List.not_mem_nil
  | e :: es, regular => by
      simp only [Expr.everyAll, Bool.and_eq_true] at regular
      exact List.forall_mem_cons.mpr ⟨e.reads regular.1, Expr.reads_all es regular.2⟩

/-- **The text of a regular statement is read back, whatever follows.** -/
theorem Statement.reads : ∀ s : Statement, s.isRegular = true → ReadsStatement s
  | .expression e, regular => by
      simp only [Statement.isRegular, Statement.every, Bool.and_eq_true] at regular
      exact readsStatement_expression (e.reads regular.2)
  | .result none, _ => readsStatement_result_none
  | .result (some e), regular => by
      simp only [Statement.isRegular, Statement.every, Bool.and_eq_true] at regular
      exact readsStatement_result_some (e.reads regular.2)
  | .declaration k _ none, regular => readsStatement_declaration_none k regular
  | .declaration k _ (some e), regular => by
      simp only [Statement.isRegular, Statement.every, Bool.and_eq_true] at regular
      exact readsStatement_declaration_some k regular.1 (e.reads regular.2)
  | .block ss, regular => by
      simp only [Statement.isRegular, Statement.every, Bool.and_eq_true] at regular
      exact readsStatement_block (Statement.reads_all ss regular.2)
  | .empty, _ => readsStatement_empty

theorem Statement.reads_all : ∀ ss : List Statement,
    Statement.everyAll (Expr.isRegularNode Value.isWritable) Statement.isRegularNode ss = true →
      ∀ s ∈ ss, ReadsStatement s
  | [], _ => fun _ member => absurd member List.not_mem_nil
  | s :: ss, regular => by
      simp only [Statement.everyAll, Bool.and_eq_true] at regular
      exact List.forall_mem_cons.mpr ⟨s.reads regular.1, Statement.reads_all ss regular.2⟩
end

/-! ## Programs -/

/-- **The text of a regular program is read back with its infinite numbers as names.** -/
theorem parse_text_reread {p : Program} (regular : p.isRegular = true) :
    parse p.text = .ok (Statement.rereadAll p) := by
  have reads := Statement.reads_all p regular
  have noStatement : statement (skipGaps []) = none := rfl
  have read := repeated_statements reads noStatement
  rw [List.append_nil] at read
  rw [parse, Grammar.statements, Program.text, read]
  rfl

/-- **The text of a well-formed program is read back as the program.** -/
theorem parse_text {p : Program} (wellFormed : p.isWellFormed = true) : parse p.text = .ok p := by
  rw [parse_text_reread (Program.isRegular_of_isWellFormed wellFormed),
    (Statement.rereadAll_eq_iff p).mpr (Program.isFinite_of_isWellFormed wellFormed)]

/-- The program `const async = async (x) => (1.5).in < async(x);`. -/
def sampleProgram : Program :=
  [ .declaration .const "async" <| some <|
      .function ⟨none, ["x"], true, true, false⟩ <| .expression <|
        .binary (.member (.literal (.float 1.5)) "in") (.compare .less)
          (.call (.identifier "async") [.identifier "x"]) ]

theorem parse_text_sampleProgram :
    sampleProgram.isWellFormed = true ∧ parse (Program.text sampleProgram) = .ok sampleProgram :=
  have wellFormed : Program.isWellFormed sampleProgram = true := by decide +kernel
  ⟨wellFormed, parse_text wellFormed⟩

end RowFilter.Script
