import RowFilter.Compilation
import RowFilter.Proofs.Script.Equality
import RowFilter.Proofs.Script.Sequence
import RowFilter.Script.Builder

/-!
# Reading a filter inside parentheses

A filter is compiled from its text with a parenthesis before it and one after it.  The
two readings that matter are compared here: a filter may be accepted in parentheses, and
it may be one expression by itself (`alone`).

The parentheses make no difference if the added closing parenthesis closes the added
opening one (`Wrapped`).  It does not if it has become part of a comment, and it does not
if the filter closes the opening parenthesis itself.  In both cases the two readings
come apart: a filter that is not wrapped is never accepted in both ways
(`compiles_iff_compilesAlone_iff_wrapped`).
-/

set_option autoImplicit false

namespace RowFilter

open Script Reader Lexeme Grammar

namespace Script

/-- An expression with gaps before and after it. -/
def spacedExpr : Reader Expr := do
  gaps
  let e ← expr
  gaps
  return e

/-- The expression that a text is by itself. -/
def alone (s : List Char) : Option Expr :=
  (spacedExpr s).bind fun found => if found.2.isEmpty then some found.1 else none

/-- The parenthesis that is added after a source closes the one added before it. -/
def Wrapped (source : String) : Prop := Arrives 0 source.toList

theorem spacedExpr_apply (s : List Char) :
    spacedExpr s = (afterGaps expr s).map fun found => (found.1, skipGaps found.2) := by
  simp only [spacedExpr, afterGaps, bind_apply, gaps_apply, pure_apply, Option.bind_some]
  rw [Option.map_eq_bind]
  rfl

theorem alone_eq_bind (s : List Char) :
    alone s = (afterGaps expr s).bind fun found =>
      if (skipGaps found.2).isEmpty then some found.1 else none := by
  rw [alone, spacedExpr_apply, Option.bind_map]
  rfl

theorem alone_eq_some {s : List Char} {e : Expr} (whole : alone s = some e) :
    ∃ rest, afterGaps expr s = some (e, rest) ∧ skipGaps rest = [] := by
  rw [alone_eq_bind, Option.bind_eq_some_iff] at whole
  obtain ⟨⟨e', rest⟩, read, ended⟩ := whole
  obtain ⟨empty, same⟩ := Option.ite_none_right_eq_some.mp ended
  cases same
  exact ⟨rest, read, List.isEmpty_iff.mp empty⟩

/-! ## One statement -/

theorem statements_open_of_none {t : List Char} (refused : expr ('(' :: t) = none) :
    statements ('(' :: t) = ([], '(' :: t) := by
  have noStatement : spaced statement ('(' :: t) = none :=
    bind_of_none ((statement_of_begins (begins_cons t rfl)).trans (bind_of_none refused))
  have noGap : gap ('(' :: t) = none := gap_cons_eq_none t rfl (by decide)
  rw [statements, skipGaps_of_none noGap, repeated_of_none noStatement]

theorem statements_open_of_some {t : List Char} {e : Expr} (read : expr ('(' :: t) = some (e, [])) :
    statements ('(' :: t) = ([.expression e], []) := by
  have one : spaced statement ('(' :: t) = some (.expression e, []) := by
    rw [spaced, bind_of_some ((statement_of_begins (begins_cons t rfl)).trans (bind_of_some read))]
    rfl
  have noGap : gap ('(' :: t) = none := gap_cons_eq_none t rfl (by decide)
  rw [statements, skipGaps_of_none noGap, repeated_of_some spaced_progresses one]
  rfl

/-! ## The expression in parentheses -/

/-- A text without the parenthesis that closes is no expression. -/
theorem expr_open_of_none {t : List Char} (unclosed : closing 0 t = none) :
    expr ('(' :: t) = none := by
  have arrow : arrowFunction expr block ('(' :: t) = none := by
    apply arrowFunction_open
    intro parameters rest read
    rw [parameters_closing read] at unclosed
    cases unclosed
  refine expr_of_none (unaryMark_open t) ((primary_open arrow).trans ?_)
  cases read : parenthesized expr ('(' :: t) with
  | none => rfl
  | some found =>
      have closed : closing 0 t = some found.2 := parenthesized_closing read
      rw [unclosed] at closed
      cases closed

/-- Where the search arrives at the added parenthesis, it is read right after a text
exactly if nothing else is left there. -/
theorem sign_append {rest : List Char} (arrives : Arrives 0 rest) :
    sign ')' (rest ++ [')']) = if (skipGaps rest).isEmpty then some ((), []) else none := by
  have skipped : sign ')' (rest ++ [')']) = char ')' (skipGaps rest ++ [')']) := by
    rw [sign, afterGaps_apply, skipGaps_append rest arrives]
  rw [skipped]
  cases left : skipGaps rest with
  | nil => rfl
  | cons c more =>
      by_cases closes : c = ')'
      · -- The search would have ended here, before the added parenthesis.
        subst closes
        have early := skipGaps_append rest arrives
        rw [Arrives, ← closing_skipGaps, early, left, List.cons_append, closing_zero] at arrives
        simp at arrives
      · simp [closes]

/-- A text that ends where its first parenthesis closes is what stands inside. -/
theorem expr_open_of_arrives {s : List Char} (arrives : Arrives 0 s) :
    expr ('(' :: (s ++ [')'])) = (alone s).map fun e => (e, []) := by
  have arrow : arrowFunction expr block ('(' :: (s ++ [')'])) = none :=
    arrowFunction_open fun ps rest read => by
      obtain rfl : rest = [] := Option.some.inj ((parameters_closing read).symm.trans arrives)
      rfl
  have inside : parenthesized expr ('(' :: (s ++ [')'])) = (alone s).map fun e => (e, []) := by
    rw [parenthesized_open, alone_eq_bind]
    rcases (appendedFrame.afterGaps (appendedFrame.expr 0)) s _ ⟨rfl, arrives⟩ with
      ⟨refused, refused'⟩ | ⟨e, rest, _, read, read', ⟨rfl, arrives'⟩, _⟩
    · rw [refused, refused', Option.bind_none, Option.bind_none, Option.map_none]
    · rw [read, read', Option.bind_some, Option.bind_some, sign_append arrives']
      cases (skipGaps rest).isEmpty <;> rfl
  cases whole : alone s with
  | none =>
      rw [whole] at inside
      exact expr_of_none (unaryMark_open _) ((primary_open arrow).trans inside)
  | some e =>
      rw [whole] at inside
      exact expr_of_primary (unaryMark_open _) ((primary_open arrow).trans inside) silent_nil

/-- An expression by itself that is not wrapped is no expression in parentheses. -/
theorem expr_open_of_alone {s : List Char} {e : Expr} (whole : alone s = some e)
    (swallowed : ¬ Arrives 0 s) : expr ('(' :: (s ++ [')'])) = none := by
  obtain ⟨rest, read, ended⟩ := alone_eq_some whole
  have F := balancedFrame (closing 0 s)
  obtain ⟨_, _, ⟨_, within⟩, _⟩ := (F.afterGaps (F.expr 0)).reads ⟨rfl, rfl⟩ read
  rw [← closing_skipGaps, ended, closing_nil] at within
  rcases closing_append s within.symm with none_closes | arrives
  · exact expr_open_of_none none_closes
  · exact absurd arrives swallowed

end Script

/-! ## Compiling -/

theorem toList_wrapped (source : String) :
    ("(" ++ source ++ ")").toList = '(' :: (source.toList ++ [')']) := by
  simp [String.toList_append]

/-- A text that cannot be read in parentheses is refused at its beginning. -/
theorem parseInside_of_none {source : String}
    (refused : expr ('(' :: (source.toList ++ [')'])) = none) :
    Compilation.parseInside source = .error ⟨Position.start⟩ := by
  have nothing (t : List Char) : Position.after (before t t) = Position.start := by
    rw [before, Nat.sub_self]
    rfl
  have parsed : parse ("(" ++ source ++ ")") = .error ⟨Position.start⟩ := by
    rw [parse, toList_wrapped, statements_open_of_none refused]
    exact congrArg (Except.error ∘ ParseError.mk) (nothing _)
  rw [Compilation.parseInside, parsed]
  simp [Compilation.inside, Position.start]

theorem parseInside_of_some {source : String} {e : Expr}
    (read : expr ('(' :: (source.toList ++ [')'])) = some (e, [])) :
    Compilation.parseInside source = .ok [.expression e] := by
  rw [Compilation.parseInside, parse, toList_wrapped, statements_open_of_some read]

theorem parse_of_parseInside {source : String} {p : Program}
    (read : Compilation.parseInside source = .ok p) : parse ("(" ++ source ++ ")") = .ok p := by
  rw [Compilation.parseInside] at read
  split at read
  · next parsed =>
      cases read
      exact parsed
  · cases read

/-- A filter given as text is compiled to a condition and leaves a supply. -/
def Compiles (source : String) (supply : NameSupply) (n : Sql.Condition) (next : NameSupply) :
    Prop :=
  (compile source supply).result = .ok n ∧ (compile source supply).supply = next

/-- The text is one function literal by itself, which is compiled to a condition and
leaves a supply. -/
def CompilesAlone (source : String) (supply : NameSupply) (n : Sql.Condition)
    (next : NameSupply) : Prop :=
  ∃ signature body, alone source.toList = some (.function signature body) ∧
    (compileExpr (.function signature body) supply).result = .ok n ∧
    (compileExpr (.function signature body) supply).supply = next

variable {source : String} {supply next : NameSupply} {n : Sql.Condition}

theorem not_compiles_of_none (refused : expr ('(' :: (source.toList ++ [')'])) = none) :
    ¬ Compiles source supply n next := by
  rintro ⟨result, _⟩
  rw [compile, parseInside_of_none refused] at result
  cases result

/-- The program that is reported has no influence on a compilation. -/
theorem finish_program (condition : Except FilterFunction.Misfit Expr)
    (supply : NameSupply) (program : Option Program) :
    Compilation.finish condition supply program =
      { Compilation.finish condition supply none with program := program } := by
  cases condition <;> rfl

theorem compile_of_parseInside {e : Expr}
    (read : Compilation.parseInside source = .ok [.expression e]) :
    compile source supply = { compileExpr e supply with program := some [.expression e] } := by
  rw [compile, read]
  exact finish_program _ _ _

theorem compiles_of_some {e : Expr} (read : expr ('(' :: (source.toList ++ [')'])) = some (e, [])) :
    Compiles source supply n next ↔
      (compileExpr e supply).result = .ok n ∧ (compileExpr e supply).supply = next := by
  rw [Compiles, compile_of_parseInside (parseInside_of_some read)]

/-- Only functions are compiled. -/
theorem function_of_compileExpr {e : Expr} (result : (compileExpr e supply).result = .ok n) :
    ∃ signature body, e = .function signature body := by
  cases e
  case function signature body => exact ⟨signature, body, rfl⟩
  all_goals cases result

/-- **Where a filter is compiled in one of the two ways, it is compiled in both, with the
same outcome, exactly if it is wrapped.** -/
theorem compiles_iff_compilesAlone_iff_wrapped
    (accepted : Compiles source supply n next ∨ CompilesAlone source supply n next) :
    (Compiles source supply n next ↔ CompilesAlone source supply n next) ↔ Wrapped source := by
  constructor
  · intro agree
    have inside : Compiles source supply n next := accepted.elim id agree.mpr
    obtain ⟨signature, body, whole, _⟩ := agree.mp inside
    by_cases wrapped : Wrapped source
    · exact wrapped
    · exact absurd inside (not_compiles_of_none (expr_open_of_alone whole wrapped))
  · intro wrapped
    have read := expr_open_of_arrives wrapped
    cases whole : alone source.toList with
    | none =>
        rw [whole] at read
        apply iff_of_false (not_compiles_of_none read)
        rintro ⟨signature, body, whole', _⟩
        rw [whole] at whole'
        cases whole'
    | some e =>
        rw [whole] at read
        rw [compiles_of_some read]
        constructor
        · rintro ⟨result, left⟩
          obtain ⟨signature, body, rfl⟩ := function_of_compileExpr result
          exact ⟨signature, body, whole, result, left⟩
        · rintro ⟨signature, body, whole', result⟩
          rw [whole] at whole'
          cases whole'
          exact result

/-! ## Both ways, and one way only -/

section Samples

open Builder

/-- The filter of the samples. -/
def sampleFilter : Expr := arrow (equals (field "a") (constant (.integer 1)))

/-- What the filter of the samples is compiled to. -/
def sampleCondition : Sql.Condition :=
  .comparison (.field (.plain "a")) .equal (.placeholder ⟨"@p0", .integer 1⟩)

theorem compiles_iff_compilesAlone_sample :
    (Compiles "x => x.a === 1" .fresh sampleCondition ⟨"@", 1⟩ ↔
      CompilesAlone "x => x.a === 1" .fresh sampleCondition ⟨"@", 1⟩) ↔
    Wrapped "x => x.a === 1" := by
  have read : alone "x => x.a === 1".toList = some sampleFilter := by
    decide +kernel
  exact compiles_iff_compilesAlone_iff_wrapped (.inr ⟨_, _, read, rfl, rfl⟩)

/-- A comment at the end of a filter swallows the added parenthesis, and a filter may
close the added parenthesis itself. -/
theorem compiles_not_iff_compilesAlone :
    (CompilesAlone "x => x.a === 1 // c" .fresh sampleCondition ⟨"@", 1⟩ ∧
      ¬ Compiles "x => x.a === 1 // c" .fresh sampleCondition ⟨"@", 1⟩) ∧
    (Compiles "x) => (x.a === 1" .fresh sampleCondition ⟨"@", 1⟩ ∧
      ¬ CompilesAlone "x) => (x.a === 1" .fresh sampleCondition ⟨"@", 1⟩) := by
  have read : alone "x => x.a === 1 // c".toList = some sampleFilter := by
    decide +kernel
  have refused : expr ('(' :: ("x => x.a === 1 // c".toList ++ [')'])) = none := by
    decide +kernel
  have read' : Compilation.parseInside "x) => (x.a === 1" = .ok [.expression sampleFilter] :=
    eq_ok_of_toOption (by decide +kernel)
  have refused' : alone "x) => (x.a === 1".toList = none := by decide +kernel
  refine ⟨⟨⟨_, _, read, rfl, rfl⟩, not_compiles_of_none refused⟩, ?_, ?_⟩
  · constructor <;> (rw [compile, read']; rfl)
  · rintro ⟨signature, body, whole, _⟩
    rw [refused'] at whole
    cases whole

end Samples

end RowFilter
