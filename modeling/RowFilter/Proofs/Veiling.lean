import RowFilter.Proofs.Preorder
import RowFilter.Proofs.Sql.Pieces

/-!
# Values have no influence

To veil a program, a condition or a statement is to put the absent value in the place of
each constant in it.  What is alike when it is veiled differs in constants only.

Each step of a compilation can be done on what is veiled just as well: a filter function is
one under the veil, and lowering goes the same way and takes the same names
(`run_veiled`).  Texts and names are not veiled at all (`Condition.pieces_veiled`,
`Statement.written_veiled`).  So neither of them depends on a value
(`same_text_of_veiled_eq`).
-/

set_option autoImplicit false

namespace RowFilter

open Script Sql

/-! ## Veiled trees -/

namespace Script

mutual
/-- An expression with the absent value in each literal. -/
def Expr.veiled : Expr → Expr
  | .identifier n => .identifier n
  | .literal _ => .literal .null
  | .member o n => .member o.veiled n
  | .index o k => .index o.veiled k.veiled
  | .call f as => .call f.veiled (Expr.veiledAll as)
  | .unary op a => .unary op a.veiled
  | .binary l op r => .binary l.veiled op r.veiled
  | .conditional t c a => .conditional t.veiled c.veiled a.veiled
  | .function s b => .function s b.veiled

/-- The expressions of a list with the absent value in each literal. -/
def Expr.veiledAll : List Expr → List Expr
  | [] => []
  | e :: es => e.veiled :: Expr.veiledAll es

/-- The body of a function with the absent value in each literal. -/
def Body.veiled : Body → Body
  | .block ss => .block (Statement.veiledAll ss)
  | .expression e => .expression e.veiled

/-- A statement with the absent value in each literal. -/
def Statement.veiled : Statement → Statement
  | .expression e => .expression e.veiled
  | .result none => .result none
  | .result (some e) => .result (some e.veiled)
  | .declaration k n none => .declaration k n none
  | .declaration k n (some e) => .declaration k n (some e.veiled)
  | .block ss => .block (Statement.veiledAll ss)
  | .empty => .empty

/-- The statements of a list with the absent value in each literal. -/
def Statement.veiledAll : List Statement → List Statement
  | [] => []
  | s :: ss => s.veiled :: Statement.veiledAll ss
end

/-- A program with the absent value in each literal. -/
def Program.veiled (p : Program) : Program := Statement.veiledAll p

theorem Statement.length_veiledAll (ss : List Statement) :
    (Statement.veiledAll ss).length = ss.length := by
  induction ss with
  | nil => rfl
  | cons s ss ih => rw [Statement.veiledAll, List.length_cons, List.length_cons, ih]

end Script

/-! ## Filter functions under the veil -/

namespace FilterFunction

theorem condition_veiled (e : Expr) : condition e.veiled = (condition e).map Expr.veiled := by
  cases e with
  | binary l op r => cases op <;> rfl
  | _ => rfl

theorem returned_veiled (b : Body) : returned b.veiled = (returned b).map Expr.veiled := by
  cases b with
  | expression e => exact condition_veiled e
  | block ss =>
      match ss with
      | [] => rfl
      | [s] =>
          match s with
          | .result (some e) => exact condition_veiled e
          | .result none => rfl
          | .expression _ | .block _ | .empty => rfl
          | .declaration _ _ none | .declaration _ _ (some _) => rfl
      | s :: s' :: ss =>
          simp [Body.veiled, Statement.veiledAll, returned, Except.map, Statement.length_veiledAll]

theorem ofExpr_veiled (e : Expr) : ofExpr e.veiled = (ofExpr e).map Expr.veiled := by
  cases e with
  | function s b =>
      simp only [Expr.veiled, ofExpr, ofFunction]
      split
      · rfl
      · split
        · rfl
        · exact returned_veiled b
  | binary l op r => cases op <;> rfl
  | _ => rfl

/-- **What a program returns as a filter function is found under the veil.** -/
theorem ofProgram_veiled (p : Program) :
    ofProgram p.veiled = (ofProgram p).map Expr.veiled := by
  match p with
  | [] => rfl
  | [.expression e] => exact ofExpr_veiled e
  | [.result none] | [.result (some _)] | [.block _] | [.empty] | [.declaration _ _ none]
  | [.declaration _ _ (some _)] => rfl
  | s :: s' :: ss =>
      simp [Program.veiled, Statement.veiledAll, ofProgram, Except.map,
        Statement.length_veiledAll]

end FilterFunction

/-! ## Veiled conditions -/

/-- A binding of the absent value to the same name. -/
def Binding.veiled (b : Binding) : Binding := ⟨b.name, .null⟩

namespace Sql

mutual
/-- A condition with the absent value bound to each of its placeholders. -/
def Condition.veiled : Condition → Condition
  | .placeholder b => .placeholder b.veiled
  | .comparison l c r => .comparison l.veiled c r.veiled
  | .compound parts => .compound (Condition.veiledAll parts)
  | .field f => .field f
  | .comparator c => .comparator c
  | .connective c => .connective c

/-- The parts of a list with the absent value bound to each placeholder. -/
def Condition.veiledAll : List Condition → List Condition
  | [] => []
  | part :: parts => part.veiled :: Condition.veiledAll parts
end

mutual
/-- The pieces of a condition are not veiled, as long as the values are left out. -/
theorem Condition.pieces_veiled : ∀ n : Condition,
    n.veiled.pieces Binding.name = n.pieces Binding.name
  | .field _ | .placeholder _ | .comparator _ | .connective _ => rfl
  | .comparison l c r => by
      rw [Condition.veiled, Condition.pieces, l.pieces_veiled, r.pieces_veiled, Condition.pieces]
  | .compound parts => by
      rw [Condition.veiled, Condition.pieces, Condition.piecesEach_veiled parts, Condition.pieces]

theorem Condition.piecesEach_veiled : ∀ parts : List Condition,
    Condition.piecesEach Binding.name (Condition.veiledAll parts) =
      Condition.piecesEach Binding.name parts
  | [] => rfl
  | part :: parts => by
      rw [Condition.veiledAll, Condition.piecesEach, part.pieces_veiled,
        Condition.piecesEach_veiled parts, Condition.piecesEach]
end

/-- Conditions that are alike under the veil have the same text and the same names. -/
theorem Condition.same_of_veiled_eq {m n : Condition} (alike : m.veiled = n.veiled) :
    m.text = n.text ∧ m.bindings.map Binding.name = n.bindings.map Binding.name := by
  have pieces : m.pieces Binding.name = n.pieces Binding.name := by
    rw [← m.pieces_veiled, alike, n.pieces_veiled]
  rw [← m.rendered_pieces, ← n.rendered_pieces, ← m.constantsOf_pieces, ← n.constantsOf_pieces,
    pieces]
  exact ⟨rfl, rfl⟩

end Sql

/-! ## Lowering under the veil -/

namespace Lowering

/-- A ledger in which the absent value has been bound to each name. -/
def Ledger.veiled (ledger : Ledger) : Ledger := ⟨ledger.supply, ledger.bound.map Binding.veiled⟩

theorem veiled_of_joined {op : BinaryOp} {make : Condition → Condition → Condition}
    (join : joined op = some make) (l r : Condition) :
    (make l r).veiled = make l.veiled r.veiled := by
  match op, join with
  | .compare _, rfl | .connect .and, rfl | .connect .or, rfl => rfl

/-- **Lowering goes the same way under the veil.** -/
theorem run_veiled : ∀ (e : Expr) (ledger : Ledger),
    (condition e.veiled).run ledger.veiled =
      (((condition e).run ledger).1.map Condition.veiled, ((condition e).run ledger).2.veiled)
  | .literal v, ledger => by
      have bound : (ledger.bind v).2.veiled = (ledger.veiled.bind .null).2 :=
        congrArg (Ledger.mk _) List.map_append
      rw [Expr.veiled, condition, condition, run_placeholder, run_placeholder, bound]
      rfl
  | .binary left op right, ledger => by
      cases join : joined op with
      | none =>
          rw [Expr.veiled, condition_of_not_joined join, condition_of_not_joined join]
          rfl
      | some make =>
          have first := run_veiled left ledger
          rw [Expr.veiled, condition_of_joined join, condition_of_joined join]
          rcases walked : (condition left).run ledger with ⟨_ | l, middle⟩
          · rw [walked] at first
            rw [run_bind_of_error walked, run_bind_of_error first]
            rfl
          · have second := run_veiled right middle
            rw [walked] at first
            rw [run_bind_of_ok walked, run_bind_of_ok first]
            rcases walked' : (condition right).run middle with ⟨_ | r, next⟩
            · rw [walked'] at second
              rw [run_bind_of_error walked', run_bind_of_error second]
              rfl
            · rw [walked'] at second
              rw [run_bind_of_ok walked', run_bind_of_ok second, run_pure, run_pure]
              exact congrArg (Prod.mk · _) (congrArg Except.ok (veiled_of_joined join l r).symm)
  | .member o n, ledger => rfl
  | .identifier _, _ | .index _ _, _ | .call _ _, _ | .unary _ _, _
  | .conditional _ _ _, _ | .function _ _, _ => rfl

theorem lower_veiled (e : Expr) (supply : NameSupply) :
    lower e.veiled supply = ((lower e supply).1.map Condition.veiled, (lower e supply).2.veiled) :=
  run_veiled e ⟨supply, []⟩

end Lowering

/-! ## Compiling under the veil -/

/-- A compilation that has succeeded with a veiled condition. -/
def Compilation.veiled (c : Compilation) : Compilation :=
  ⟨c.result.map Condition.veiled, c.supply, c.program.map Program.veiled,
    c.bound.map Binding.veiled⟩

theorem Compilation.finish_veiled (p : Program) (supply : NameSupply) :
    finish (FilterFunction.ofProgram p.veiled) supply (some p.veiled) =
      (finish (FilterFunction.ofProgram p) supply (some p)).veiled := by
  rw [FilterFunction.ofProgram_veiled]
  cases FilterFunction.ofProgram p with
  | error misfit => rfl
  | ok e =>
      simp only [Except.map, finish, Lowering.lower_veiled, veiled]
      cases (Lowering.lower e supply).1 <;> rfl

/-- **The compilation of a text depends on its veiled program only, but for the values.** -/
theorem compile_veiled {source : String} {p : Program}
    (read : Compilation.parseInside source = .ok p) (supply : NameSupply) :
    (compile source supply).veiled =
      .finish (FilterFunction.ofProgram p.veiled) supply (some p.veiled) := by
  rw [compile, read, Compilation.finish_veiled]

/-! ## Statements under the veil -/

namespace Sql.Statement

/-- A statement that stores absent values, with a veiled filter. -/
def veiled : Statement → Statement
  | .select q => .select ⟨q.table, q.fields, q.filter.map Condition.veiled⟩
  | .insert q => .insert ⟨q.table, q.values.map fun _ => .null⟩
  | .update q => .update ⟨q.table, q.assignments.map fun a => (a.1, .null),
      q.filter.map Condition.veiled⟩

theorem wherePieces_veiled (filter : Option Condition) :
    wherePieces Binding.name (filter.map Condition.veiled) = wherePieces Binding.name filter := by
  cases filter with
  | none => rfl
  | some n => rw [Option.map_some, wherePieces, n.pieces_veiled, wherePieces]

/-- **What is written for a statement is not veiled.** -/
theorem written_veiled (statement : Statement) (supply : NameSupply) :
    statement.veiled.written supply = statement.written supply := by
  cases statement with
  | select q =>
      simp only [veiled, written, pieces, Select.pieces, wherePieces_veiled]
      rfl
  | insert q => simp only [veiled, written, pieces, Insert.pieces, constants, List.length_map]
  | update q =>
      have columns (names : List String) :
          List.zipWith Update.assignmentPieces (q.assignments.map fun a => (a.1, Value.null))
            names = List.zipWith Update.assignmentPieces q.assignments names :=
        List.zipWith_map_left
      simp only [veiled, written, pieces, Update.pieces, constants, List.length_map, columns,
        wherePieces_veiled]

theorem isWritable_veiled (statement : Statement) :
    statement.veiled.IsWritable ↔ statement.IsWritable := by
  cases statement with
  | select q => exact Iff.rfl
  | insert q => exact Iff.rfl
  | update q => exact not_congr List.map_eq_nil_iff

theorem length_constants_veiled (statement : Statement) :
    statement.veiled.constants.length = statement.constants.length := by
  cases statement with
  | select q => rfl
  | insert q => exact List.length_map _
  | update q => simp only [veiled, constants, List.length_map]

/-- The table that a statement is about. -/
def table : Statement → String
  | .select q => q.table
  | .insert q => q.table
  | .update q => q.table

theorem table_veiled (statement : Statement) : statement.veiled.table = statement.table := by
  cases statement <;> rfl

theorem command_of_not_isWritable {statement : Statement} (supply : NameSupply)
    (unwritable : ¬ statement.IsWritable) :
    statement.command supply = (.error (.noAssignments statement.table), supply) := by
  cases statement with
  | select q => exact absurd trivial unwritable
  | insert q => exact absurd trivial unwritable
  | update q =>
      have empty : q.assignments = [] := not_not.mp unwritable
      simp [command, Update.command, empty, table]

/-- The text and the names of a command are those of what is written. -/
theorem exists_command_of_written {statement : Statement} (supply : NameSupply)
    (writable : statement.IsWritable) :
    ∃ c, statement.command supply = (.ok c, (supply.bindAll statement.constants).2) ∧
      c.text = rendered (statement.written supply) ∧
      c.bindings.map Binding.name = constantsOf (statement.written supply) := by
  obtain ⟨c, done, text, bindings⟩ := exists_command supply writable
  refine ⟨c, done, text, ?_⟩
  rw [bindings, ← constantsOf_map, map_name_bound]

end Sql.Statement

/-! ## Values have no influence -/

/-- Two outcomes are the same failure, or they are successes that agree. -/
inductive SameOutcome {ε α : Type} (agree : α → α → Prop) : Except ε α → Except ε α → Prop
  | error (e : ε) : SameOutcome agree (.error e) (.error e)
  | ok {a b : α} : agree a b → SameOutcome agree (.ok a) (.ok b)

theorem sameOutcome_of_map_eq {ε α β : Type} {agree : α → α → Prop} {f : α → β}
    (same : ∀ a b, f a = f b → agree a b) {r r' : Except ε α} (alike : r.map f = r'.map f) :
    SameOutcome agree r r' := by
  match r, r' with
  | .error e, .error e' =>
      cases alike
      exact .error e
  | .ok a, .ok b => exact .ok (same a b (Except.ok.inj alike))
  | .error e, .ok b => cases alike
  | .ok a, .error e => cases alike

/-- Filters with one veiled program are compiled alike. -/
theorem compile_sameOutcome {s t : String} {p q : Program} (supply : NameSupply)
    (read : Compilation.parseInside s = .ok p) (read' : Compilation.parseInside t = .ok q)
    (alike : p.veiled = q.veiled) :
    SameOutcome (fun m n => m.text = n.text ∧
        m.bindings.map Binding.name = n.bindings.map Binding.name ∧ m.veiled = n.veiled)
      (compile s supply).result (compile t supply).result ∧
    (compile s supply).supply = (compile t supply).supply := by
  have same : (compile s supply).veiled = (compile t supply).veiled := by
    rw [compile_veiled read, compile_veiled read', alike]
  have result : (compile s supply).result.map Condition.veiled =
      (compile t supply).result.map Condition.veiled := congrArg Compilation.result same
  have left : (compile s supply).veiled.supply = (compile t supply).veiled.supply := by
    rw [same]
  refine ⟨sameOutcome_of_map_eq (fun m n veiled => ?_) result, left⟩
  obtain ⟨text, names⟩ := Condition.same_of_veiled_eq veiled
  exact ⟨text, names, veiled⟩

/-- Statements with one veiled form have commands alike. -/
theorem command_sameOutcome {a b : Sql.Statement} (supply : NameSupply)
    (alike : a.veiled = b.veiled) :
    SameOutcome (fun c d => c.text = d.text ∧
        c.bindings.map Binding.name = d.bindings.map Binding.name)
      (a.command supply).1 (b.command supply).1 ∧
    (a.command supply).2 = (b.command supply).2 := by
  by_cases writable : a.IsWritable
  · have writable' : b.IsWritable := by
      rwa [← b.isWritable_veiled, ← alike, a.isWritable_veiled]
    have written : a.written supply = b.written supply := by
      rw [← a.written_veiled, alike, b.written_veiled]
    have count : a.constants.length = b.constants.length := by
      rw [← a.length_constants_veiled, alike, b.length_constants_veiled]
    obtain ⟨c, done, text, names⟩ := Statement.exists_command_of_written supply writable
    obtain ⟨d, done', text', names'⟩ := Statement.exists_command_of_written supply writable'
    rw [done, done', NameSupply.bindAll_snd, NameSupply.bindAll_snd, count]
    exact ⟨.ok ⟨by rw [text, text', written], by rw [names, names', written]⟩, rfl⟩
  · have writable' : ¬ b.IsWritable := by
      rwa [← b.isWritable_veiled, ← alike, a.isWritable_veiled]
    have table : a.table = b.table := by
      rw [← a.table_veiled, alike, b.table_veiled]
    rw [Statement.command_of_not_isWritable supply writable,
      Statement.command_of_not_isWritable supply writable', table]
    exact ⟨.error _, rfl⟩

/-- **Texts and names do not depend on values.**  Filters whose programs are alike but for the
values of their literals fail for the same reason, or they are compiled to conditions with the
same text and the same names, and they leave the same names.  Statements that are alike but for
the values they store and those in their filters have commands with the same text and the same
names. -/
theorem same_text_of_veiled_eq (supply : NameSupply) :
    (∀ (s t : String) (p q : Program), Compilation.parseInside s = .ok p →
      Compilation.parseInside t = .ok q → p.veiled = q.veiled →
      SameOutcome (fun m n => m.text = n.text ∧
          m.bindings.map Binding.name = n.bindings.map Binding.name ∧ m.veiled = n.veiled)
        (compile s supply).result (compile t supply).result ∧
      (compile s supply).supply = (compile t supply).supply) ∧
    ∀ a b : Sql.Statement, a.veiled = b.veiled →
      SameOutcome (fun c d => c.text = d.text ∧
          c.bindings.map Binding.name = d.bindings.map Binding.name)
        (a.command supply).1 (b.command supply).1 ∧
      (a.command supply).2 = (b.command supply).2 :=
  ⟨fun _ _ _ _ read read' alike => compile_sameOutcome supply read read' alike,
    fun _ _ alike => command_sameOutcome supply alike⟩

section Samples

open Builder

/-- A filter that compares a column with a value. -/
def comparing (v : Value) : Expr := arrow (equals (field "a") (constant v))

/-- An update that stores a value, where a column has another one. -/
def storing (v w : Value) : Sql.Statement :=
  .update ⟨"users", [(.plain "a", v)],
    some (.comparison (.field (.plain "a")) .equal (.placeholder ⟨"@p0", w⟩))⟩

/-- A text with quotes in it stands where the absent value does, and nothing shows. -/
theorem same_text_of_quotes :
    SameOutcome (fun m n => m.text = n.text ∧
        m.bindings.map Binding.name = n.bindings.map Binding.name ∧ m.veiled = n.veiled)
      (compile "x => x.a === '] OR 1 = 1'" .fresh).result
      (compile "x => x.a === null" .fresh).result ∧
    SameOutcome (fun c d => c.text = d.text ∧
        c.bindings.map Binding.name = d.bindings.map Binding.name)
      ((storing (.text "'") (.integer 1)).command .fresh).1
      ((storing .null (.boolean true)).command .fresh).1 := by
  have read : Compilation.parseInside "x => x.a === '] OR 1 = 1'" =
      .ok [.expression (comparing (.text "] OR 1 = 1"))] := eq_ok_of_toOption (by decide +kernel)
  have read' : Compilation.parseInside "x => x.a === null" =
      .ok [.expression (comparing .null)] := eq_ok_of_toOption (by decide +kernel)
  obtain ⟨compiling, writing⟩ := same_text_of_veiled_eq .fresh
  exact ⟨(compiling _ _ _ _ read read' rfl).1,
    (writing (storing (.text "'") (.integer 1)) (storing .null (.boolean true)) rfl).1⟩

end Samples

end RowFilter
