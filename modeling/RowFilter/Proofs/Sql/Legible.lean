import RowFilter.Proofs.Sql.Pieces

/-!
# Reading statements back

A reader of SQL finds exactly the tokens of a condition or a statement in its text, whatever
the names of its tables and columns (`tokens_rendered`).  The placeholders among these tokens
are those of the bindings, in the same order.

The argument goes over the pieces of a text.  Pieces are legible if their text spells their
tokens, and this holds of longer pieces because there is a blank or a mark between any two
others.
-/

set_option autoImplicit false

namespace RowFilter.Sql

/-- The text of the pieces spells their tokens. -/
def Legible (ps : List (Piece String)) : Prop := Spells (rendered ps).toList (tokensOf ps)

namespace Legible

variable {ps qs : List (Piece String)}

theorem nil : Legible [] := spells_nil

theorem word {w : String} (isWord : IsWord w) : Legible [.token (.word w)] := by
  rw [Legible, rendered_cons, rendered_nil, String.append_empty]
  exact isWord.spells

theorem slot {name : String} (isWord : IsWord name) : Legible [.slot name] := word isWord

theorem identifier (name : String) : Legible [.token (.identifier name)] := by
  rw [Legible, rendered_cons, rendered_nil, String.append_empty]
  exact spells_quoteName name

/-- Two legible texts may stand on both sides of a blank. -/
theorem blank (first : Legible ps) (second : Legible qs) : Legible (ps ++ .blank :: qs) := by
  have between : (rendered (ps ++ .blank :: qs)).toList =
      (rendered ps).toList ++ ' ' :: (rendered qs).toList := by
    simp [Piece.text]
  rw [Legible, between, tokensOf_append]
  exact Spells.blank first second

/-- Two legible texts may stand on both sides of a mark. -/
theorem mark {c : Char} (first : Legible ps) (isMark : isMark c = true) (second : Legible qs) :
    Legible (ps ++ .token (.mark c) :: qs) := by
  have between : (rendered (ps ++ .token (.mark c) :: qs)).toList =
      (rendered ps).toList ++ c :: (rendered qs).toList := by
    simp [Piece.text, Token.text]
  rw [Legible, between, tokensOf_append]
  exact Spells.mark first isMark second

theorem comma : ∀ {lists : List (List (Piece String))}, (∀ list ∈ lists, Legible list) →
    Legible (Piece.comma.intercalate lists)
  | [], _ => nil
  | [list], each => by simpa using each list List.mem_cons_self
  | list :: next :: lists, each => by
      have others := comma fun other member => each other (List.mem_cons_of_mem list member)
      rw [List.intercalate_cons_cons, List.append_assoc]
      exact (each list List.mem_cons_self).mark rfl (nil.blank others)

end Legible

/-! ## Conditions -/

theorem Field.tokensOf_pieces (f : Field) : tokensOf f.pieces = f.tokens := by
  rw [Field.pieces, tokensOf, List.filterMap_map]
  exact List.filterMap_some

theorem Field.legible (f : Field) : Legible f.pieces := by
  rw [Legible, f.rendered_pieces, f.tokensOf_pieces]
  exact f.spells

mutual
/-- The tokens among the pieces of a condition are the tokens of the condition. -/
theorem Condition.tokensOf_pieces :
    ∀ n : Condition, Sql.tokensOf (n.pieces Binding.name) = n.tokens
  | .field f => f.tokensOf_pieces
  | .placeholder _ | .comparator _ | .connective _ => rfl
  | .comparison left c right => by
      rw [Condition.pieces, tokensOf_append, left.tokensOf_pieces, Condition.tokens,
        ← right.tokensOf_pieces]
      rfl
  | .compound parts => by
      rw [Condition.pieces, Condition.tokens, Sql.tokensOf, filterMap_intercalate rfl]
      exact Condition.tokensOf_piecesEach parts

theorem Condition.tokensOf_piecesEach : ∀ parts : List Condition,
    (Condition.piecesEach Binding.name parts).flatMap Sql.tokensOf = Condition.tokensOf parts
  | [] => rfl
  | part :: parts => by
      rw [Condition.piecesEach, List.flatMap_cons, part.tokensOf_pieces,
        Condition.tokensOf_piecesEach parts, Condition.tokensOf]
end

theorem Condition.legible (n : Condition)
    (named : ∀ name ∈ constantsOf (n.pieces Binding.name), IsWord name) :
    Legible (n.pieces Binding.name) := by
  rw [Legible, n.rendered_pieces, n.tokensOf_pieces]
  refine n.spells fun b member => named b.name ?_
  rw [n.constantsOf_pieces]
  exact List.mem_map_of_mem member

/-! ## Statements -/

section Statements

variable {filter : Option Condition} {ps : List (Piece String)}

/-- A condition on rows may follow anything legible. -/
theorem Legible.where (first : Legible ps)
    (named : ∀ name ∈ constantsOf (wherePieces Binding.name filter), IsWord name) :
    Legible (ps ++ wherePieces Binding.name filter) := by
  cases filter with
  | none =>
      rw [wherePieces, List.append_nil]
      exact first
  | some n => exact first.blank ((Legible.word (by decide)).blank (n.legible named))

theorem Select.legible_fieldPieces (q : Select) : Legible q.fieldPieces := by
  rw [Select.fieldPieces]
  split
  · exact Legible.nil.mark rfl .nil
  · refine .comma fun list member => ?_
    obtain ⟨f, _, rfl⟩ := List.mem_map.mp member
    exact f.legible

/-- Assignments are legible, whatever the names of their columns. -/
theorem Update.legible_assignments {assignments : List (Field × Value)} {names : List String}
    (named : ∀ name ∈ names, IsWord name) : Legible
      (Piece.comma.intercalate (List.zipWith Update.assignmentPieces assignments names)) := by
  refine .comma fun list member => ?_
  rw [← List.map_uncurry_zip_eq_zipWith] at member
  obtain ⟨⟨assignment, name⟩, both, rfl⟩ := List.mem_map.mp member
  exact assignment.1.legible.blank
    ((Legible.word (by decide)).blank (.slot (named name (List.of_mem_zip both).2)))

theorem Select.legible (q : Select)
    (named : ∀ name ∈ constantsOf (wherePieces Binding.name q.filter), IsWord name) :
    Legible (q.pieces Binding.name) :=
  (Legible.word (by decide)).blank <| q.legible_fieldPieces.blank <|
    (Legible.word (by decide)).blank <| (Legible.identifier q.table).where named

theorem Insert.legible (q : Insert) {names : List String} (named : ∀ name ∈ names, IsWord name) :
    Legible (q.pieces names) := by
  have row : Legible (Piece.comma.intercalate (names.map fun name => [Piece.slot name])) := by
    refine .comma fun list member => ?_
    obtain ⟨name, isOne, rfl⟩ := List.mem_map.mp member
    exact .slot (named name isOne)
  exact (Legible.word (by decide)).blank <| (Legible.word (by decide)).blank <|
    (Legible.identifier q.table).blank <| (Legible.word (by decide)).blank <|
      Legible.nil.mark rfl (row.mark rfl .nil)

theorem Update.legible (q : Update) {names : List String} (named : ∀ name ∈ names, IsWord name)
    (filtered : ∀ name ∈ constantsOf (wherePieces Binding.name q.filter), IsWord name) :
    Legible (q.pieces Binding.name names) :=
  (Legible.word (by decide)).blank <| (Legible.identifier q.table).blank <|
    (Legible.word (by decide)).blank <| (Update.legible_assignments named).where filtered

/-- A statement is legible if all its placeholders are words. -/
theorem Statement.legible {names : List String} (named : ∀ name ∈ names, IsWord name) :
    ∀ (statement : Statement), (∀ name ∈ constantsOf (wherePieces Binding.name statement.filter),
      IsWord name) → Legible (statement.pieces Binding.name names)
  | .select q, filtered => q.legible filtered
  | .insert q, _ => q.legible named
  | .update q, filtered => q.legible named filtered

end Statements

/-- The names of a supply whose beginning consists of characters of words are words. -/
theorem isWord_upcoming {supply : NameSupply} (clean : supply.lead.toList.all isWordChar = true)
    (count : Nat) : ∀ name ∈ supply.upcoming count, IsWord name := by
  intro name member
  obtain ⟨n, _, rfl⟩ := List.mem_map.mp member
  exact NameSupply.isWord_numbered (List.all_eq_true.mp clean) n

/-- **Texts are read as their tokens, and the placeholders among these are the names of the
bindings, in order.**  For a condition, all that is assumed is that its placeholders are
words.  For a statement that can be written, so must the names be that the supply begins. -/
theorem tokens_rendered :
    (∀ n : Condition, (∀ name ∈ constantsOf (n.pieces Binding.name), IsWord name) →
      tokens n.text.toList = some (tokensOf (n.pieces Binding.name)) ∧
        constantsOf (n.pieces Binding.name) = n.bindings.map Binding.name) ∧
    (∀ (statement : Statement) (supply : NameSupply),
      (∀ name ∈ constantsOf (wherePieces Binding.name statement.filter), IsWord name) →
      supply.lead.toList.all isWordChar = true → statement.IsWritable →
      ∃ c rest, statement.command supply = (.ok c, rest) ∧
        tokens c.text.toList = some (tokensOf (statement.written supply)) ∧
        constantsOf (statement.written supply) = c.bindings.map Binding.name) := by
  refine ⟨fun n named => ?_, fun statement supply named clean writable => ?_⟩
  · refine ⟨?_, n.constantsOf_pieces Binding.name⟩
    rw [← n.rendered_pieces]
    exact (n.legible named).tokens_eq
  · obtain ⟨c, done, text, bindings⟩ := Statement.exists_command supply writable
    refine ⟨c, _, done, ?_, ?_⟩
    · rw [text]
      exact (statement.legible (isWord_upcoming clean _) named).tokens_eq
    · rw [bindings, ← statement.map_name_bound, constantsOf_map]

/-- A test of a column that is named like a placeholder, in a table with brackets in its
name. -/
def awkward : Condition :=
  .comparison (.field ⟨"@p0", some "a]["⟩) .equal (.placeholder ⟨"@p0", .null⟩)

/-- An update of the rows that pass it. -/
def awkwardUpdate : Statement := .update ⟨"]", [(.plain " ", .boolean true)], some awkward⟩

/-- Such names are read back, and are not taken for placeholders. -/
theorem tokens_awkward :
    tokens awkward.text.toList = some
      [.identifier "a][", .mark '.', .identifier "@p0", .word "=", .word "@p0"] ∧
    ∃ c rest, awkwardUpdate.command ⟨"@", 1⟩ = (.ok c, rest) ∧
      tokens c.text.toList = some
        [.word "UPDATE", .identifier "]", .word "SET", .identifier " ", .word "=", .word "@p1",
          .word "WHERE", .identifier "a][", .mark '.', .identifier "@p0", .word "=",
          .word "@p0"] ∧
      ["@p1", "@p0"] = c.bindings.map Binding.name :=
  ⟨(tokens_rendered.1 awkward (by decide)).1,
    tokens_rendered.2 awkwardUpdate ⟨"@", 1⟩ (by decide) (by decide) (List.cons_ne_nil _ _)⟩

end RowFilter.Sql
