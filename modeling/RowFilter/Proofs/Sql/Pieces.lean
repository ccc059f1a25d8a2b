import RowFilter.Proofs.Placeholder
import RowFilter.Proofs.Sql.Tokens
import RowFilter.Sql.Command

/-!
# The pieces of a statement

The text of a statement is a sequence of tokens and blanks.  Some of the tokens are
placeholders, and each of these has the place of a constant.  `Piece` describes such a
sequence with anything in the places of the constants: their names, their values, or both.

The pieces of conditions and statements are defined here beside their texts and bindings.
They show where the constants of a statement stand (`Statement.intended`) and where the
placeholders of its command do (`Statement.written`).  The text of the command is the text
of these pieces, and its bindings are those of the places in order (`exists_command`).
-/

set_option autoImplicit false

namespace RowFilter.Sql

/-! ## Pieces -/

/-- A piece of a text, or a place for a constant. -/
inductive Piece (α : Type) where
  | blank
  | token (t : Token)
  | slot (constant : α)

/-- The spelling of a token. -/
def Token.text : Token → String
  | .identifier name => quoteName name
  | .mark c => String.singleton c
  | .word spelling => spelling

namespace Piece

/-- The piece with another constant in its place. -/
def map {α β : Type} (f : α → β) : Piece α → Piece β
  | .blank => .blank
  | .token t => .token t
  | .slot constant => .slot (f constant)

/-- The spelling of a piece, with a name in the place of a constant. -/
def text : Piece String → String
  | .blank => " "
  | .token t => t.text
  | .slot name => name

/-- The token that a piece is, where the name of a constant is a word. -/
def token? : Piece String → Option Token
  | .blank => none
  | .token t => some t
  | .slot name => some (.word name)

/-- The constant that stands in a piece. -/
def constant? {α : Type} : Piece α → Option α
  | .slot constant => some constant
  | _ => none

/-- The blank between the parts of a compound. -/
def gap {α : Type} : List (Piece α) := [.blank]

/-- The comma and the blank between the elements of a list. -/
def comma {α : Type} : List (Piece α) := [.token (.mark ','), .blank]

end Piece

/-- The text of pieces. -/
def rendered (pieces : List (Piece String)) : String := String.join (pieces.map Piece.text)

/-- The tokens among pieces, in order. -/
def tokensOf (pieces : List (Piece String)) : List Token := pieces.filterMap Piece.token?

/-- The constants in the places of pieces, in order. -/
def constantsOf {α : Type} (pieces : List (Piece α)) : List α := pieces.filterMap Piece.constant?

/-! ## The pieces of conditions and statements -/

section Pieces

variable {α : Type} (own : Binding → α)

def Field.pieces (f : Field) : List (Piece α) := f.tokens.map .token

mutual
/-- The pieces of a condition, with something made of its binding in each place. -/
def Condition.pieces : Condition → List (Piece α)
  | .field f => f.pieces
  | .placeholder b => [.slot (own b)]
  | .comparator c => [.token c.token]
  | .connective c => [.token c.token]
  | .comparison left c right =>
      left.pieces ++ .blank :: .token c.token :: .blank :: right.pieces
  | .compound parts => Piece.gap.intercalate (Condition.piecesEach parts)

/-- The pieces of each part of a list. -/
def Condition.piecesEach : List Condition → List (List (Piece α))
  | [] => []
  | part :: parts => part.pieces :: Condition.piecesEach parts
end

/-- The pieces of a condition on rows, which may be absent. -/
def wherePieces : Option Condition → List (Piece α)
  | none => []
  | some condition => .blank :: .token (.word "WHERE") :: .blank :: condition.pieces own

/-- The columns of a query, or the star that stands for all of them. -/
def Select.fieldPieces (q : Select) : List (Piece α) :=
  if q.fields.isEmpty then [.token (.mark '*')]
  else Piece.comma.intercalate (q.fields.map Field.pieces)

def Select.pieces (q : Select) : List (Piece α) :=
  .token (.word "SELECT") :: .blank :: (q.fieldPieces ++
    .blank :: .token (.word "FROM") :: .blank :: .token (.identifier q.table) ::
      wherePieces own q.filter)

/-- The pieces of an insertion, with the given constants for its values. -/
def Insert.pieces (q : Insert) (constants : List α) : List (Piece α) :=
  .token (.word "INSERT") :: .blank :: .token (.word "INTO") :: .blank ::
    .token (.identifier q.table) :: .blank :: .token (.word "VALUES") :: .blank ::
      .token (.mark '(') :: (Piece.comma.intercalate (constants.map fun constant =>
        [.slot constant]) ++ [.token (.mark ')')])

/-- A column and the constant that it is set to. -/
def Update.assignmentPieces (assignment : Field × Value) (constant : α) : List (Piece α) :=
  assignment.1.pieces ++ [.blank, .token (.word "="), .blank, .slot constant]

/-- The pieces of an update, with the given constants for its new values. -/
def Update.pieces (q : Update) (constants : List α) : List (Piece α) :=
  .token (.word "UPDATE") :: .blank :: .token (.identifier q.table) :: .blank ::
    .token (.word "SET") :: .blank ::
      (Piece.comma.intercalate (List.zipWith Update.assignmentPieces q.assignments constants) ++
        wherePieces own q.filter)

namespace Statement

/-- The pieces of a statement, with the given constants for those that it stores. -/
def pieces (constants : List α) : Statement → List (Piece α)
  | .select q => q.pieces own
  | .insert q => q.pieces constants
  | .update q => q.pieces own constants

/-- The constants that a statement stores, in order. -/
def constants : Statement → List Value
  | .select _ => []
  | .insert q => q.values
  | .update q => q.assignments.map Prod.snd

/-- The condition on the rows of a statement. -/
def filter : Statement → Option Condition
  | .select q => q.filter
  | .insert _ => none
  | .update q => q.filter

/-- What a statement says: its values stand in the order in which they have been given, and
the placeholders of its filter stand for the values that they are bound to. -/
def intended (statement : Statement) : List (Piece Value) :=
  statement.pieces Binding.value statement.constants

/-- What is written for a statement: the names that come next in the supply, and those of
its filter. -/
def written (statement : Statement) (supply : NameSupply) : List (Piece String) :=
  statement.pieces Binding.name (supply.upcoming statement.constants.length)

/-- Only an update that assigns nothing cannot be written. -/
def IsWritable : Statement → Prop
  | .update q => q.assignments ≠ []
  | _ => True

end Statement

end Pieces

/-! ## Pieces one after another -/

@[simp] theorem rendered_nil : rendered [] = "" := rfl

@[simp] theorem rendered_cons (p : Piece String) (ps : List (Piece String)) :
    rendered (p :: ps) = p.text ++ rendered ps := by
  rw [rendered, List.map_cons, String.join_cons, rendered]

@[simp] theorem rendered_append (ps qs : List (Piece String)) :
    rendered (ps ++ qs) = rendered ps ++ rendered qs := by
  rw [rendered, List.map_append, String.join_append, rendered, rendered]

@[simp] theorem tokensOf_append (ps qs : List (Piece String)) :
    tokensOf (ps ++ qs) = tokensOf ps ++ tokensOf qs := List.filterMap_append

@[simp] theorem constantsOf_append {α : Type} (ps qs : List (Piece α)) :
    constantsOf (ps ++ qs) = constantsOf ps ++ constantsOf qs := List.filterMap_append

/-- The text of lists of pieces with a separator between them. -/
theorem rendered_intercalate (separator : List (Piece String)) :
    ∀ lists : List (List (Piece String)), rendered (separator.intercalate lists) =
      (rendered separator).intercalate (lists.map rendered)
  | [] => rfl
  | [list] => by simp
  | list :: next :: lists => by
      have later := rendered_intercalate separator (next :: lists)
      rw [List.map_cons] at later
      simp [List.intercalate_cons_cons, String.intercalate_cons_cons, later, String.append_assoc]

/-- A separator that gives nothing leaves what the lists give. -/
theorem filterMap_intercalate {α β : Type} {f : α → Option β} {separator : List α}
    (silent : separator.filterMap f = []) :
    ∀ lists : List (List α),
      (separator.intercalate lists).filterMap f = lists.flatMap (List.filterMap f)
  | [] => rfl
  | [list] => by simp
  | list :: next :: lists => by
      have later := filterMap_intercalate silent (next :: lists)
      simp [List.intercalate_cons_cons, List.filterMap_append, silent, later]

/-- A separator is mapped like the lists that it stands between. -/
theorem map_intercalate {α β : Type} (f : α → β) (separator : List α) :
    ∀ lists : List (List α),
      (separator.intercalate lists).map f = (separator.map f).intercalate (lists.map (List.map f))
  | [] => rfl
  | [list] => by simp
  | list :: next :: lists => by
      have later := map_intercalate f separator (next :: lists)
      rw [List.map_cons] at later
      simp [List.intercalate_cons_cons, later]

/-! ## The text of pieces -/

/-- A comparator is written as its word. -/
@[simp] theorem Comparator.text_token (c : Comparator) : c.token.text = c.text := by
  cases c <;> rfl

/-- A connective is written as its word. -/
@[simp] theorem Connective.text_token (c : Connective) : c.token.text = c.text := by
  cases c <;> rfl

/-- The text of a column is that of its pieces. -/
theorem Field.rendered_pieces (f : Field) : rendered f.pieces = f.text := by
  rcases f with ⟨name, _ | table⟩ <;>
    simp [Field.pieces, Field.tokens, Field.text, Piece.text, Token.text, String.append_assoc]

mutual
/-- The text of a condition is that of its pieces, with the names of its bindings in their
places. -/
theorem Condition.rendered_pieces :
    ∀ n : Condition, rendered (n.pieces Binding.name) = n.text
  | .field f => f.rendered_pieces
  | .placeholder _ => by simp [Condition.pieces, Condition.text, Piece.text]
  | .comparator _ | .connective _ => by
      simp [Condition.pieces, Condition.text, Piece.text]
  | .comparison left _ right => by
      simp [Condition.pieces, Condition.text, Piece.text, left.rendered_pieces,
        right.rendered_pieces, String.append_assoc]
  | .compound parts => by
      rw [Condition.pieces, Condition.text, rendered_intercalate,
        Condition.rendered_piecesEach parts]
      rfl

theorem Condition.rendered_piecesEach : ∀ parts : List Condition,
    (Condition.piecesEach Binding.name parts).map rendered = Condition.texts parts
  | [] => rfl
  | part :: parts => by
      rw [Condition.piecesEach, List.map_cons, part.rendered_pieces,
        Condition.rendered_piecesEach parts, Condition.texts]
end

/-- A condition on rows is written with the word before it, or not at all. -/
theorem rendered_wherePieces (filter : Option Condition) :
    rendered (wherePieces Binding.name filter) = whereText filter := by
  cases filter with
  | none => rfl
  | some n =>
      simp only [wherePieces, rendered_cons, n.rendered_pieces, whereText, Piece.text, Token.text]
      rfl

theorem rendered_comma (lists : List (List (Piece String))) :
    rendered (Piece.comma.intercalate lists) = ", ".intercalate (lists.map rendered) :=
  rendered_intercalate Piece.comma lists

/-- The columns of a query are written with commas between them, or as a star. -/
theorem Select.rendered_fieldPieces (q : Select) :
    rendered q.fieldPieces = q.fieldsText := by
  rw [Select.fieldPieces, Select.fieldsText]
  split
  · rfl
  · rw [rendered_comma, List.map_map]
    exact congrArg _ (List.map_congr_left fun f _ => f.rendered_pieces)

/-- The text of a query is that of its pieces. -/
theorem Select.rendered_pieces (q : Select) :
    rendered (q.pieces Binding.name) = q.command.text := by
  simp only [Select.pieces, rendered_cons, rendered_append, q.rendered_fieldPieces,
    rendered_wherePieces, Piece.text, Token.text, Select.command, String.append_assoc]
  rfl

/-- The text of an insertion with the given names for its values. -/
theorem Insert.rendered_pieces (q : Insert) (names : List String) :
    rendered (q.pieces names) =
      "INSERT INTO " ++ quoteName q.table ++ " VALUES (" ++ ", ".intercalate names ++ ")" := by
  have slots : (names.map fun name => [Piece.slot name]).map rendered = names := by
    simp [Function.comp_def, Piece.text]
  simp only [Insert.pieces, rendered_cons, rendered_append, rendered_comma, slots, rendered_nil,
    Piece.text, Token.text, String.append_assoc]
  rfl

theorem Update.rendered_assignmentPieces (assignment : Field × Value) (b : Binding) :
    rendered (Update.assignmentPieces assignment b.name) = Update.assignmentText assignment b := by
  simp only [Update.assignmentPieces, rendered_append, rendered_cons, rendered_nil,
    assignment.1.rendered_pieces, Piece.text, Token.text, Update.assignmentText,
    String.append_assoc, String.append_empty]
  rfl

/-- The text of an update whose new values have the names of the given bindings. -/
theorem Update.rendered_pieces (q : Update) (bindings : List Binding) :
    rendered (q.pieces Binding.name (bindings.map Binding.name)) =
      "UPDATE " ++ quoteName q.table ++ " SET " ++
        ", ".intercalate (List.zipWith Update.assignmentText q.assignments bindings) ++
        whereText q.filter := by
  have assignments : (List.zipWith Update.assignmentPieces q.assignments
      (bindings.map Binding.name)).map rendered =
        List.zipWith Update.assignmentText q.assignments bindings := by
    simp only [List.zipWith_map_right, List.map_zipWith, Update.rendered_assignmentPieces]
  simp only [Update.pieces, rendered_cons, rendered_append, rendered_comma, assignments,
    rendered_wherePieces, Piece.text, Token.text, String.append_assoc]
  rfl

/-! ## The constants of pieces -/

section Constants

variable {α β : Type}

@[simp] theorem constantsOf_cons_blank (ps : List (Piece α)) :
    constantsOf (.blank :: ps) = constantsOf ps := rfl

@[simp] theorem constantsOf_cons_token (t : Token) (ps : List (Piece α)) :
    constantsOf (.token t :: ps) = constantsOf ps := rfl

/-- Tokens are no places for constants. -/
@[simp] theorem constantsOf_tokens (ts : List Token) :
    constantsOf (ts.map (Piece.token (α := α))) = [] := by
  simp [constantsOf, List.filterMap_map, Function.comp_def, Piece.constant?]

/-- Commas leave the constants of a list as they are. -/
theorem constantsOf_comma (lists : List (List (Piece α))) :
    constantsOf (Piece.comma.intercalate lists) = lists.flatMap constantsOf :=
  filterMap_intercalate rfl lists

mutual
/-- The places of a condition hold its bindings in order. -/
theorem Condition.constantsOf_pieces (own : Binding → α) :
    ∀ n : Condition, constantsOf (n.pieces own) = n.bindings.map own
  | .field f => constantsOf_tokens f.tokens
  | .placeholder _ | .comparator _ | .connective _ => rfl
  | .comparison left _ right => by
      simp [Condition.pieces, Condition.bindings, left.constantsOf_pieces own,
        right.constantsOf_pieces own]
  | .compound parts => by
      rw [Condition.pieces, Condition.bindings, constantsOf, filterMap_intercalate rfl]
      exact Condition.constantsOf_piecesEach own parts

theorem Condition.constantsOf_piecesEach (own : Binding → α) :
    ∀ parts : List Condition, (Condition.piecesEach own parts).flatMap constantsOf =
      (Condition.bindingsOf parts).map own
  | [] => rfl
  | part :: parts => by
      rw [Condition.piecesEach, List.flatMap_cons, part.constantsOf_pieces own,
        Condition.constantsOf_piecesEach own parts, Condition.bindingsOf, List.map_append]
end

/-- The places of a condition on rows hold its bindings in order. -/
theorem constantsOf_wherePieces (own : Binding → α) (filter : Option Condition) :
    constantsOf (wherePieces own filter) = (whereBindings filter).map own := by
  cases filter with
  | none => rfl
  | some n => exact n.constantsOf_pieces own

/-- A query has no constants but those of its condition. -/
theorem Select.constantsOf_pieces (own : Binding → α) (q : Select) :
    constantsOf (q.pieces own) = (whereBindings q.filter).map own := by
  have columns : constantsOf (q.fieldPieces (α := α)) = [] := by
    rw [Select.fieldPieces]
    split
    · rfl
    · simp [constantsOf_comma, List.flatMap_map, Field.pieces]
  simp [Select.pieces, columns, constantsOf_wherePieces]

/-- An insertion has just the constants that it is given. -/
theorem Insert.constantsOf_pieces (q : Insert) (constants : List α) :
    constantsOf (q.pieces constants) = constants := by
  have values : (constants.map fun constant => [Piece.slot constant]).flatMap constantsOf =
      constants := by
    rw [List.flatMap_map]
    exact List.flatMap_singleton' constants
  simp only [Insert.pieces, constantsOf_cons_token, constantsOf_cons_blank, constantsOf_append,
    constantsOf_comma, values]
  exact List.append_nil constants

/-- There is one place for each column that is set. -/
theorem Update.constantsOf_assignmentPieces :
    ∀ (assignments : List (Field × Value)) (constants : List α),
      assignments.length = constants.length →
        (List.zipWith Update.assignmentPieces assignments constants).flatMap constantsOf =
          constants
  | [], [], _ => rfl
  | assignment :: assignments, constant :: constants, same => by
      have others := Update.constantsOf_assignmentPieces assignments constants
        (Nat.succ.inj same)
      rw [List.zipWith_cons_cons, List.flatMap_cons, others, Update.assignmentPieces,
        constantsOf_append, Field.pieces, constantsOf_tokens]
      rfl

/-- An update has the constants that it is given, and then those of its condition. -/
theorem Update.constantsOf_pieces (own : Binding → α) (q : Update) {constants : List α}
    (same : q.assignments.length = constants.length) :
    constantsOf (q.pieces own constants) = constants ++ (whereBindings q.filter).map own := by
  simp only [Update.pieces, constantsOf_cons_token, constantsOf_cons_blank, constantsOf_append,
    constantsOf_comma, Update.constantsOf_assignmentPieces _ _ same, constantsOf_wherePieces]

end Constants

/-! ## Other constants in the same places -/

section Map

variable {α β : Type} (f : α → β)

/-- Constants that are replaced are replaced in their places. -/
theorem constantsOf_map (ps : List (Piece α)) :
    constantsOf (ps.map (Piece.map f)) = (constantsOf ps).map f := by
  rw [constantsOf, constantsOf, List.filterMap_map, List.map_filterMap]
  congr 1
  funext p
  cases p <;> rfl

theorem map_tokens (ts : List Token) :
    (ts.map (Piece.token (α := α))).map (Piece.map f) = ts.map .token := by
  rw [List.map_map]
  rfl

mutual
/-- What stands in the places of a condition may be replaced afterwards. -/
theorem Condition.map_pieces (own : Binding → α) :
    ∀ n : Condition, (n.pieces own).map (Piece.map f) = n.pieces (f ∘ own)
  | .field f' => map_tokens f f'.tokens
  | .placeholder _ | .comparator _ | .connective _ => rfl
  | .comparison left _ right => by
      simp [Condition.pieces, Piece.map, left.map_pieces own, right.map_pieces own]
  | .compound parts => by
      rw [Condition.pieces, Condition.pieces, map_intercalate, Condition.map_piecesEach own parts]
      rfl

theorem Condition.map_piecesEach (own : Binding → α) :
    ∀ parts : List Condition, (Condition.piecesEach own parts).map (List.map (Piece.map f)) =
      Condition.piecesEach (f ∘ own) parts
  | [] => rfl
  | part :: parts => by
      rw [Condition.piecesEach, List.map_cons, part.map_pieces own,
        Condition.map_piecesEach own parts, Condition.piecesEach]
end

theorem map_wherePieces (own : Binding → α) (filter : Option Condition) :
    (wherePieces own filter).map (Piece.map f) = wherePieces (f ∘ own) filter := by
  cases filter with
  | none => rfl
  | some n => simp [wherePieces, Piece.map, n.map_pieces f own]

theorem map_comma (lists : List (List (Piece α))) :
    (Piece.comma.intercalate lists).map (Piece.map f) =
      Piece.comma.intercalate (lists.map (List.map (Piece.map f))) :=
  map_intercalate _ _ lists

theorem Select.map_fieldPieces (q : Select) :
    q.fieldPieces.map (Piece.map f) = q.fieldPieces := by
  rw [Select.fieldPieces, Select.fieldPieces]
  split
  · rfl
  · rw [map_comma, List.map_map]
    exact congrArg _ (List.map_congr_left fun g _ => map_tokens f g.tokens)

theorem Update.map_assignmentPieces (assignment : Field × Value) (constant : α) :
    (Update.assignmentPieces assignment constant).map (Piece.map f) =
      Update.assignmentPieces assignment (f constant) := by
  rw [Update.assignmentPieces, List.map_append, Field.pieces, map_tokens]
  rfl

/-- The constants of a statement are put in their places whatever they are. -/
theorem Statement.map_pieces (own : Binding → α) (constants : List α) :
    ∀ statement : Statement, (statement.pieces own constants).map (Piece.map f) =
      statement.pieces (f ∘ own) (constants.map f)
  | .select q => by
      simp [Statement.pieces, Select.pieces, Piece.map, q.map_fieldPieces f, map_wherePieces]
  | .insert q => by
      simp [Statement.pieces, Insert.pieces, Piece.map, map_comma, Function.comp_def]
  | .update q => by
      simp [Statement.pieces, Update.pieces, Piece.map, map_comma, map_wherePieces,
        List.map_zipWith, List.zipWith_map_right, Update.map_assignmentPieces]

end Map

/-! ## Commands -/

namespace Statement

variable (statement : Statement) (supply : NameSupply)

/-- The pieces of a statement with the bindings that its command has in their places. -/
def bound : List (Piece Binding) :=
  statement.pieces id (supply.bindAll statement.constants).1

/-- The names that come next in the supply are those that values are bound to. -/
theorem written_eq : statement.written supply =
    statement.pieces Binding.name ((supply.bindAll statement.constants).1.map Binding.name) := by
  rw [written, NameSupply.map_name_bindAll]

/-- By their names the bindings of a statement are what is written. -/
theorem map_name_bound :
    (statement.bound supply).map (Piece.map Binding.name) = statement.written supply := by
  rw [bound, map_pieces, written_eq, Function.comp_id]

/-- By their values the bindings of a statement are what is meant. -/
theorem map_value_bound :
    (statement.bound supply).map (Piece.map Binding.value) = statement.intended := by
  rw [bound, map_pieces, NameSupply.map_value_bindAll, intended, Function.comp_id]

/-- The bindings in the places of a statement: the new ones, and those of its filter. -/
theorem constantsOf_bound : constantsOf (statement.bound supply) =
    (supply.bindAll statement.constants).1 ++ whereBindings statement.filter := by
  have count := congrArg List.length (NameSupply.map_value_bindAll statement.constants supply)
  rw [List.length_map] at count
  cases statement with
  | select q => simp [bound, pieces, q.constantsOf_pieces, constants, filter, NameSupply.bindAll]
  | insert q => simp [bound, pieces, q.constantsOf_pieces, filter, whereBindings]
  | update q =>
      have count : q.assignments.length = (supply.bindAll (update q).constants).1.length := by
        rw [count, constants, List.length_map]
      rw [bound, pieces, q.constantsOf_pieces id count, List.map_id, filter]

/-- **A statement is written as its pieces, with the next names of the supply in the places
of its constants.  The bindings of the command are those in the places of the pieces.** -/
theorem exists_command {statement : Statement} (writable : statement.IsWritable) :
    ∃ c, statement.command supply = (.ok c, (supply.bindAll statement.constants).2) ∧
      c.text = rendered (statement.written supply) ∧
      c.bindings = constantsOf (statement.bound supply) := by
  rw [constantsOf_bound, written_eq]
  cases statement with
  | select q => exact ⟨q.command, rfl, q.rendered_pieces.symm, rfl⟩
  | insert q => exact ⟨_, rfl, (q.rendered_pieces _).symm, (List.append_nil _).symm⟩
  | update q =>
      have some' : q.assignments.isEmpty = false := by
        rw [List.isEmpty_eq_false_iff]
        exact writable
      refine ⟨⟨_, _⟩, ?_, (q.rendered_pieces _).symm, rfl⟩
      simp [command, Update.command, some', constants, filter]

end Statement

end RowFilter.Sql
