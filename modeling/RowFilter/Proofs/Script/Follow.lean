import RowFilter.Proofs.Script.Name

/-!
# What follows an expression

Whether an expression has been read to its end depends on what follows it.  The texts
that follow in a written script are sorted here by what they rule out.  After `Breaks` no
name goes on and no arrow turns what has been read into parameters.  After `Stops` the
operand goes on with no access either, and after `Ends` with no operator and no branches.

In a written script an operand is followed by an access, by a binary operator between
blanks, by a question mark or a colon after a blank, or by a closing character.
-/

set_option autoImplicit false

namespace RowFilter.Script

open Reader Lexeme Grammar

/-- What follows goes on with no name and with no arrow, be it at once or after a list of
parameters. -/
structure Breaks (rest : List Char) : Prop where
  boundary : Boundary rest
  name : ∀ c ∈ (skipGaps rest).head?, isNameStart c = false
  arrow : word "=>" (skipGaps rest) = none
  parameters : ∀ t after, skipGaps rest = '(' :: t → closing 0 t = some after →
    word "=>" (skipGaps after) = none

/-- What follows goes on with no number and no access either. -/
structure Stops (rest : List Char) : Prop extends Breaks rest where
  point : rest.head? ≠ some '.'
  access : access expr rest = none

/-- What follows goes on with no operator and no branches either. -/
structure Ends (rest : List Char) : Prop extends Stops rest, Silent rest

theorem Stops.numberBoundary {rest : List Char} (stops : Stops rest) :
    ∀ c ∈ rest.head?, isNameChar c = false ∧ c ≠ '.' := fun c head =>
  ⟨stops.boundary c head, fun same => stops.point (same ▸ head)⟩

/-! ## By the first character -/

/-- A character that begins no name, no access and no list of parameters. -/
def isStop (c : Char) : Bool :=
  !isNameStart c && c != '(' && c != '.' && c != '['

/-- No access begins with a character that stops an operand. -/
theorem access_of_isStop {rest t : List Char} {c : Char} (next : skipGaps rest = c :: t)
    (stop : isStop c = true) : access expr rest = none := by
  simp only [isStop, Bool.and_eq_true, bne_iff_ne] at stop
  obtain ⟨⟨⟨_, opening⟩, point⟩, bracket⟩ := stop
  have member : (do char '.'; let read ← afterGaps name; return (.member · read) :
      Reader (Expr → Expr)) (c :: t) = none := bind_of_none (by simp [point])
  have index : (do char '['; let key ← afterGaps expr; sign ']'; return (.index · key) :
      Reader (Expr → Expr)) (c :: t) = none := bind_of_none (by simp [bracket])
  have call : (do let arguments ← listed expr; return (.call · arguments) :
      Reader (Expr → Expr)) (c :: t) = none :=
    bind_of_none (bind_of_none (by simp [opening]))
  rw [access, afterGaps_apply, next, orElse_of_none member, orElse_of_none index, call]

theorem stops_of_skipGaps {rest t : List Char} {c : Char} (next : skipGaps rest = c :: t)
    (stop : isStop c = true) (arrow : word "=>" (c :: t) = none) (boundary : Boundary rest)
    (point : rest.head? ≠ some '.') : Stops rest := by
  have access := access_of_isStop next stop
  simp only [isStop, Bool.and_eq_true, Bool.not_eq_true', bne_iff_ne] at stop
  refine ⟨⟨boundary, ?_, by rwa [next], ?_⟩, point, access⟩
  · rw [next]
    rintro d ⟨⟩
    exact stop.1.1.1
  · intro t' after opened
    rw [next] at opened
    exact absurd (List.cons.inj opened).1 stop.1.1.2

/-! ## Closing characters and branches -/

/-- A character after which nothing that begins inside goes on. -/
def isCloser (c : Char) : Bool :=
  c == ')' || c == ']' || c == '\x7d' || c == ',' || c == ';' || c == ':'

/-- No operator begins with a character that closes an expression. -/
theorem operators_of_isCloser {c : Char} (closer : isCloser c = true) (t : List Char) :
    levels.all (fun operator => (operator (c :: t)).isNone) = true := by
  simp only [isCloser, Bool.or_eq_true, beq_iff_eq] at closer
  rcases closer with ((((rfl | rfl) | rfl) | rfl) | rfl) | rfl <;> rfl

theorem isStop_of_isCloser {c : Char} (closer : isCloser c = true) : isStop c = true := by
  simp only [isCloser, Bool.or_eq_true, beq_iff_eq] at closer
  rcases closer with ((((rfl | rfl) | rfl) | rfl) | rfl) | rfl <;> rfl

/-- Before a closing character nothing goes on with an operand. -/
theorem silent_of_skipGaps {rest t : List Char} {c : Char} (next : skipGaps rest = c :: t)
    (closer : isCloser c = true) : Silent rest := by
  have operators := operators_of_isCloser closer t
  refine ⟨access_of_isStop next (isStop_of_isCloser closer), ?_, ?_⟩
  · intro operator level
    rw [afterGaps_apply, next]
    exact Option.isNone_iff_eq_none.mp (List.all_eq_true.mp operators operator level)
  · refine bind_of_none ((bind_of_some (gaps_apply rest)).trans ?_)
    rw [next, char_cons, if_neg]
    rintro rfl
    cases closer

/-- A text ends an expression if the first character after its gaps closes one, and no name or
number goes on. -/
theorem ends_of_skipGaps {rest t : List Char} {c : Char} (next : skipGaps rest = c :: t)
    (closer : isCloser c = true) (boundary : Boundary rest) (point : rest.head? ≠ some '.') :
    Ends rest := by
  have arrow : word "=>" (c :: t) = none := by
    simp only [isCloser, Bool.or_eq_true, beq_iff_eq] at closer
    rcases closer with ((((rfl | rfl) | rfl) | rfl) | rfl) | rfl <;> rfl
  have stops := stops_of_skipGaps next (isStop_of_isCloser closer) arrow boundary point
  have silent := silent_of_skipGaps next closer
  exact ⟨stops, silent.operators, silent.branches⟩

/-! ## Gaps before what follows -/

theorem skipGaps_blank (s : List Char) : skipGaps (' ' :: s) = skipGaps s :=
  skipGaps_of_some (orElse_of_some rfl)

theorem skipGaps_cons {c : Char} (s : List Char) (space : isSpace c = false) (slash : c ≠ '/') :
    skipGaps (c :: s) = c :: s :=
  skipGaps_of_none (gap_cons_eq_none s space slash)

theorem boundary_blank (s : List Char) : Boundary (' ' :: s) := boundary_cons s rfl

theorem ends_cons {c : Char} (t : List Char) (closer : isCloser c = true) : Ends (c :: t) := by
  refine ends_of_skipGaps (t := t) ?_ closer ?_ ?_
  · apply skipGaps_cons <;>
      simp only [isCloser, Bool.or_eq_true, beq_iff_eq] at closer <;>
      rcases closer with ((((rfl | rfl) | rfl) | rfl) | rfl) | rfl <;> decide
  · apply boundary_cons
    simp only [isCloser, Bool.or_eq_true, beq_iff_eq] at closer
    rcases closer with ((((rfl | rfl) | rfl) | rfl) | rfl) | rfl <;> rfl
  · simp only [List.head?_cons, ne_eq, Option.some.injEq]
    rintro rfl
    cases closer

theorem ends_colon (t : List Char) : Ends (' ' :: ':' :: t) :=
  ends_of_skipGaps ((skipGaps_blank _).trans (skipGaps_cons t rfl (by decide))) rfl
    (boundary_blank _) (by simp)

theorem stops_question (t : List Char) : Stops (' ' :: '?' :: ' ' :: t) :=
  stops_of_skipGaps ((skipGaps_blank _).trans (skipGaps_cons _ rfl (by decide))) rfl rfl
    (boundary_blank _) (by simp)

/-- A question mark by itself is no operator. -/
theorem operators_question (t : List Char) :
    ∀ operator ∈ levels, afterGaps operator (' ' :: '?' :: ' ' :: t) = none := by
  intro operator level
  have refused : levels.all (fun operator => (operator ('?' :: ' ' :: t)).isNone) = true := rfl
  rw [afterGaps_apply, skipGaps_blank, skipGaps_cons _ rfl (by decide)]
  exact Option.isNone_iff_eq_none.mp (List.all_eq_true.mp refused operator level)

/-! ## Operators between blanks -/

/-- The place of an operator among the levels. -/
def BinaryOp.level : BinaryOp → Nat
  | .connect .or | .connect .coalesce => 0
  | .connect .and => 1
  | .compute .bitOr => 2
  | .compute .bitXor => 3
  | .compute .bitAnd => 4
  | .compare .equal | .compare .strictlyEqual | .compare .unequal
  | .compare .strictlyUnequal => 5
  | .compare .less | .compare .lessOrEqual | .compare .greater
  | .compare .greaterOrEqual => 6
  | .compute .shiftLeft | .compute .shiftRight => 7
  | .compute .add | .compute .subtract => 8
  | .compute .multiply | .compute .divide | .compute .remainder => 9

/-- A token that a blank follows is read at its level. -/
theorem level_reads (op : BinaryOp) (t : List Char) :
    (levels[op.level]?).map (fun operator => operator (op.token.toList ++ ' ' :: t)) =
      some (some (op, ' ' :: t)) := by
  rcases op with c | a | c
  · cases c <;> rfl
  · cases a <;> rfl
  · cases c <;> rfl

/-- A token that a blank follows is read at no tighter level. -/
theorem tighter_refuse (op : BinaryOp) (t : List Char) :
    (levels.drop (op.level + 1)).all
      (fun operator => (operator (op.token.toList ++ ' ' :: t)).isNone) = true := by
  rcases op with c | a | c
  · cases c <;> rfl
  · cases a <;> rfl
  · cases c <;> rfl

theorem gap_token (op : BinaryOp) (t : List Char) : gap (op.token.toList ++ ' ' :: t) = none := by
  rcases op with c | a | c
  · cases c <;> rfl
  · cases a <;> rfl
  · cases c <;> rfl

theorem arrow_token (op : BinaryOp) (t : List Char) :
    word "=>" (op.token.toList ++ ' ' :: t) = none := by
  rcases op with c | a | c
  · cases c <;> rfl
  · cases a <;> rfl
  · cases c <;> rfl

theorem token_head (op : BinaryOp) : op.token.toList.head?.any isStop = true := by
  rcases op with c | a | c
  · cases c <;> rfl
  · cases a <;> rfl
  · cases c <;> rfl

/-- An operator with blanks around it stops an operand. -/
theorem stops_token (op : BinaryOp) (t : List Char) :
    Stops (' ' :: (op.token.toList ++ ' ' :: t)) := by
  have gap := gap_token op t
  have arrow := arrow_token op t
  obtain ⟨c, head, stop⟩ := (Option.any_eq_true _ _).mp (token_head op)
  obtain ⟨u, token⟩ := List.head?_eq_some_iff.mp head
  rw [token] at gap arrow ⊢
  exact stops_of_skipGaps ((skipGaps_blank _).trans (skipGaps_of_none gap)) stop arrow
    (boundary_blank _) (by simp)

/-! ## Accesses -/

theorem breaks_cons {c : Char} {t : List Char} (next : skipGaps (c :: t) = c :: t)
    (continues : isNameChar c = false) (arrow : word "=>" (c :: t) = none)
    (parameters : c = '(' → ∀ after, closing 0 t = some after →
      word "=>" (skipGaps after) = none) : Breaks (c :: t) := by
  refine ⟨boundary_cons t continues, ?_, by rwa [next], ?_⟩
  · rw [next]
    rintro d ⟨⟩
    exact eq_false_of_ne_true fun start => by
      rw [isNameChar_of_isNameStart start] at continues
      cases continues
  · intro t' after opened closes
    rw [next] at opened
    cases opened
    exact parameters rfl after closes

theorem breaks_point (t : List Char) : Breaks ('.' :: t) :=
  breaks_cons (skipGaps_cons t rfl (by decide)) rfl rfl fun same => by cases same

theorem breaks_bracket (t : List Char) : Breaks ('[' :: t) :=
  breaks_cons (skipGaps_cons t rfl (by decide)) rfl rfl fun same => by cases same

/-- A list in parentheses breaks a name off unless an arrow follows the list. -/
theorem breaks_parenthesis {t after : List Char} (closes : closing 0 t = some after)
    (arrow : word "=>" (skipGaps after) = none) : Breaks ('(' :: t) :=
  breaks_cons (skipGaps_cons t rfl (by decide)) rfl rfl fun _ after' closes' => by
    rw [closes] at closes'
    cases closes'
    exact arrow

end RowFilter.Script
