import RowFilter.Proofs.Text.Parallel
import RowFilter.Script.Grammar

/-!
# The grammar in parallel

Every rule of the grammar is put together from a few kinds of smallest readers: plain
characters and words, the two parentheses, gaps, quoted texts, looks at the next
character, and the division sign, which is kept apart because a slash may also begin a
comment.  A frame is a relation on texts along which these run in parallel with
themselves, and along a frame the whole grammar does.

A frame is counted by the depth of open parentheses.  It has two relations: `T` relates
texts where a rule begins, and `U` texts after the rule has taken a character of its
own.  The readers for the parts of a rule need only run in parallel along `U`.
-/

set_option autoImplicit false

namespace RowFilter.Script

open Reader Lexeme Grammar

/-- A character that has no part in spacing, comments, quotes or parentheses. -/
def isPlain (c : Char) : Bool :=
  !isSpace c && c != '/' && c != '"' && c != '\x27' && c != '(' && c != ')'

/-- A class of plain characters. -/
def Plain (accepts : Char → Bool) : Prop := ∀ c, accepts c = true → isPlain c = true

/-- A word of plain characters. -/
def PlainWord (w : String) : Prop := w ≠ "" ∧ w.toList.all isPlain = true

instance (w : String) : Decidable (PlainWord w) := inferInstanceAs (Decidable (_ ∧ _))

/-- Relations along which the smallest readers run in parallel with themselves. -/
structure Frame (T U : Nat → List Char → List Char → Prop) : Prop where
  inner : ∀ {d} ⦃s t⦄, U d s t → T d s t
  satisfying : ∀ {d accepts}, Plain accepts →
    Parallel true (T d) (U d) (satisfying accepts) (satisfying accepts)
  word : ∀ {d w}, PlainWord w → Parallel true (T d) (U d) (word w) (word w)
  opening : ∀ {d}, Parallel true (T d) (U (d + 1)) (char '(') (char '(')
  closing : ∀ {d}, Parallel true (U (d + 1)) (U d) (char ')') (char ')')
  notNext : ∀ {d refused}, refused ')' = false →
    Parallel false (U d) (U d) (notNext refused) (notNext refused)
  run : ∀ {d accepts}, Plain accepts →
    Parallel false (U d) (U d) (run accepts) (run accepts)
  gaps : ∀ {d}, Parallel false (U d) (U d) gaps gaps
  quoted : ∀ {d}, Parallel true (T d) (U d) quoted quoted
  division : ∀ {d}, Parallel true (U d) (U d) (afterGaps (Reader.word "/"))
    (afterGaps (Reader.word "/"))

/-! ## Plain classes -/

/-- One plain character makes a plain class. -/
theorem plain_beq {c : Char} (plain : isPlain c = true) : Plain (· == c) := by
  intro d same
  rw [eq_of_beq same]
  exact plain

/-- Names consist of plain characters. -/
theorem isPlain_of_isNameChar {c : Char} (accepted : isNameChar c = true) : isPlain c = true := by
  simp only [isPlain, isSpace, Bool.and_eq_true, Bool.not_eq_true', Bool.or_eq_false_iff,
    beq_eq_false_iff_ne, bne_iff_ne]
  refine ⟨⟨⟨⟨⟨⟨⟨⟨?_, ?_⟩, ?_⟩, ?_⟩, ?_⟩, ?_⟩, ?_⟩, ?_⟩, ?_⟩ <;>
    exact fun same => absurd accepted (by subst same; decide)

theorem plain_isNameChar : Plain isNameChar := fun _ => isPlain_of_isNameChar

/-- What a name may begin with may also stand inside it. -/
theorem isNameChar_of_isNameStart {c : Char} (accepted : isNameStart c = true) :
    isNameChar c = true := by
  simp only [isNameStart, isNameChar, Char.isAlphanum, Bool.or_eq_true] at accepted ⊢
  rcases accepted with (letter | underscore) | dollar
  · exact .inl (.inl (.inl letter))
  · exact .inl (.inr underscore)
  · exact .inr dollar

theorem isNameChar_of_isDigit {c : Char} (accepted : c.isDigit = true) :
    isNameChar c = true := by
  simp [isNameChar, Char.isAlphanum, accepted]

theorem plain_isNameStart : Plain isNameStart := fun _ accepted =>
  isPlain_of_isNameChar (isNameChar_of_isNameStart accepted)

theorem plain_isDigit : Plain Char.isDigit := fun _ accepted =>
  isPlain_of_isNameChar (isNameChar_of_isDigit accepted)

/-! ## Gaps before a choice -/

/-- The gap before a choice can be read in each alternative instead. -/
theorem afterGaps_orElse {α : Type} (p q : Reader α) :
    afterGaps (p <|> q) = (afterGaps p <|> afterGaps q) := by
  funext s
  simp [afterGaps, gaps]

/-- The gap before an operator can be read before its token. -/
theorem afterGaps_spelled (op : BinaryOp) :
    afterGaps (spelled op) = (afterGaps (word op.token) >>= fun _ => pure op) := by
  funext s
  simp [afterGaps, gaps, spelled]

namespace Frame

variable {T U : Nat → List Char → List Char → Prop} {α : Type} {d : Nat}

/-! ## Lexemes -/

section Lexemes

variable (F : Frame T U)
include F

/-- What runs in parallel where a rule begins also does inside the rule. -/
theorem within {strict : Bool} {p q : Reader α} (parallel : Parallel strict (T d) (U d) p q) :
    Parallel strict (U d) (U d) p q :=
  parallel.weaken F.inner fun _ _ => id

theorem char {c : Char} (plain : isPlain c = true) :
    Parallel true (T d) (U d) (char c) (char c) :=
  (F.satisfying (plain_beq plain)).bind fun _ => .pure _

/-- A gap is read inside a rule, so what follows it need only run there. -/
theorem afterGaps {V : List Char → List Char → Prop} {strict : Bool} {p q : Reader α}
    (parallel : Parallel strict (U d) V p q) :
    Parallel strict (U d) V (afterGaps p) (afterGaps q) :=
  F.gaps.bind fun _ => parallel

theorem sign {c : Char} (plain : isPlain c = true) :
    Parallel true (U d) (U d) (sign c) (sign c) :=
  F.afterGaps (F.within (F.char plain))

theorem name : Parallel true (T d) (U d) name name :=
  (F.satisfying plain_isNameStart).bind fun _ => (F.run plain_isNameChar).bind fun _ => .pure _

/-- Both texts give one name, which is reserved in both or in neither. -/
theorem identifier : Parallel true (T d) (U d) identifier identifier := by
  have unreserved (read : String) : Parallel false (U d) (U d)
      (if read ∈ reserved then refuse else pure read : Reader String)
      (if read ∈ reserved then refuse else pure read) := by
    split
    · exact .refuse
    · exact .pure read
  exact F.name.bind unreserved

/-- A keyword must not go on as a name, and a closing parenthesis does not continue it. -/
theorem keyword {w : String} (plain : PlainWord w) :
    Parallel true (T d) (U d) (keyword w) (keyword w) :=
  (F.word plain).bind fun _ => F.notNext rfl

/-! ## Literals -/

theorem digits : Parallel true (T d) (U d) digits digits :=
  (F.satisfying plain_isDigit).run1 (F.run plain_isDigit)

theorem exponent : Parallel true (T d) (U d) exponent exponent :=
  (F.satisfying fun c accepted => by
    simp only [Bool.or_eq_true, beq_iff_eq] at accepted
    rcases accepted with rfl | rfl <;> decide).bind fun _ =>
  (F.within (F.satisfying fun c accepted => by
    simp only [Bool.or_eq_true, beq_iff_eq] at accepted
    rcases accepted with rfl | rfl <;> decide)).optional.bind fun _ =>
  (F.within F.digits).bind fun _ => .pure _

theorem number : Parallel true (T d) (U d) number number :=
  F.digits.bind fun _ =>
  ((F.within (F.char rfl)).bind fun _ => F.within F.digits).optional.bind fun _ =>
  (F.within F.exponent).optional.bind fun _ => .pure _

theorem wordFor {w : String} (plain : PlainWord w) (value : Value) :
    Parallel true (T d) (U d) (wordFor w value) (wordFor w value) :=
  (F.keyword plain).bind fun _ => .pure _

theorem literal : Parallel true (T d) (U d) literal literal :=
  (F.wordFor (by decide) _).orElse <| (F.wordFor (by decide) _).orElse <|
    (F.wordFor (by decide) _).orElse <| F.number.orElse F.quoted

/-! ## Operators -/

theorem spelled {op : BinaryOp} (plain : PlainWord op.token) :
    Parallel true (T d) (U d) (spelled op) (spelled op) :=
  (F.word plain).bind fun _ => .pure _

/-- An operator may be forbidden to go on in some way, but not with a closing parenthesis. -/
theorem spelledBefore {op : BinaryOp} {continues : Char → Bool} (plain : PlainWord op.token)
    (closes : continues ')' = false) :
    Parallel true (T d) (U d) (spelledBefore op continues) (spelledBefore op continues) :=
  (F.word plain).bind fun _ => (F.notNext closes).bind fun _ => .pure _

theorem unaryOp : Parallel true (T d) (U d) unaryOp unaryOp :=
  ((F.char rfl).bind fun _ => (F.notNext rfl).bind fun _ => .pure _).orElse <|
    ((F.char rfl).bind fun _ => .pure _).orElse <|
    ((F.char rfl).bind fun _ => .pure _).orElse <|
    (F.char rfl).bind fun _ => .pure _

theorem unaryMark : Parallel true (T d) (U d) unaryMark unaryMark :=
  F.unaryOp.bind fun _ => F.gaps.bind fun _ => .pure _

/-- The operators of a level, with the gap before them. -/
theorem operator {operator : Reader BinaryOp} (level : operator ∈ levels) :
    Parallel true (U d) (U d) (Lexeme.afterGaps operator) (Lexeme.afterGaps operator) := by
  simp only [levels, List.mem_cons, List.not_mem_nil, or_false] at level
  rcases level with rfl | rfl | rfl | rfl | rfl | rfl | rfl | rfl | rfl | rfl
  · exact F.afterGaps (F.within ((F.spelled (by decide)).orElse (F.spelled (by decide))))
  · exact F.afterGaps (F.within (F.spelled (by decide)))
  · exact F.afterGaps (F.within (F.spelledBefore (by decide) rfl))
  · exact F.afterGaps (F.within (F.spelledBefore (by decide) rfl))
  · exact F.afterGaps (F.within (F.spelledBefore (by decide) rfl))
  · exact F.afterGaps (F.within ((F.spelled (by decide)).orElse <|
      (F.spelled (by decide)).orElse <| (F.spelled (by decide)).orElse (F.spelled (by decide))))
  · exact F.afterGaps (F.within ((F.spelled (by decide)).orElse <|
      (F.spelled (by decide)).orElse <|
        (F.spelledBefore (by decide) rfl).orElse (F.spelledBefore (by decide) rfl)))
  · exact F.afterGaps (F.within ((F.spelled (by decide)).orElse (F.spelled (by decide))))
  · exact F.afterGaps (F.within ((F.spelled (by decide)).orElse (F.spelled (by decide))))
  · -- A slash is read by itself only where no gap is left to be read.
    rw [afterGaps_orElse, afterGaps_orElse, afterGaps_spelled (.compute .divide)]
    exact (F.afterGaps (F.within (F.spelled (by decide)))).orElse <|
      (F.division.bind fun _ => .pure _).orElse (F.afterGaps (F.within (F.spelled (by decide))))

end Lexemes

/-! ## Rules with parts -/

section Rules

variable (F : Frame T U)
include F

/-- The elements of a list stand one parenthesis deeper than the list. -/
theorem listed {p q : Reader α} (element : ∀ d, Parallel true (U d) (U d) p q) :
    Parallel true (T d) (U d) (listed p) (listed q) :=
  F.opening.bind fun _ => F.gaps.bind fun _ =>
  ((element _).separated ((F.sign rfl).bind fun _ => F.gaps).loosen).bind fun _ =>
  (F.sign rfl).optional.bind fun _ => (F.afterGaps F.closing).bind fun _ => .pure _

theorem parameter : Parallel true (T d) (U d) parameter parameter :=
  F.identifier.bind fun _ =>
  ((F.sign rfl).bind fun _ => F.afterGaps (F.within F.name)).optional.bind fun _ => .pure _

/-- The mark may be missing, and then a rule still begins after it. -/
theorem asyncMark : Parallel false (T d) (T d) asyncMark asyncMark :=
  (((F.keyword (by decide)).bind fun _ => F.gaps).weaken (fun _ _ => id) F.inner).optional.bind
    fun _ => .pure _

variable {E E' : Reader Expr} {B B' : Reader (List Statement)}
  (exprs : ∀ d, Parallel true (U d) (U d) E E') (blocks : ∀ d, Parallel true (U d) (U d) B B')

include blocks in
/-- A function literal needs its block only after its own first word. -/
theorem functionLiteral : Parallel true (T d) (U d) (functionLiteral B) (functionLiteral B') :=
  F.asyncMark.bind fun _ => (F.keyword (by decide)).bind fun _ =>
  (F.sign rfl).optional.bind fun _ =>
  (F.afterGaps (F.within F.identifier)).optional.bind fun _ =>
  (F.afterGaps (F.within (F.listed fun _ => F.within F.parameter))).bind fun _ =>
  (F.afterGaps (blocks _)).bind fun _ => .pure _

include exprs blocks in
/-- The body of an arrow is a block or an expression, after the parameters. -/
theorem arrowFunction :
    Parallel true (T d) (U d) (arrowFunction E B) (arrowFunction E' B') := by
  refine F.asyncMark.bind fun _ => Parallel.bind (?_ : Parallel true (T d) (U d) _ _) fun _ =>
    F.gaps.bind fun _ => (F.within (F.word (by decide))).bind fun _ => F.gaps.bind fun _ =>
    Parallel.bind (?_ : Parallel true (U d) (U d) _ _) fun _ => .pure _
  · exact (F.identifier.bind fun _ => .pure _).orElse (F.listed fun _ => F.within F.parameter)
  · exact ((blocks _).map _).orElse ((exprs _).map _)

include exprs in
/-- An expression in parentheses stands one parenthesis deeper. -/
theorem parenthesized : Parallel true (T d) (U d) (parenthesized E) (parenthesized E') :=
  F.opening.bind fun _ => (F.afterGaps (exprs _)).bind fun _ =>
  (F.afterGaps F.closing).bind fun _ => .pure _

include exprs blocks in
/-- A primary expression takes a character of its own before any of its parts. -/
theorem primary : Parallel true (T d) (U d) (primary E B) (primary E' B') :=
  (F.functionLiteral blocks).orElse <| (F.arrowFunction exprs blocks).orElse <|
    (F.parenthesized exprs).orElse <| (F.literal.map _).orElse (F.identifier.map _)

include exprs in
/-- An access begins with a mark of its own, a gap before it included. -/
theorem access : Parallel true (U d) (U d) (access E) (access E') := by
  refine F.afterGaps (F.within (?_ : Parallel true (T d) (U d) _ _))
  refine .orElse ?_ (.orElse ?_ ?_)
  · exact (F.char rfl).bind fun _ => (F.afterGaps (F.within F.name)).bind fun _ => .pure _
  · exact (F.char rfl).bind fun _ => (F.afterGaps (exprs _)).bind fun _ =>
      (F.sign rfl).bind fun _ => .pure _
  · exact (F.listed exprs).bind fun _ => .pure _

include exprs blocks in
/-- The accesses after a primary expression are read to the last one. -/
theorem postfixed : Parallel true (T d) (U d) (postfixed E B) (postfixed E' B') :=
  (F.primary exprs blocks).bind fun _ => (F.access exprs).many.bind fun _ => .pure _

include exprs blocks in
/-- Any number of marks may stand before the operand, also none. -/
theorem unary : Parallel true (T d) (U d) (unary E B) (unary E' B') :=
  (F.unaryMark.weaken (fun _ _ => id) F.inner).many.bind fun _ =>
  (F.postfixed exprs blocks).bind fun _ => .pure _

/-- An operator of a level and the operand after it. -/
theorem continuation {p q : Reader Expr} (operand : Parallel true (U d) (U d) p q)
    {operator : Reader BinaryOp} (level : operator ∈ levels) :
    Parallel true (U d) (U d) (continuation p operator) (continuation q operator) :=
  (F.operator level).bind fun _ => (F.afterGaps operand).bind fun _ => .pure _

/-- The first operand of a level stands where the level begins, the others stand inside it. -/
theorem ladder {p q : Reader Expr} (operand : Parallel true (T d) (U d) p q) :
    ∀ {operators : List (Reader BinaryOp)}, operators ⊆ levels →
      Parallel true (T d) (U d) (ladder p operators) (ladder q operators)
  | [], _ => operand
  | operator :: operators, sub => by
      have tighter := ladder operand (List.subset_of_cons_subset sub)
      have others := F.continuation (F.within tighter) (sub List.mem_cons_self)
      exact tighter.bind fun _ => others.many.bind fun _ => .pure _

include exprs in
theorem branches : Parallel true (U d) (U d) (branches E) (branches E') :=
  (F.sign rfl).bind fun _ => (F.notNext rfl).bind fun _ =>
  (F.afterGaps (exprs _)).bind fun _ => (F.sign rfl).bind fun _ =>
  (F.afterGaps (exprs _)).bind fun _ => .pure _

include exprs blocks in
/-- A whole expression, where the expressions and blocks in it run in parallel. -/
theorem expression : Parallel true (T d) (U d) (expression E B) (expression E' B') :=
  (F.ladder (F.unary exprs blocks) (List.Subset.refl _)).bind fun _ =>
  (F.branches exprs).optional.bind fun
    | some _ => .pure _
    | none => .pure _

/-! ## Statements -/

/-- A semicolon at the end of a statement may be missing. -/
theorem terminator : Parallel false (U d) (U d) terminator terminator :=
  (F.sign rfl).optional.bind fun _ => .pure _

include exprs in
theorem resultStatement :
    Parallel true (T d) (U d) (resultStatement E) (resultStatement E') :=
  (F.keyword (by decide)).bind fun _ => (F.afterGaps (exprs _)).optional.bind fun _ =>
  F.terminator.bind fun _ => .pure _

theorem declarationKind : Parallel true (T d) (U d) declarationKind declarationKind :=
  ((F.keyword (by decide)).bind fun _ => .pure _).orElse <|
    ((F.keyword (by decide)).bind fun _ => .pure _).orElse <|
    (F.keyword (by decide)).bind fun _ => .pure _

include exprs in
theorem declaration : Parallel true (T d) (U d) (declaration E) (declaration E') :=
  F.declarationKind.bind fun _ => (F.afterGaps (F.within F.identifier)).bind fun _ =>
  ((F.sign rfl).bind fun _ => F.afterGaps (exprs _)).optional.bind fun _ =>
  F.terminator.bind fun _ => .pure _

/-- A statement may begin with an expression, so that one is needed where a rule begins too. -/
theorem statementOf (exprs : Parallel true (T d) (U d) E E')
    (inner : ∀ d, Parallel true (U d) (U d) E E') (blocks : Parallel true (T d) (U d) B B') :
    Parallel true (T d) (U d) (statementOf E B) (statementOf E' B') :=
  (blocks.map _).orElse <| (F.resultStatement inner).orElse <|
    (F.declaration inner).orElse <| ((F.char rfl).bind fun _ => .pure _).orElse <|
    exprs.bind fun _ => F.terminator.bind fun _ => .pure _

/-- The statements of a block stand after its opening brace. -/
theorem blockOf {p q : Reader Statement} (statements : Parallel true (U d) (U d) p q) :
    Parallel true (T d) (U d) (blockOf p) (blockOf q) :=
  (F.char rfl).bind fun _ => F.gaps.bind fun _ =>
  (statements.bind fun _ => F.gaps.bind fun _ => .pure _).many.bind fun _ =>
  (F.within (F.char rfl)).bind fun _ => .pure _

end Rules

end Frame
end RowFilter.Script
