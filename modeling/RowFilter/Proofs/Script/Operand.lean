import RowFilter.Proofs.Script.Follow
import RowFilter.Proofs.Script.Regular
import RowFilter.Script.Printer

/-!
# Expressions in their places

A written expression stands in one of four places: before an access, as an operand, as a
part of a conditional, or where any expression may stand.  In each place it is put in
parentheses unless its kind is fit for the place.  `Reads` says of an expression that its
text is read back in all four places.

In parentheses an expression is read back wherever one may stand, so it is enough to
treat the places where an expression stands bare (`Reads.of_bare`).
-/

set_option autoImplicit false

namespace RowFilter.Script

open Reader Lexeme Grammar

-- A text is written out as far as the tree is known.
attribute [simp] Expr.text Expr.texts Body.text Statement.text Statement.texts

/-! ## Where a text begins -/

/-- The words that begin a statement. -/
def statementWords : List String := ["return", "let", "const", "var"]

/-- A text that begins an expression, rather than a gap or another statement. -/
structure Begins (s : List Char) : Prop where
  gap : gap s = none
  block : block s = none
  empty : char ';' s = none
  equals : s.head? ≠ some '='
  words : ∀ w ∈ statementWords, keyword w s = none

theorem block_of_head {c : Char} (s : List Char) (brace : c ≠ '\x7b') : block (c :: s) = none := by
  rw [block_eq]
  exact bind_of_none (by simp [brace])

theorem words_of_letter {c : Char} (s : List Char) (letter : isNameStart c = false) :
    ∀ w ∈ statementWords, keyword w (c :: s) = none := by
  intro w word
  refine keyword_of_letter s ?_ letter
  simp only [statementWords, List.mem_cons, List.not_mem_nil, or_false] at word
  rcases word with rfl | rfl | rfl | rfl <;> rfl

/-- A character that begins no gap, no name and no statement but an expression. -/
def isOpener (c : Char) : Bool :=
  !isNameStart c && !isSpace c && c != '/' && c != '\x7b' && c != ';' && c != '='

theorem begins_cons {c : Char} (s : List Char) (opener : isOpener c = true) : Begins (c :: s) := by
  simp only [isOpener, Bool.and_eq_true, Bool.not_eq_true', bne_iff_ne] at opener
  obtain ⟨⟨⟨⟨⟨letter, space⟩, slash⟩, brace⟩, semicolon⟩, equals⟩ := opener
  exact ⟨gap_cons_eq_none s space slash, block_of_head s brace, by simp [semicolon],
    by simp [equals], words_of_letter s letter⟩

theorem begins_name {n : String} {rest : List Char} (named : isName n = true)
    (ends : Boundary rest) (other : n ∉ statementWords) : Begins (n.toList ++ rest) := by
  obtain ⟨c, s, same, start, _⟩ := isName_eq_true named
  refine ⟨gap_name named rest, ?_, ?_, ?_, ?_⟩
  · rw [same]
    exact block_of_head _ fun brace => by
      subst brace
      cases start
  · rw [same, List.cons_append, char_cons, if_neg]
    rintro rfl
    cases start
  · rw [same, List.cons_append, List.head?_cons]
    rintro ⟨⟩
    cases start
  · intro w word
    refine keyword_append_eq_none named ends ?_ fun same => other (same ▸ word)
    simp only [statementWords, List.mem_cons, List.not_mem_nil, or_false] at word
    rcases word with rfl | rfl | rfl | rfl <;> rfl

theorem Begins.skipGaps {s : List Char} (begins : Begins s) : skipGaps s = s :=
  skipGaps_of_none begins.gap

theorem afterGaps_of_begins {α : Type} {s : List Char} (p : Reader α) (begins : Begins s) :
    afterGaps p s = p s := by
  rw [afterGaps_apply, begins.skipGaps]

/-- A text that begins with no letter and no parenthesis is read as a literal. -/
theorem primary_cons {c : Char} (s : List Char) (letter : isNameStart c = false)
    (opening : c ≠ '(') :
    primary expr block (c :: s) = (Expr.literal <$> literal : Reader Expr) (c :: s) := by
  have mark : asyncMark (c :: s) = some (false, c :: s) :=
    asyncMark_of_none (keyword_of_letter s rfl letter)
  have noFunction : functionLiteral block (c :: s) = none := by
    rw [functionLiteral, bind_of_some mark]
    exact bind_of_none (keyword_of_letter s rfl letter)
  have noArrow : arrowFunction expr block (c :: s) = none := by
    apply arrowFunction_of_mark mark
    intro parameters after read
    rw [arrowParameters, orElse_of_none (bind_of_none (identifier_cons_eq_none s letter)),
      listed_of_head s opening] at read
    cases read
  have noParenthesis : parenthesized expr (c :: s) = none := bind_of_none (by simp [opening])
  rw [primary, orElse_of_none noFunction, orElse_of_none noArrow, orElse_of_none noParenthesis,
    orElse_apply, map_apply Expr.identifier, identifier_cons_eq_none s letter, Option.map_none,
    Option.or_none]

theorem primary_of_head {c : Char} (s : List Char) (letter : isNameStart c = false)
    (opening : c ≠ '(') {v : Value} {rest : List Char}
    (read : literal (c :: s) = some (v, rest)) :
    primary expr block (c :: s) = some (.literal v, rest) := by
  rw [primary_cons s letter opening, map_apply, read]
  rfl

/-- A character that separates expressions and statements. -/
def isSeparator (c : Char) : Bool :=
  c == ')' || c == ';' || c == '\x7d'

/-- No expression begins with a character that begins no name, no number, no quoted text, no
operator before an operand and no parentheses. -/
theorem expr_of_symbol {c : Char} (s : List Char) (letter : isNameStart c = false)
    (digit : c.isDigit = false) (marks : c ≠ '!' ∧ c ≠ '-' ∧ c ≠ '+' ∧ c ≠ '~')
    (opening : c ≠ '(') (quotes : c ≠ '"' ∧ c ≠ '\x27') : expr (c :: s) = none := by
  apply expr_of_none (unaryMark_of_head s marks)
  rw [primary_cons s letter opening, map_apply, literal_cons s letter,
    orElse_of_none (number_cons_eq_none s digit), quoted_cons_eq_none s quotes.1 quotes.2]
  rfl

/-- No expression begins with a separator. -/
theorem expr_separator {c : Char} (s : List Char) (separator : isSeparator c = true) :
    expr (c :: s) = none := by
  simp only [isSeparator, Bool.or_eq_true, beq_iff_eq] at separator
  rcases separator with (rfl | rfl) | rfl <;>
    exact expr_of_symbol s rfl rfl (by decide) (by decide) (by decide)

/-! ## Accesses -/

/-- The accesses that follow an expression, applied to it. -/
def accesses (e : Expr) : Reader Expr := do
  let steps ← many (access expr)
  return steps.foldl (fun e step => step e) e

theorem postfixed_eq : postfixed expr block = (primary expr block >>= accesses) := rfl

theorem accesses_of_none {e : Expr} {rest : List Char} (refused : access expr rest = none) :
    accesses e rest = some (e, rest) := by
  rw [accesses, bind_of_some (many_of_none refused)]
  rfl

theorem accesses_of_some {e : Expr} {step : Expr → Expr} {s rest : List Char}
    (read : access expr s = some (step, rest)) : accesses e s = accesses (step e) rest := by
  rw [accesses, accesses, bind_apply, bind_apply, many_of_some access_progresses read]
  cases many (access expr) rest <;> rfl

/-! ## Parentheses -/

theorem parenthesized_append {t rest : List Char} {e : Expr} (begins : Begins (t ++ ')' :: rest))
    (whole : expr (t ++ ')' :: rest) = some (e, ')' :: rest)) :
    parenthesized expr ('(' :: (t ++ ')' :: rest)) = some (e, rest) := by
  have closed : sign ')' (')' :: rest) = some ((), rest) := by
    rw [sign, afterGaps_apply, skipGaps_cons rest rfl (by decide)]
    simp
  rw [parenthesized_open, afterGaps_of_begins expr begins, whole]
  show (sign ')' (')' :: rest)).map (fun closed => (e, closed.2)) = _
  rw [closed]
  rfl

/-- An expression in parentheses is read as the expression, unless an arrow follows. -/
theorem primary_parentheses {t rest : List Char} {e : Expr} (begins : Begins (t ++ ')' :: rest))
    (whole : expr (t ++ ')' :: rest) = some (e, ')' :: rest))
    (arrow : word "=>" (skipGaps rest) = none) :
    primary expr block ('(' :: (t ++ ')' :: rest)) = some (e, rest) := by
  have read := parenthesized_append begins whole
  have closes := parenthesized_closing read
  rw [primary_open, read]
  apply arrowFunction_open
  intro parameters after listing
  obtain rfl : after = rest :=
    Option.some.inj ((parameters_closing listing).symm.trans closes)
  exact arrow

/-- The text of an expression is read back in each place where the expression may stand. -/
structure Reads (e : Expr) : Prop where
  begins : ∀ {rest}, Boundary rest → Begins (e.text.toList ++ rest)
  mark : e.isCompound = false → ∀ {rest}, Boundary rest → unaryMark (e.text.toList ++ rest) = none
  /-- Before an access. -/
  receiver : ∀ {rest}, Breaks rest →
    postfixed expr block ((grouped e.isUnfitReceiver e.text).toList ++ rest) =
      accesses e.reread rest
  /-- Beside an operator. -/
  operand : ∀ {rest}, Stops rest →
    postfixed expr block ((grouped e.isCompound e.text).toList ++ rest) = some (e.reread, rest)
  /-- As a part of a conditional. -/
  branch : ∀ {rest}, Stops rest → (∀ operator ∈ levels, afterGaps operator rest = none) →
    ladder (unary expr block) levels ((grouped e.isUnfitBranch e.text).toList ++ rest) =
      some (e.reread, rest)
  /-- Where any expression may stand. -/
  whole : ∀ {rest}, Ends rest → expr (e.text.toList ++ rest) = some (e.reread, rest)

theorem grouped_true (t : String) (rest : List Char) :
    (grouped true t).toList ++ rest = '(' :: (t.toList ++ ')' :: rest) := by
  simp [grouped]

/-- An expression that is read back where it stands bare is read back in all places. -/
theorem Reads.of_bare {e : Expr}
    (begins : ∀ {rest}, Boundary rest → Begins (e.text.toList ++ rest))
    (mark : e.isCompound = false → ∀ {rest}, Boundary rest →
      unaryMark (e.text.toList ++ rest) = none)
    (receiver : e.isUnfitReceiver = false → ∀ {rest}, Breaks rest →
      postfixed expr block (e.text.toList ++ rest) = accesses e.reread rest)
    (operand : e.isCompound = false → ∀ {rest}, Stops rest →
      postfixed expr block (e.text.toList ++ rest) = some (e.reread, rest))
    (branch : e.isUnfitBranch = false → ∀ {rest}, Stops rest →
      (∀ operator ∈ levels, afterGaps operator rest = none) →
      ladder (unary expr block) levels (e.text.toList ++ rest) = some (e.reread, rest))
    (whole : ∀ {rest}, Ends rest → expr (e.text.toList ++ rest) = some (e.reread, rest)) :
    Reads e := by
  have inside {rest : List Char} (breaks : Breaks rest) :
      postfixed expr block ('(' :: (e.text.toList ++ ')' :: rest)) = accesses e.reread rest := by
    have closer : Ends (')' :: rest) := ends_cons rest rfl
    rw [postfixed_eq, bind_of_some
      (primary_parentheses (begins closer.boundary) (whole closer) breaks.arrow)]
  refine ⟨begins, mark, ?_, ?_, ?_, whole⟩
  · intro rest breaks
    cases fit : e.isUnfitReceiver with
    | true => rw [grouped_true, inside breaks]
    | false => exact receiver fit breaks
  · intro rest stops
    cases fit : e.isCompound with
    | true => rw [grouped_true, inside stops.toBreaks, accesses_of_none stops.access]
    | false => exact operand fit stops
  · intro rest stops silent
    cases fit : e.isUnfitBranch with
    | true =>
        refine ladder_pass (unary_of_postfixed ?_ ?_) silent
        · rw [grouped_true, unaryMark_open]
        · rw [grouped_true, inside stops.toBreaks, accesses_of_none stops.access]
    | false => exact branch fit stops silent

/-- In any place, the text begins an expression. -/
theorem Reads.grouped_begins {e : Expr} (reads : Reads e) (parentheses : Bool) {rest : List Char}
    (ends : Boundary rest) : Begins ((grouped parentheses e.text).toList ++ rest) := by
  cases parentheses with
  | true =>
      rw [grouped_true]
      exact begins_cons _ rfl
  | false => exact reads.begins ends

theorem Reads.grouped_mark {e : Expr} (reads : Reads e) {parentheses : Bool} {rest : List Char}
    (fit : parentheses = false → e.isCompound = false) (ends : Boundary rest) :
    unaryMark ((grouped parentheses e.text).toList ++ rest) = none := by
  cases parentheses with
  | true => rw [grouped_true, unaryMark_open]
  | false => exact reads.mark (fit rfl) ends

section Bare

variable {e : Expr} (begins : ∀ {rest}, Boundary rest → Begins (e.text.toList ++ rest))
include begins

/-- An expression that needs no parentheses beside an operator. -/
theorem Reads.of_operand
    (mark : ∀ {rest}, Boundary rest → unaryMark (e.text.toList ++ rest) = none)
    (receiver : e.isUnfitReceiver = false → ∀ {rest}, Breaks rest →
      postfixed expr block (e.text.toList ++ rest) = accesses e.reread rest)
    (operand : ∀ {rest}, Stops rest →
      postfixed expr block (e.text.toList ++ rest) = some (e.reread, rest)) : Reads e := by
  have unary {rest : List Char} (stops : Stops rest) :=
    unary_of_postfixed (mark stops.boundary) (operand stops)
  refine .of_bare begins (fun _ => mark) receiver (fun _ => operand) ?_ ?_
  · exact fun _ _ stops silent => ladder_pass (unary stops) silent
  · exact fun ends => expr_of_unary (unary ends.toStops) ends.toSilent

/-- An expression that needs no parentheses before an access. -/
theorem Reads.of_receiver
    (mark : ∀ {rest}, Boundary rest → unaryMark (e.text.toList ++ rest) = none)
    (receiver : ∀ {rest}, Breaks rest →
      postfixed expr block (e.text.toList ++ rest) = accesses e.reread rest) : Reads e :=
  .of_operand begins mark (fun _ => receiver) fun stops =>
    (receiver stops.toBreaks).trans (accesses_of_none stops.access)

/-- An operation, which needs parentheses everywhere but as a part of a conditional. -/
theorem Reads.of_branch (unfit : e.isUnfitReceiver = true) (compound : e.isCompound = true)
    (branch : ∀ {rest}, Stops rest → (∀ operator ∈ levels, afterGaps operator rest = none) →
      ladder (unary expr block) levels (e.text.toList ++ rest) = some (e.reread, rest)) :
    Reads e := by
  refine .of_bare begins ?_ ?_ ?_ (fun _ => branch) ?_
  · exact fun fit => by simp [compound] at fit
  · exact fun fit => by simp [unfit] at fit
  · exact fun fit => by simp [compound] at fit
  · exact fun ends => expr_of_ladder (branch ends.toStops ends.operators) ends.branches

/-- An expression that needs parentheses in all places but those for any expression. -/
theorem Reads.of_whole (unfit : e.isUnfitReceiver = true) (compound : e.isCompound = true)
    (unfitBranch : e.isUnfitBranch = true)
    (whole : ∀ {rest}, Ends rest → expr (e.text.toList ++ rest) = some (e.reread, rest)) :
    Reads e := by
  refine .of_bare begins ?_ ?_ ?_ ?_ whole
  · exact fun fit => by simp [compound] at fit
  · exact fun fit => by simp [unfit] at fit
  · exact fun fit => by simp [compound] at fit
  · exact fun fit => by simp [unfitBranch] at fit

end Bare

end RowFilter.Script
