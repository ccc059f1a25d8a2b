import RowFilter.Proofs.Script.Operand

/-!
# Names and literals in their places

A name that breaks off is read as an identifier or as a literal, even if it is `async`:
then it could have been the mark of a function, but neither the word `function` nor
parameters and an arrow follow (`primary_name`).  A number is read as a number only if no
point follows, which is why it is put in parentheses before an access.  An infinite
number is written as a name, and it is read back as an identifier (`reads_infinite`).
-/

set_option autoImplicit false

namespace RowFilter.Script

open Reader Lexeme Grammar

/-! ## Names -/

theorem asyncMark_async {rest : List Char} (ends : Boundary rest) :
    asyncMark ("async".toList ++ rest) = some (true, skipGaps rest) := by
  have mark : (do keyword "async"; gaps : Reader Unit) ("async".toList ++ rest) =
      some ((), skipGaps rest) := bind_of_some (keyword_append "async" ends)
  rw [asyncMark, bind_of_some (optional_of_some mark)]
  rfl

theorem asyncMark_name {n : String} {rest : List Char} (named : isName n = true)
    (other : n ≠ "async") (ends : Boundary rest) :
    asyncMark (n.toList ++ rest) = some (false, n.toList ++ rest) :=
  asyncMark_of_none (keyword_append_eq_none named ends rfl other)

/-- A name that breaks off is no function with the word `function`. -/
theorem functionLiteral_name {n : String} {rest : List Char} (named : isName n = true)
    (other : n ≠ "function") (breaks : Breaks rest) :
    functionLiteral block (n.toList ++ rest) = none := by
  rw [functionLiteral]
  by_cases marked : n = "async"
  · subst marked
    rw [bind_of_some (asyncMark_async breaks.boundary)]
    exact bind_of_none (keyword_of_head rfl breaks.name)
  · rw [bind_of_some (asyncMark_name named marked breaks.boundary)]
    exact bind_of_none (keyword_append_eq_none named breaks.boundary rfl other)

/-- A name that breaks off is no function with an arrow. -/
theorem arrowFunction_name {n : String} {rest : List Char} (named : isName n = true)
    (breaks : Breaks rest) : arrowFunction expr block (n.toList ++ rest) = none := by
  by_cases marked : n = "async"
  · subst marked
    apply arrowFunction_of_mark (asyncMark_async breaks.boundary)
    intro parameters after read
    rw [arrowParameters, orElse_of_none (bind_of_none (identifier_of_head breaks.name))] at read
    -- A list of parameters can begin with nothing but a parenthesis.
    obtain ⟨_, t, opened, _⟩ := bind_eq_some read
    have first := char_eq_some opened
    rw [first] at read
    exact breaks.parameters t after first (parameters_closing read)
  · refine arrowFunction_of_mark (asyncMark_name named marked breaks.boundary)
      fun parameters after read => ?_
    rcases orElse_eq_some read with only | listing
    · obtain ⟨m, middle, read', last⟩ := bind_eq_some only
      obtain ⟨m', middle', read'', unreserved⟩ := bind_eq_some read'
      rw [name_append named breaks.boundary] at read''
      cases read''
      split at unreserved
      · cases unreserved
      · cases unreserved
        cases last
        exact breaks.arrow
    · obtain ⟨c, s, same, start, _⟩ := isName_eq_true named
      rw [same, List.cons_append, listed_of_head _ (by rintro rfl; cases start)] at listing
      cases listing

/-- A name that breaks off is read as a literal or as an identifier. -/
theorem primary_name {n : String} {rest : List Char} (named : isName n = true)
    (other : n ≠ "function") (breaks : Breaks rest) :
    primary expr block (n.toList ++ rest) =
      (Expr.literal <$> literal <|> Expr.identifier <$> identifier : Reader Expr)
        (n.toList ++ rest) := by
  obtain ⟨c, s, same, start, _⟩ := isName_eq_true named
  have noParenthesis : parenthesized expr (n.toList ++ rest) = none := by
    rw [same]
    apply bind_of_none
    rw [List.cons_append, char_cons, if_neg]
    rintro rfl
    cases start
  rw [primary, orElse_of_none (functionLiteral_name named other breaks),
    orElse_of_none (arrowFunction_name named breaks), orElse_of_none noParenthesis]

theorem literal_identifier {n : String} {rest : List Char} (named : isIdentifier n = true)
    (ends : Boundary rest) : literal (n.toList ++ rest) = none := by
  have named' := isName_of_isIdentifier named
  have noWord {w : String} {v : Value} (letters : w.toList.all isNameChar = true)
      (word : w ∈ reserved) : wordFor w v (n.toList ++ rest) = none :=
    wordFor_append_eq_none named' ends letters (ne_of_isIdentifier named word)
  obtain ⟨c, s, same, start, _⟩ := isName_eq_true named'
  have noNumber : number (n.toList ++ rest) = none := by
    rw [same]
    refine number_cons_eq_none _ (eq_false_of_ne_true fun digit => ?_)
    rw [isNameStart_of_isDigit digit] at start
    cases start
  have noQuote : quoted (n.toList ++ rest) = none := by
    rw [same]
    exact quoted_cons_eq_none _ (by rintro rfl; cases start) (by rintro rfl; cases start)
  rw [literal, orElse_of_none (noWord (by decide) (by decide)),
    orElse_of_none (noWord (by decide) (by decide)),
    orElse_of_none (noWord (by decide) (by decide)), orElse_of_none noNumber, noQuote]

/-- **An identifier that breaks off is read as itself.** -/
theorem primary_identifier {n : String} {rest : List Char} (named : isIdentifier n = true)
    (breaks : Breaks rest) :
    primary expr block (n.toList ++ rest) = some (.identifier n, rest) := by
  have noLiteral : (Expr.literal <$> literal : Reader Expr) (n.toList ++ rest) = none := by
    rw [map_apply, literal_identifier named breaks.boundary]
    rfl
  rw [primary_name (isName_of_isIdentifier named) (ne_of_isIdentifier named (by decide)) breaks,
    orElse_of_none noLiteral, map_apply, identifier_append named breaks.boundary]
  rfl

theorem not_mem_statementWords {n : String} (named : isIdentifier n = true) :
    n ∉ statementWords := fun word => by
  apply not_mem_reserved named
  simp only [statementWords, List.mem_cons, List.not_mem_nil, or_false] at word
  rcases word with rfl | rfl | rfl | rfl <;> decide

theorem unaryMark_name {n : String} (named : isName n = true) (rest : List Char) :
    unaryMark (n.toList ++ rest) = none := by
  obtain ⟨c, s, same, start, _⟩ := isName_eq_true named
  rw [same]
  refine unaryMark_of_head _ ⟨?_, ?_, ?_, ?_⟩ <;> rintro rfl <;> cases start

theorem reads_identifier {n : String} (named : isIdentifier n = true) : Reads (.identifier n) :=
  .of_receiver
    (fun ends => begins_name (isName_of_isIdentifier named) ends (not_mem_statementWords named))
    (fun _ => unaryMark_name (isName_of_isIdentifier named) _)
    fun breaks => by
      rw [postfixed_eq]
      exact bind_of_some (primary_identifier named breaks)

/-! ## Literals -/

theorem isOpener_of_isDigit {c : Char} (digit : c.isDigit = true) : isOpener c = true := by
  have other {d : Char} (symbol : d.isDigit = false) : c ≠ d := by
    rintro rfl
    rw [digit] at symbol
    cases symbol
  have space : isSpace c = false := by
    simp [isSpace, other (show ' '.isDigit = false from rfl),
      other (show '\t'.isDigit = false from rfl), other (show '\r'.isDigit = false from rfl),
      other (show '\n'.isDigit = false from rfl)]
  simp [isOpener, isNameStart_of_isDigit digit, space, other (show '/'.isDigit = false from rfl),
    other (show '\x7b'.isDigit = false from rfl), other (show ';'.isDigit = false from rfl),
    other (show '='.isDigit = false from rfl)]

/-- A number is put in parentheses before an access. -/
theorem reads_numeric {v : Value} (numeric : v.isNumeric = true) (writable : v.isWritable = true)
    (finite : v.isInfinite = false) : Reads (.literal v) := by
  obtain ⟨c, t, text, digit⟩ := number_text_head numeric writable finite
  have letter := isNameStart_of_isDigit digit
  have bare (rest : List Char) : (Expr.literal v).text.toList ++ rest = c :: (t ++ rest) := by
    rw [Expr.text, text, List.cons_append]
  have opening : c ≠ '(' := by
    rintro rfl
    cases digit
  have unfit : (Expr.literal v).isUnfitReceiver = true := by
    cases v <;> first | rfl | cases numeric
  have self : (Expr.literal v).reread = .literal v := by simp [Expr.reread, finite]
  refine .of_operand ?_ ?_ ?_ ?_
  · intro rest _
    rw [bare]
    exact begins_cons _ (isOpener_of_isDigit digit)
  · intro rest _
    rw [bare]
    refine unaryMark_of_head _ ⟨?_, ?_, ?_, ?_⟩ <;> rintro rfl <;> cases digit
  · exact fun fit => by simp [unfit] at fit
  · intro rest stops
    have read := literal_of_number (number_append numeric writable finite stops.numberBoundary)
    rw [text, List.cons_append] at read
    rw [bare, postfixed_eq, bind_of_some (primary_of_head _ letter opening read),
      accesses_of_none stops.access, self]

theorem reads_infinite {v : Value} (infinite : v.isInfinite = true)
    (writable : v.isWritable = true) : Reads (.literal v) := by
  have bare : (Expr.literal v).text = "inf" := by
    cases v with
    | float x =>
        simp only [Value.isWritable, Bool.and_eq_true, Bool.not_eq_true'] at writable
        change x.isInf = true at infinite
        simp only [Expr.text, literalText, floatText, writable, infinite, Bool.false_eq_true,
          if_false, if_true]
    | _ => cases infinite
  have self : (Expr.literal v).reread = .identifier "inf" := by simp [Expr.reread, infinite]
  have unfit : (Expr.literal v).isUnfitReceiver = true := by
    cases v <;> first | rfl | cases infinite
  have named : isIdentifier "inf" = true := by decide
  refine .of_operand ?_ ?_ (fun fit => by simp [unfit] at fit) ?_
  · intro rest ends
    rw [bare]
    exact begins_name (isName_of_isIdentifier named) ends (not_mem_statementWords named)
  · intro rest _
    rw [bare]
    exact unaryMark_name (isName_of_isIdentifier named) rest
  · intro rest stops
    rw [bare, postfixed_eq, bind_of_some (primary_identifier named stops.toBreaks),
      accesses_of_none stops.access, self]

/-- A word that stands for a value. -/
theorem reads_word {v : Value} (text : isName (literalText v) = true)
    (other : literalText v ≠ "function") (word : literalText v ∉ statementWords)
    (finite : v.isInfinite = false) (numeric : v.isNumeric = false) : Reads (.literal v) := by
  have self : (Expr.literal v).reread = .literal v := by simp [Expr.reread, finite]
  refine .of_receiver (fun ends => begins_name text ends word) (fun _ => unaryMark_name text _) ?_
  intro rest breaks
  have read : (Expr.literal <$> literal : Reader Expr) ((literalText v).toList ++ rest) =
      some (.literal v, rest) := by
    rw [map_apply, literal_append numeric breaks.boundary]
    rfl
  rw [postfixed_eq, Expr.text, self]
  apply bind_of_some
  rw [primary_name text other breaks, orElse_of_some read]

theorem reads_text (t : String) : Reads (.literal (.text t)) := by
  have bare (rest : List Char) : (Expr.literal (.text t)).text.toList ++ rest =
      '"' :: (t.toList.flatMap Quoted.escape ++ '"' :: rest) := encode_append t rest
  refine .of_receiver ?_ ?_ ?_
  · intro rest _
    rw [bare]
    exact begins_cons _ rfl
  · intro rest _
    rw [bare]
    exact unaryMark_of_head _ (by decide)
  · intro rest breaks
    have read := literal_append (v := .text t) rfl breaks.boundary
    rw [literalText, encode_append] at read
    rw [bare, postfixed_eq, bind_of_some (primary_of_head _ rfl (by decide) read)]
    rfl

theorem reads_literal {v : Value} (writable : v.isWritable = true) : Reads (.literal v) := by
  cases infinite : v.isInfinite with
  | true => exact reads_infinite infinite writable
  | false =>
      cases numeric : v.isNumeric with
      | true => exact reads_numeric numeric writable infinite
      | false =>
          cases v with
          | null => exact reads_word (by decide) (by decide) (by decide) rfl rfl
          | boolean truth =>
              cases truth <;> exact reads_word (by decide) (by decide) (by decide) rfl rfl
          | text t => exact reads_text t
          | _ => cases numeric

end RowFilter.Script
