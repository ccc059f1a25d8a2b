import RowFilter.Proofs.Script.Function
import RowFilter.Proofs.Text.Yields
import RowFilter.Script.Source

/-!
# Programs of one function

A program may be a single function with an arrow.  No operator, access or conditional makes a
function, so such a program has been read as a function where its first operand begins
(`primary_of_expr`), and nothing but a semicolon and gaps follows the body.

The text before the body is the head of the function.  A head is good for any body
(`ReadsHead`): the text is a program of one function exactly if a body follows the head and
ends the text (`ReadsHead.parse_iff`).  There are four heads for one parameter, with and
without parentheses and with and without the mark of an asynchronous function.  One of them is
no head if the parameter is called `async`: the name is taken for the mark, and the arrow after
it is not understood (`parse_async`).
-/

set_option autoImplicit false

namespace RowFilter.Script

open Reader Lexeme Grammar

/-! ## Functions come from operands -/

section Function

variable {s rest : List Char} {signature : Signature} {b : Body}

/-- A step that leads to no function. -/
def NoFunction (step : Expr → Expr) : Prop :=
  ∀ e signature b, step e ≠ .function signature b

theorem yields_access_noFunction : Yields NoFunction (access expr) := by
  have member : Yields NoFunction
      (do char '.'; let read ← afterGaps name; return (.member · read)) :=
    .next fun _ => .next fun _ => .pure fun _ _ _ same => by cases same
  have index : Yields NoFunction
      (do char '['; let key ← afterGaps expr; sign ']'; return (.index · key)) :=
    .next fun _ => .next fun _ => .next fun _ => .pure fun _ _ _ same => by cases same
  have call : Yields NoFunction
      (do let arguments ← listed expr; return (.call · arguments)) :=
    .next fun _ => .pure fun _ _ _ same => by cases same
  exact .next fun _ => .orElse member (.orElse index call)

theorem primary_of_postfixed
    (read : postfixed expr block s = some (.function signature b, rest)) :
    primary expr block s = some (.function signature b, rest) := by
  obtain ⟨first, middle, operand, read⟩ := bind_eq_some read
  obtain ⟨steps, last, accesses, same⟩ := bind_eq_some read
  obtain ⟨folded, rfl⟩ := Prod.mk.inj (Option.some.inj same)
  have never := yields_access_noFunction.many accesses
  rcases List.eq_nil_or_concat steps with rfl | ⟨earlier, step, rfl⟩
  · rw [many_eq_nil accesses, operand]
    exact congrArg (fun e => some (e, middle)) folded
  · rw [List.concat_eq_append, List.foldl_append] at folded
    exact absurd folded (never step (by simp) _ _ _)

theorem postfixed_of_unary (read : unary expr block s = some (.function signature b, rest)) :
    postfixed expr block s = some (.function signature b, rest) := by
  obtain ⟨ops, middle, marks, read⟩ := bind_eq_some read
  obtain ⟨operand, last, read', same⟩ := bind_eq_some read
  obtain ⟨folded, rfl⟩ := Prod.mk.inj (Option.some.inj same)
  cases ops with
  | nil =>
      obtain rfl := many_eq_nil marks
      rw [read']
      exact congrArg (fun e => some (e, last)) folded
  | cons op ops => cases folded

theorem operand_of_chain {operand : Reader Expr} {operator : Reader BinaryOp}
    (read : chain operand operator s = some (.function signature b, rest)) :
    operand s = some (.function signature b, rest) := by
  obtain ⟨first, middle, read', read⟩ := bind_eq_some read
  obtain ⟨others, last, further, same⟩ := bind_eq_some read
  obtain ⟨folded, rfl⟩ := Prod.mk.inj (Option.some.inj same)
  rcases List.eq_nil_or_concat others with rfl | ⟨earlier, ⟨op, right⟩, rfl⟩
  · rw [many_eq_nil further, read']
    exact congrArg (fun e => some (e, middle)) folded
  · rw [List.concat_eq_append, List.foldl_append] at folded
    cases folded

theorem operand_of_ladder {operand : Reader Expr} {operators : List (Reader BinaryOp)}
    (read : ladder operand operators s = some (.function signature b, rest)) :
    operand s = some (.function signature b, rest) := by
  induction operators with
  | nil => exact read
  | cons operator tighter ih => exact ih (operand_of_chain read)

/-- **An expression that is a function is read where its first operand begins, and nothing
else belongs to it.** -/
theorem primary_of_expr (read : expr s = some (.function signature b, rest)) :
    primary expr block s = some (.function signature b, rest) := by
  rw [expr_eq] at read
  obtain ⟨test, middle, tested, read⟩ := bind_eq_some read
  obtain ⟨choice, last, read', same⟩ := bind_eq_some read
  cases choice with
  | some found => cases (Prod.mk.inj (Option.some.inj same)).1
  | none =>
      obtain ⟨rfl, rfl⟩ := Prod.mk.inj (Option.some.inj same)
      rw [optional_eq_none read']
      exact primary_of_postfixed (postfixed_of_unary (operand_of_ladder tested))

end Function

/-! ## Programs of one expression -/

/-- Nothing follows but a semicolon, which may be missing, and gaps. -/
def Finishes (rest : List Char) : Prop :=
  ∃ follow, terminator rest = some ((), follow) ∧ skipGaps follow = []

/-- At the end of a text nothing goes on with an operand. -/
theorem silent_of_ended {rest : List Char} (ended : skipGaps rest = []) : Silent rest := by
  have same {α : Type} (p : Reader α) : afterGaps p rest = afterGaps p [] := by
    rw [afterGaps_apply, ended]
    rfl
  refine ⟨(same _).trans silent_nil.access, fun operator level => ?_, ?_⟩
  · exact (same operator).trans (silent_nil.operators operator level)
  · exact bind_of_none ((same (char '?')).trans rfl)

theorem Finishes.cases {rest : List Char} (finishes : Finishes rest) :
    skipGaps rest = [] ∨ ∃ follow, skipGaps rest = ';' :: follow ∧ skipGaps follow = [] := by
  obtain ⟨follow, read, ended⟩ := finishes
  obtain ⟨found, middle, semicolon, same⟩ := bind_eq_some read
  obtain ⟨_, rfl⟩ := Prod.mk.inj (Option.some.inj same)
  cases signed : sign ';' rest with
  | none =>
      rw [optional_of_none signed] at semicolon
      cases semicolon
      exact .inl ended
  | some taken =>
      obtain ⟨_, after, gapped, first⟩ := bind_eq_some signed
      cases gapped
      rw [optional_of_some signed] at semicolon
      cases semicolon
      exact .inr ⟨_, char_eq_some first, ended⟩

theorem Finishes.silent {rest : List Char} (finishes : Finishes rest) : Silent rest := by
  rcases finishes.cases with ended | ⟨follow, next, _⟩
  · exact silent_of_ended ended
  · exact silent_of_skipGaps next rfl

/-- **A program of one expression is the expression, and perhaps a semicolon.** -/
theorem statements_eq_iff {s : List Char} (begins : Begins s) {e : Expr} :
    statements s = ([.expression e], []) ↔ ∃ rest, expr s = some (e, rest) ∧ Finishes rest := by
  rw [statements, begins.skipGaps, repeated_eq_singleton_iff spaced_progresses]
  constructor
  · intro read
    obtain ⟨content, follow, read, spacing⟩ := bind_eq_some read
    obtain ⟨_, after, gapped, same⟩ := bind_eq_some spacing
    cases gapped
    obtain ⟨rfl, ended⟩ := Prod.mk.inj (Option.some.inj same)
    rw [statement_of_begins begins] at read
    obtain ⟨e', rest, whole, read⟩ := bind_eq_some read
    obtain ⟨_, follow', closes, same⟩ := bind_eq_some read
    cases same
    exact ⟨rest, whole, follow, closes, ended⟩
  · rintro ⟨rest, whole, follow, closes, ended⟩
    have read : statement s = some (.expression e, follow) := by
      rw [statement_of_begins begins, expressionStatement, bind_of_some whole,
        bind_of_some closes]
      rfl
    rw [spaced, bind_of_some read, bind_of_some (gaps_apply follow), ended]
    rfl

theorem parse_eq_ok_iff {source : String} {p : Program} :
    parse source = .ok p ↔ statements source.toList = (p, []) := by
  rw [parse]
  cases read : statements source.toList with
  | mk q rest =>
      cases rest with
      | nil => simp
      | cons c rest => simp

/-! ## Heads of functions -/

/-- A text that makes a function of the given signature with any body, and with nothing else. -/
structure ReadsHead (head : List Char) (signature : Signature) : Prop where
  begins : ∀ t, Begins (head ++ t)
  mark : ∀ t, unaryMark (head ++ t) = none
  function : ∀ {t s b rest}, primary expr block (head ++ t) = some (.function s b, rest) ↔
    s = signature ∧ arrowBody (skipGaps t) = some (b, rest)
  closing : ∀ t, closing 0 (head ++ t) = closing 0 t

/-- A text ends with the body of a function. -/
def LastBody (t : List Char) (b : Body) : Prop :=
  ∃ rest, arrowBody (skipGaps t) = some (b, rest) ∧ Finishes rest

/-- **A text is a program of one function exactly if a body follows the head and ends the
text.** -/
theorem ReadsHead.parse_iff {head t : List Char} {signature s : Signature} {b : Body}
    (reads : ReadsHead head signature) {source : String} (text : source.toList = head ++ t) :
    parse source = .ok [.expression (.function s b)] ↔ s = signature ∧ LastBody t b := by
  rw [parse_eq_ok_iff, text, statements_eq_iff (reads.begins t)]
  constructor
  · rintro ⟨rest, whole, finishes⟩
    obtain ⟨same, body⟩ := reads.function.mp (primary_of_expr whole)
    exact ⟨same, rest, body, finishes⟩
  · rintro ⟨same, rest, body, finishes⟩
    have read := reads.function.mpr ⟨same, body⟩
    exact ⟨rest, expr_of_primary (reads.mark t) read finishes.silent, finishes⟩

/-! ## One parameter -/

/-- An arrow between blanks, and a text. -/
def arrowText (t : List Char) : List Char := ' ' :: '=' :: '>' :: ' ' :: t

theorem skipGaps_arrowText (t : List Char) : skipGaps (arrowText t) = '=' :: '>' :: ' ' :: t :=
  skipGaps_arrow (' ' :: t)

/-- The text of one parameter before the blank and the arrow. -/
structure ReadsParameter (listing : List Char) (v : String) : Prop where
  begins : ∀ t, Begins (listing ++ ' ' :: t)
  mark : ∀ t, unaryMark (listing ++ ' ' :: t) = none
  word : ∀ t, keyword "function" (listing ++ ' ' :: t) = none
  parameters : ∀ t, arrowParameters (listing ++ ' ' :: t) = some ([v], ' ' :: t)
  inside : ∀ {t s b rest},
    parenthesized expr (listing ++ ' ' :: t) ≠ some (.function s b, rest)
  closing : ∀ t, closing 0 (listing ++ t) = closing 0 t

/-- The text of a function with one parameter up to its body. -/
def headText (async : Bool) (listing : List Char) : List Char :=
  asyncText async ++ (listing ++ " => ".toList)

theorem headText_append (async : Bool) (listing t : List Char) :
    headText async listing ++ t = asyncText async ++ (listing ++ arrowText t) := by
  simp [headText, arrowText]

theorem closing_name {n : String} (named : isName n = true) (depth : Nat) (t : List Char) :
    closing depth (n.toList ++ t) = closing depth t :=
  closing_plain_append (fun c member => isPlain_of_isNameChar (isNameChar_of_mem named c member)) t

theorem closing_blank (t : List Char) : closing 0 (' ' :: t) = closing 0 t := by
  rw [← closing_skipGaps, skipGaps_blank, closing_skipGaps]

theorem closing_headText (async : Bool) {listing : List Char}
    (closing : ∀ t, closing 0 (listing ++ t) = closing 0 t) (t : List Char) :
    Script.closing 0 (headText async listing ++ t) = Script.closing 0 t := by
  have arrow (t : List Char) : Script.closing 0 (arrowText t) = Script.closing 0 t := by
    rw [arrowText, closing_blank, closing_plain _ rfl, closing_plain _ rfl, closing_blank]
  have marked (t : List Char) : Script.closing 0 (asyncText async ++ t) = Script.closing 0 t := by
    cases async with
    | true =>
        show Script.closing 0 ("async".toList ++ ' ' :: t) = _
        rw [closing_name rfl 0, closing_blank]
    | false => rfl
  rw [headText_append, marked, closing, arrow]

/-- No function is read in the place of an operand but a function with the word or with an
arrow, or one in parentheses. -/
theorem primary_eq_function_iff {s rest : List Char} {signature : Signature} {b : Body}
    (word : functionLiteral block s = none)
    (inside : parenthesized expr s ≠ some (.function signature b, rest)) :
    primary expr block s = some (.function signature b, rest) ↔
      arrowFunction expr block s = some (.function signature b, rest) := by
  rw [primary, orElse_of_none word]
  constructor
  · intro read
    rcases orElse_eq_some read with arrow | read
    · exact arrow
    rcases orElse_eq_some read with parentheses | read
    · exact absurd parentheses inside
    -- The two alternatives that are left are a literal and an identifier.
    rcases orElse_eq_some read with read | read <;>
      · rw [map_apply, Option.map_eq_some_iff] at read
        obtain ⟨_, _, same⟩ := read
        cases same
  · exact orElse_of_some

theorem ReadsParameter.readsHead {listing : List Char} {v : String}
    (reads : ReadsParameter listing v) {async : Bool}
    (unmarked : async = false → ∀ t, keyword "async" (listing ++ ' ' :: t) = none) :
    ReadsHead (headText async listing) ⟨none, [v], true, async, false⟩ := by
  refine ⟨fun t => ?_, fun t => ?_, ?_, closing_headText async reads.closing⟩
  · rw [headText_append]
    exact begins_async async (reads.begins _)
  · rw [headText_append]
    exact unaryMark_async async (reads.mark _)
  · intro t s b rest
    rw [headText_append]
    have mark : asyncMark (asyncText async ++ (listing ++ arrowText t)) =
        some (async, listing ++ arrowText t) :=
      asyncMark_text async (reads.begins _).gap fun plain => unmarked plain _
    have word : functionLiteral block (asyncText async ++ (listing ++ arrowText t)) = none := by
      rw [functionLiteral, bind_of_some mark]
      exact bind_of_none (reads.word _)
    have inside : parenthesized expr (asyncText async ++ (listing ++ arrowText t)) ≠
        some (.function s b, rest) := by
      cases async with
      | true => exact fun read => by cases read
      | false => exact reads.inside
    rw [primary_eq_function_iff word inside, arrowFunction_of_parameters mark
      (reads.parameters _) (skipGaps_arrow (' ' :: t)), skipGaps_blank, Option.map_eq_some_iff]
    constructor
    · rintro ⟨found, body, same⟩
      cases same
      exact ⟨rfl, body⟩
    · rintro ⟨rfl, body⟩
      exact ⟨_, body, rfl⟩

section Parameter

variable {v : String} (named : isIdentifier v = true)
include named

/-- A parameter needs no parentheses. -/
theorem readsParameter_bare : ReadsParameter v.toList v := by
  have named' := isName_of_isIdentifier named
  obtain ⟨c, t, same, start, _⟩ := isName_eq_true named'
  refine ⟨fun t => ?_, fun t => unaryMark_name named' _, fun t => ?_, fun t => ?_, ?_,
    closing_name named' 0⟩
  · exact begins_name named' (boundary_blank t) (not_mem_statementWords named)
  · exact keyword_append_eq_none named' (boundary_blank t) rfl
      (ne_of_isIdentifier named (by decide))
  · apply orElse_of_some
    rw [bind_of_some (identifier_append named (boundary_blank t))]
    rfl
  · intro t s b rest read
    have refused : parenthesized expr (v.toList ++ ' ' :: t) = none := by
      apply bind_of_none
      rw [same, List.cons_append, char_cons, if_neg]
      rintro rfl
      cases start
    rw [refused] at read
    cases read

theorem parenthesized_name (t : List Char) :
    parenthesized expr ('(' :: (v.toList ++ ')' :: t)) = some (.identifier v, t) := by
  have closer : Ends (')' :: t) := ends_cons t rfl
  have reads := reads_identifier named
  exact parenthesized_append (reads.begins closer.boundary) (reads.whole closer)

/-- A parameter may be put in parentheses. -/
theorem readsParameter_parentheses : ReadsParameter ('(' :: (v.toList ++ [')'])) v := by
  have text (t : List Char) : '(' :: (v.toList ++ [')']) ++ t = '(' :: (v.toList ++ ')' :: t) := by
    simp
  refine ⟨fun t => begins_cons _ rfl, fun t => rfl, fun t => keyword_cons_eq_none _ rfl,
    fun t => ?_, ?_, fun t => ?_⟩
  · have listing := @listed_parameters [v] (by simp [named]) (' ' :: t)
    rw [String.intercalate_singleton] at listing
    rw [text, arrowParameters, orElse_of_none (bind_of_none (identifier_cons_eq_none _ rfl)),
      listing]
  · intro t s b rest read
    rw [text, parenthesized_name named] at read
    cases read
  · rw [text, closing_open, closing_name (isName_of_isIdentifier named), closing_succ]

end Parameter

/-! ## A parameter with the name of the mark -/

section Async

variable (t : List Char)

/-- An arrow goes on with no operand. -/
theorem silent_arrowText : Silent (arrowText t) := by
  have next := skipGaps_arrowText t
  refine ⟨access_of_isStop next rfl, ?_, bind_of_none (sign_of_skipGaps next (by decide))⟩
  intro operator level
  have refused : levels.all (fun operator => (operator ('=' :: '>' :: ' ' :: t)).isNone) = true :=
    rfl
  rw [afterGaps_apply, next]
  exact Option.isNone_iff_eq_none.mp (List.all_eq_true.mp refused operator level)

/-- The name is taken for the mark of an asynchronous function, and there is no function. -/
theorem primary_async :
    primary expr block ("async".toList ++ arrowText t) =
      some (.identifier "async", arrowText t) := by
  have boundary : Boundary (arrowText t) := boundary_blank _
  have mark := asyncMark_async boundary
  rw [skipGaps_arrowText] at mark
  have noWord : functionLiteral block ("async".toList ++ arrowText t) = none := by
    rw [functionLiteral, bind_of_some mark]
    exact bind_of_none (keyword_cons_eq_none _ rfl)
  have noArrow : arrowFunction expr block ("async".toList ++ arrowText t) = none := by
    apply arrowFunction_of_mark mark
    intro parameters rest read
    rw [arrowParameters, orElse_of_none (bind_of_none (identifier_cons_eq_none _ rfl)),
      listed_of_head _ (by decide)] at read
    cases read
  have noLiteral : (Expr.literal <$> literal : Reader Expr) ("async".toList ++ arrowText t) =
      none := by
    rw [map_apply, literal_identifier (by decide) boundary]
    rfl
  rw [primary, orElse_of_none noWord, orElse_of_none noArrow, orElse_of_none rfl,
    orElse_of_none noLiteral, map_apply, identifier_append (by decide) boundary]
  rfl

theorem expr_async : expr ("async".toList ++ arrowText t) =
    some (.identifier "async", arrowText t) :=
  expr_of_primary (unaryMark_name rfl _) (primary_async t) (silent_arrowText t)

theorem statements_async :
    statements ("async".toList ++ arrowText t) =
      ([.expression (.identifier "async")], '=' :: '>' :: ' ' :: t) := by
  have begins : Begins ("async".toList ++ arrowText t) :=
    begins_name rfl (boundary_blank _) (by decide)
  have noSemicolon : sign ';' (arrowText t) = none :=
    sign_of_skipGaps (skipGaps_arrowText t) (by decide)
  have closes : terminator (arrowText t) = some ((), arrowText t) := by
    rw [terminator, bind_of_some (optional_of_none noSemicolon)]
    rfl
  have read : statement ("async".toList ++ arrowText t) =
      some (.expression (.identifier "async"), arrowText t) := by
    rw [statement_of_begins begins, expressionStatement, bind_of_some (expr_async t),
      bind_of_some closes]
    rfl
  have first : spaced statement ("async".toList ++ arrowText t) =
      some (.expression (.identifier "async"), '=' :: '>' :: ' ' :: t) := by
    rw [spaced, bind_of_some read, bind_of_some (gaps_apply _), skipGaps_arrowText]
    rfl
  have last : spaced statement ('=' :: '>' :: ' ' :: t) = none := by
    apply bind_of_none
    rw [statement_of_words (block_of_head _ (by decide)) (words_of_letter _ rfl),
      orElse_of_none (bind_of_none (by simp))]
    exact bind_of_none
      (expr_of_symbol _ rfl rfl (by decide) (by decide) (by decide))
  rw [statements, begins.skipGaps, repeated_of_some spaced_progresses first,
    repeated_of_none last]

/-- **An arrow after the bare name `async` is never understood.** -/
theorem parse_async (body : String) :
    parse ("async => " ++ body) = .error ⟨⟨6, 1, 7⟩⟩ := by
  have text : ("async => " ++ body).toList = "async".toList ++ arrowText body.toList := by
    simp [arrowText]
  have kept (u : List Char) :
      before ("async".toList ++ arrowText u) ('=' :: '>' :: ' ' :: u) = "async ".toList := by
    simp [before, arrowText]
  rw [parse, text, statements_async]
  show Except.error (ParseError.mk (Position.after (before _ _))) = _
  rw [kept]
  rfl

/-- In parentheses it is not understood either. -/
theorem expr_open_async : expr ('(' :: ("async".toList ++ arrowText t)) = none := by
  have next := skipGaps_arrowText t
  have listing : listed parameter ('(' :: ("async".toList ++ arrowText t)) = none := by
    have boundary : Boundary (arrowText t) := boundary_blank _
    have single : parameter ("async".toList ++ arrowText t) = some ("async", arrowText t) := by
      rw [parameter, bind_of_some (identifier_append (by decide) boundary),
        bind_of_some (optional_of_none (bind_of_none (sign_of_skipGaps next (by decide))))]
      rfl
    have noComma : sign ',' (arrowText t) = none := sign_of_skipGaps next (by decide)
    have only : separated parameter (do sign ','; gaps) ("async".toList ++ arrowText t) =
        some (["async"], arrowText t) := by
      apply orElse_of_some
      rw [bind_of_some single, bind_of_some (many_of_none (bind_of_none (bind_of_none noComma)))]
      rfl
    have opened : char '(' ('(' :: ("async".toList ++ arrowText t)) =
        some ((), "async".toList ++ arrowText t) := by simp
    rw [listed, bind_of_some opened, bind_of_some (gaps_apply _),
      skipGaps_of_none (gap_name rfl _), bind_of_some only,
      bind_of_some (optional_of_none noComma)]
    exact bind_of_none (sign_of_skipGaps next (by decide))
  have inside : parenthesized expr ('(' :: ("async".toList ++ arrowText t)) = none := by
    have begins : Begins ("async".toList ++ arrowText t) :=
      begins_name rfl (boundary_blank _) (by decide)
    rw [parenthesized_open, afterGaps_of_begins expr begins, expr_async, Option.bind_some,
      sign_of_skipGaps next (by decide), Option.map_none]
  refine expr_of_none (unaryMark_open _) ((primary_open ?_).trans inside)
  apply arrowFunction_open
  intro parameters rest read
  rw [listing] at read
  cases read

end Async

end RowFilter.Script
