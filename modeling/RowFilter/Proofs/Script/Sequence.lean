import RowFilter.Proofs.Script.Operation

/-!
# Written statements

The text of a statement is read back whatever follows it, because it ends with a
semicolon or a brace.  Statements written with a blank between them are read back in
sequence up to a text that no statement begins (`repeated_statements`), and so are blocks
(`block_braced`).
-/

set_option autoImplicit false

namespace RowFilter.Script

open Reader Lexeme Grammar

/-! ## The alternatives -/

/-- Without a brace and a word, only the empty statement and expressions are left. -/
theorem statement_of_words {s : List Char} (block : block s = none)
    (words : ∀ w ∈ statementWords, keyword w s = none) :
    statement s =
      ((do char ';'; return .empty) <|> expressionStatement expr : Reader Statement) s := by
  have noBlock : (Statement.block <$> Grammar.block) s = none := by
    rw [map_apply, block]
    rfl
  have noResult : resultStatement expr s = none := bind_of_none (words _ (by decide))
  have noKind : declarationKind s = none := by
    rw [declarationKind, orElse_of_none (bind_of_none (words _ (by decide))),
      orElse_of_none (bind_of_none (words _ (by decide)))]
    exact bind_of_none (words _ (by decide))
  have noDeclaration : declaration expr s = none := bind_of_none noKind
  rw [statement, statementOf, orElse_of_none noBlock, orElse_of_none noResult,
    orElse_of_none noDeclaration]

/-- A text that begins an expression is read as a statement of one. -/
theorem statement_of_begins {s : List Char} (begins : Begins s) :
    statement s = expressionStatement expr s := by
  rw [statement_of_words begins.block begins.words, orElse_of_none (bind_of_none begins.empty)]

/-- A text that begins with a word is read as no block. -/
theorem statement_of_word {w : String} {s : List Char} (named : isName w = true) :
    statement (w.toList ++ s) =
      (resultStatement expr <|> declaration expr <|> (do char ';'; return .empty) <|>
        expressionStatement expr : Reader Statement) (w.toList ++ s) := by
  obtain ⟨c, t, same, start, _⟩ := isName_eq_true named
  have noBlock : (Statement.block <$> block) (w.toList ++ s) = none := by
    have brace : c ≠ '\x7b' := by
      rintro rfl
      cases start
    rw [map_apply, same, List.cons_append, block_of_head _ brace]
    rfl
  rw [statement, statementOf, orElse_of_none noBlock]

theorem terminator_semicolon (rest : List Char) : terminator (';' :: rest) = some ((), rest) := by
  rw [terminator, bind_of_some (optional_of_some (sign_cons ';' rest rfl (by decide)))]
  rfl

theorem statement_brace (rest : List Char) : statement ('\x7d' :: rest) = none := by
  rw [statement_of_begins (begins_cons rest rfl)]
  exact bind_of_none (expr_separator rest rfl)

/-! ## Single statements -/

/-- The text of a statement is read back, whatever follows. -/
structure ReadsStatement (s : Statement) : Prop where
  gap : ∀ rest, gap (s.text.toList ++ rest) = none
  reads : ∀ rest, statement (s.text.toList ++ rest) = some (s.reread, rest)

theorem readsStatement_expression {e : Expr} (reads : Reads e) :
    ReadsStatement (.expression e) := by
  have text (rest : List Char) : (Statement.expression e).text.toList ++ rest =
      e.text.toList ++ ';' :: rest := by simp
  have follows (rest : List Char) : Ends (';' :: rest) := ends_cons rest rfl
  refine ⟨fun rest => ?_, fun rest => ?_⟩
  · rw [text]
    exact (reads.begins (follows rest).boundary).gap
  · rw [text, statement_of_begins (reads.begins (follows rest).boundary), expressionStatement,
      bind_of_some (reads.whole (follows rest)), bind_of_some (terminator_semicolon rest)]
    rfl

theorem readsStatement_result_none : ReadsStatement (.result none) := by
  have text (rest : List Char) : (Statement.result none).text.toList ++ rest =
      "return".toList ++ ';' :: rest := by simp
  refine ⟨fun rest => ?_, fun rest => ?_⟩
  · rw [text]
    exact gap_name rfl _
  · have argument : optional (afterGaps expr) (';' :: rest) = some (none, ';' :: rest) := by
      apply optional_of_none
      rw [afterGaps_apply, skipGaps_cons rest rfl (by decide), expr_separator rest rfl]
    rw [text, statement_of_word rfl]
    apply orElse_of_some
    rw [resultStatement, bind_of_some (keyword_append "return" (boundary_cons rest rfl)),
      bind_of_some argument, bind_of_some (terminator_semicolon rest)]
    rfl

theorem resultStatement_argument {e : Expr} (reads : Reads e) {rest follow : List Char}
    (ends : Ends rest) (closes : terminator rest = some ((), follow)) :
    statement ("return".toList ++ ' ' :: (e.text.toList ++ rest)) =
      some (.result (some e.reread), follow) := by
  have argument : optional (afterGaps expr) (' ' :: (e.text.toList ++ rest)) =
      some (some e.reread, rest) := by
    apply optional_of_some
    rw [afterGaps_blank, afterGaps_of_begins expr (reads.begins ends.boundary), reads.whole ends]
  rw [statement_of_word rfl]
  apply orElse_of_some
  rw [resultStatement, bind_of_some (keyword_append "return" (boundary_blank _)),
    bind_of_some argument, bind_of_some closes]
  rfl

theorem readsStatement_result_some {e : Expr} (reads : Reads e) :
    ReadsStatement (.result (some e)) := by
  have text (rest : List Char) : (Statement.result (some e)).text.toList ++ rest =
      "return".toList ++ ' ' :: (e.text.toList ++ ';' :: rest) := by simp
  refine ⟨fun rest => ?_, fun rest => ?_⟩
  · rw [text]
    exact gap_name rfl _
  · rw [text]
    exact resultStatement_argument reads (ends_cons rest rfl) (terminator_semicolon rest)

theorem isName_keyword (k : DeclarationKind) : isName k.keyword = true := by
  cases k <;> decide

theorem declarationKind_append (k : DeclarationKind) {rest : List Char} (ends : Boundary rest) :
    declarationKind (k.keyword.toList ++ rest) = some (k, rest) := by
  have read (w : String) (k : DeclarationKind) :
      (do keyword w; return k : Reader DeclarationKind) (w.toList ++ rest) = some (k, rest) :=
    bind_of_some (keyword_append w ends)
  have refused {w : String} {k' : DeclarationKind} (letters : w.toList.all isNameChar = true)
      (other : k.keyword ≠ w) :
      (do keyword w; return k' : Reader DeclarationKind) (k.keyword.toList ++ rest) = none :=
    bind_of_none (keyword_append_eq_none (isName_keyword k) ends letters other)
  cases k with
  | «let» => exact orElse_of_some (read "let" .let)
  | const =>
      rw [declarationKind, orElse_of_none (refused (by decide) (by decide))]
      exact orElse_of_some (read "const" .const)
  | var =>
      rw [declarationKind, orElse_of_none (refused (by decide) (by decide)),
        orElse_of_none (refused (by decide) (by decide))]
      exact read "var" .var

/-- No declaration is read as a statement that ends a function. -/
theorem statement_of_keyword (k : DeclarationKind) {rest follow : List Char} {s : Statement}
    (ends : Boundary rest) (read : declaration expr (k.keyword.toList ++ rest) = some (s, follow)) :
    statement (k.keyword.toList ++ rest) = some (s, follow) := by
  have other : k.keyword ≠ "return" := by cases k <;> decide
  have noResult : resultStatement expr (k.keyword.toList ++ rest) = none :=
    bind_of_none (keyword_append_eq_none (isName_keyword k) ends rfl other)
  rw [statement_of_word (isName_keyword k), orElse_of_none noResult, orElse_of_some read]

theorem declared_append {n : String} (named : isIdentifier n = true) {rest : List Char}
    (ends : Boundary rest) :
    afterGaps identifier (' ' :: (n.toList ++ rest)) = some (n, rest) := by
  rw [afterGaps_blank, afterGaps_apply,
    skipGaps_of_none (gap_name (isName_of_isIdentifier named) rest), identifier_append named ends]

theorem readsStatement_declaration_none (k : DeclarationKind) {n : String}
    (named : isIdentifier n = true) : ReadsStatement (.declaration k n none) := by
  have text (rest : List Char) : (Statement.declaration k n none).text.toList ++ rest =
      k.keyword.toList ++ ' ' :: (n.toList ++ ';' :: rest) := by simp
  refine ⟨fun rest => ?_, fun rest => ?_⟩
  · rw [text]
    exact gap_name (isName_keyword k) _
  · have initial : optional (do sign '='; afterGaps expr) (';' :: rest) =
        some (none, ';' :: rest) :=
      optional_of_none (bind_of_none
        (sign_of_skipGaps (skipGaps_cons rest rfl (by decide)) (by decide)))
    rw [text]
    apply statement_of_keyword k (boundary_blank _)
    rw [declaration, bind_of_some (declarationKind_append k (boundary_blank _)),
      bind_of_some (declared_append named (boundary_cons rest rfl)), bind_of_some initial,
      bind_of_some (terminator_semicolon rest)]
    rfl

theorem readsStatement_declaration_some (k : DeclarationKind) {n : String}
    (named : isIdentifier n = true) {e : Expr} (reads : Reads e) :
    ReadsStatement (.declaration k n (some e)) := by
  have text (rest : List Char) : (Statement.declaration k n (some e)).text.toList ++ rest =
      k.keyword.toList ++ ' ' :: (n.toList ++ ' ' :: '=' :: ' ' ::
        (e.text.toList ++ ';' :: rest)) := by simp
  refine ⟨fun rest => ?_, fun rest => ?_⟩
  · rw [text]
    exact gap_name (isName_keyword k) _
  · have follows : Ends (';' :: rest) := ends_cons rest rfl
    have equals (t : List Char) : sign '=' (' ' :: '=' :: t) = some ((), t) :=
      sign_blank '=' t rfl (by decide)
    have initial : optional (do sign '='; afterGaps expr)
        (' ' :: '=' :: ' ' :: (e.text.toList ++ ';' :: rest)) =
          some (some e.reread, ';' :: rest) := by
      apply optional_of_some
      rw [bind_of_some (equals _), afterGaps_blank,
        afterGaps_of_begins expr (reads.begins follows.boundary), reads.whole follows]
    rw [text]
    apply statement_of_keyword k (boundary_blank _)
    rw [declaration, bind_of_some (declarationKind_append k (boundary_blank _)),
      bind_of_some (declared_append named (boundary_blank _)), bind_of_some initial,
      bind_of_some (terminator_semicolon rest)]
    rfl

theorem readsStatement_empty : ReadsStatement .empty := by
  refine ⟨fun rest => gap_cons_eq_none rest rfl (by decide), fun rest => ?_⟩
  have text : Statement.empty.text.toList ++ rest = ';' :: rest := rfl
  rw [text, statement_of_words (block_of_head rest (by decide)) (words_of_letter rest rfl)]
  exact orElse_of_some (bind_of_some (char_self _ _))

/-! ## Statements in sequence -/

/-- The statements after the first begin after a gap. -/
theorem skipGaps_intercalate (text : String) (texts : List String) (rest : List Char) :
    ∃ follow, (" ".intercalate (text :: texts)).toList ++ rest = text.toList ++ follow ∧
      skipGaps follow = skipGaps ((" ".intercalate texts).toList ++ rest) := by
  cases texts with
  | nil => exact ⟨rest, by simp, by simp⟩
  | cons next texts =>
      refine ⟨' ' :: ((" ".intercalate (next :: texts)).toList ++ rest), ?_, skipGaps_blank _⟩
      simp [String.intercalate_cons_cons]

/-- **Statements with a blank between them are read back in sequence.** -/
theorem repeated_statements {ss : List Statement} (reads : ∀ s ∈ ss, ReadsStatement s)
    {rest : List Char} (last : statement (skipGaps rest) = none) :
    repeated (spaced statement) (skipGaps ((" ".intercalate (Statement.texts ss)).toList ++ rest)) =
      (Statement.rereadAll ss, skipGaps rest) := by
  induction ss with
  | nil =>
      have noStatement : spaced statement (skipGaps rest) = none := bind_of_none last
      rw [Statement.texts, String.intercalate_nil, String.toList_empty, List.nil_append,
        repeated_of_none noStatement]
      rfl
  | cons s ss ih =>
      obtain ⟨first, others⟩ := List.forall_mem_cons.mp reads
      obtain ⟨follow, text, gaps⟩ := skipGaps_intercalate s.text (Statement.texts ss) rest
      have read : spaced statement (s.text.toList ++ follow) = some (s.reread, skipGaps follow) :=
        bind_of_some (first.reads follow)
      rw [Statement.texts, text, skipGaps_of_none (first.gap follow),
        repeated_of_some spaced_progresses read, gaps, ih others]
      rfl

theorem toList_braced (texts : List String) (rest : List Char) :
    (braced texts).toList ++ rest =
      '\x7b' :: ' ' :: ((" ".intercalate texts).toList ++ ' ' :: '\x7d' :: rest) := by
  simp [braced]

theorem block_of_repeated {s rest : List Char} {ss : List Statement}
    (read : repeated (spaced statement) (skipGaps s) = (ss, '\x7d' :: rest)) :
    block ('\x7b' :: s) = some (ss, rest) := by
  rw [block_eq, blockOf, bind_of_some (char_self _ _), bind_of_some (gaps_apply _)]
  apply (bind_of_some (congrArg some read)).trans
  rw [bind_of_some (char_self _ _)]
  rfl

theorem skipGaps_brace (rest : List Char) : skipGaps (' ' :: '\x7d' :: rest) = '\x7d' :: rest :=
  (skipGaps_blank _).trans (skipGaps_cons rest rfl (by decide))

/-- **The text of a block is read back.** -/
theorem block_braced {ss : List Statement} (reads : ∀ s ∈ ss, ReadsStatement s)
    (rest : List Char) :
    block ((braced (Statement.texts ss)).toList ++ rest) =
      some (Statement.rereadAll ss, rest) := by
  have last : statement (skipGaps (' ' :: '\x7d' :: rest)) = none := by
    rw [skipGaps_brace, statement_brace]
  rw [toList_braced]
  apply block_of_repeated
  rw [skipGaps_blank, repeated_statements reads last, skipGaps_brace]

/-- The semicolon may be missing before the brace that closes. -/
theorem block_result {e : Expr} (reads : Reads e) (rest : List Char) :
    block ('\x7b' :: ' ' :: ("return".toList ++ ' ' :: (e.text.toList ++ ' ' :: '\x7d' :: rest))) =
      some ([.result (some e.reread)], rest) := by
  have ends : Ends (' ' :: '\x7d' :: rest) :=
    ends_of_skipGaps (skipGaps_brace rest) rfl (boundary_blank _) (by simp)
  have noSemicolon : sign ';' (' ' :: '\x7d' :: rest) = none :=
    sign_of_skipGaps (skipGaps_brace rest) (by decide)
  have closes : terminator (' ' :: '\x7d' :: rest) = some ((), ' ' :: '\x7d' :: rest) := by
    rw [terminator, bind_of_some (optional_of_none noSemicolon)]
    rfl
  have read : spaced statement
      ("return".toList ++ ' ' :: (e.text.toList ++ ' ' :: '\x7d' :: rest)) =
        some (.result (some e.reread), '\x7d' :: rest) := by
    rw [spaced, bind_of_some (resultStatement_argument reads ends closes),
      bind_of_some (gaps_apply _), skipGaps_brace]
    rfl
  have last : spaced statement ('\x7d' :: rest) = none := bind_of_none (statement_brace rest)
  apply block_of_repeated
  rw [skipGaps_blank, skipGaps_of_none (gap_name rfl _), repeated_of_some spaced_progresses read,
    repeated_of_none last]

theorem readsStatement_block {ss : List Statement} (reads : ∀ s ∈ ss, ReadsStatement s) :
    ReadsStatement (.block ss) := by
  refine ⟨fun rest => ?_, fun rest => ?_⟩
  · rw [Statement.text, toList_braced]
    exact gap_cons_eq_none _ rfl (by decide)
  · apply orElse_of_some
    rw [map_apply, Statement.text, block_braced reads rest]
    rfl

end RowFilter.Script
