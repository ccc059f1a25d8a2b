import RowFilter.Proofs.Script.Cutting

/-!
# Every rule is local

The rules of the grammar are followed from the smallest to the largest.  A rule that has
to take something is solid (`Solid`), and one that closes what it has opened refuses the
beginning if it goes on into the rest (`Firm`).  Whatever a rule reads is balanced.

The operators before an operand are the one repetition that is followed by something that
has to be read, so they are followed one by one (`unary_append`).
-/

set_option autoImplicit false

namespace RowFilter.Script

open Reader Lexeme Grammar

variable {α β : Type} {Q : Nesting → Prop} {r : List Char}

/-! ## Rules with parts -/

section Rules

variable (ends : gap r = none)
include ends

/-! ### Lists -/

omit ends in
/-- A list is what stands between its two parentheses, a last comma included. -/
theorem listed_eq (element : Reader α) :
    listed element = (do
      char '('
      let elements ← (do
        gaps
        let elements ← separated element (do sign ','; gaps)
        let _ ← optional (sign ',')
        return elements)
      sign ')'
      return elements) := by
  simp only [listed, Reader.bind_assoc]
  funext s
  simp

theorem late_comma : Late Reaches (Balanced Q) Blank r (do sign ','; gaps) :=
  (late_sign ends (by decide)).bind_same balancedCut
    (fun {_} _ _ _ read => (total_gaps ends).path read) fun _ _ place => gaps_same ends place

/-- A list is refused if its closing parenthesis is behind the cut. -/
theorem firm_listed {element : Reader α}
    (solid : Solid Reaches (Balanced Nesting.Quiet) Blank r element) :
    Firm Reaches (Balanced Q) Blank r (listed element) := by
  have elements := solid.separated balancedCut
    (((late_comma ends).edge balancedCut).bind balancedCut fun _ => solid)
  rw [listed_eq]
  exact firm_bracketed ends id (by decide)
    ((total_gaps ends).bind balancedCut fun _ => elements.bind balancedCut fun _ =>
      ((late_sign ends (by decide)).solid.optional balancedCut).bind balancedCut fun _ =>
        .pure balancedCut _).toLocal
    (closes_sign ends (by decide))

/-- The colon before a type is not matched by a question mark. -/
theorem solid_parameter : Solid Reaches (Balanced Nesting.Quiet) Blank r parameter := by
  have colon : Late Reaches (Balanced Nesting.Quiet) Blank r (sign ':') :=
    late_afterGaps ends <| late_char ends (by decide) fun s =>
      balanced_cons (passage_of_isSingle s (by decide)) (by decide) fun _ quiet => quiet
  exact (late_identifier ends).solid.bind balancedCut fun _ =>
    (((colon.edge balancedCut).bind balancedCut fun _ =>
      (late_afterGaps ends (late_name ends)).solid).optional balancedCut).bind balancedCut
    fun _ => .pure balancedCut _

/-! ### Expressions -/

variable {E : Reader Expr} {B : Reader (List Statement)}
  (exprs : ∀ Q, Solid Reaches (Balanced Q) Blank r E)
  (blocks : ∀ Q, Solid Reaches (Balanced Q) Blank r B)

include blocks in
theorem solid_functionLiteral : Solid Reaches (Balanced Q) Blank r (functionLiteral B) := by
  have parameters : Edge Reaches (Balanced Q) Blank r (afterGaps (listed parameter)) :=
    (edge_gaps ends).bind_edge balancedCut fun _ =>
      (firm_listed ends (solid_parameter ends)).edge balancedCut
  exact (edge_asyncMark ends).bind balancedCut fun _ =>
    ((late_keyword ends (by decide)).edge balancedCut).bind balancedCut fun _ =>
    ((late_sign ends (by decide)).optional balancedCut).bind balancedCut fun _ =>
    ((late_afterGaps ends (late_identifier ends)).optional balancedCut).bind balancedCut fun _ =>
    parameters.bind balancedCut fun _ =>
    (solid_afterGaps ends (blocks _)).bind balancedCut fun _ => .pure balancedCut _

include exprs blocks in
theorem solid_arrowFunction : Solid Reaches (Balanced Q) Blank r (arrowFunction E B) := by
  have parameters : Firm Reaches (Balanced Q) Blank r
      ((do let only ← identifier; return [only]) <|> listed parameter : Reader (List String)) :=
    ((late_identifier ends).map balancedCut fun only => [only]).orElse_firm
      (firm_listed ends (solid_parameter ends))
  have arrow : Edge Reaches (Balanced Q) Blank r (word "=>") :=
    (token_word (Nat.le_refl _) (Nat.le_succ _)).edge balancedCut fun s _ rest read => by
      rw [word_eq_some_iff.mp read]
      exact balanced_word (by decide) rest
  have body : Solid Reaches (Balanced Q) Blank r (Body.block <$> B <|> Body.expression <$> E) :=
    ((blocks Q).map balancedCut _).orElse ((exprs Q).map balancedCut _)
  exact (edge_asyncMark ends).bind balancedCut fun _ =>
    (parameters.edge balancedCut).bind balancedCut fun _ =>
    (edge_gaps ends).bind balancedCut fun _ => arrow.bind balancedCut fun _ =>
    (edge_gaps ends).bind balancedCut fun _ => body.bind balancedCut fun _ => .pure balancedCut _

include exprs in
theorem firm_parenthesized : Firm Reaches (Balanced Q) Blank r (parenthesized E) :=
  firm_bracketed ends id (by decide) (solid_afterGaps ends (exprs _)).toLocal
    (closes_sign ends (by decide))

include exprs blocks in
theorem solid_primary : Solid Reaches (Balanced Q) Blank r (primary E B) :=
  (solid_functionLiteral ends blocks).orElse <| (solid_arrowFunction ends exprs blocks).orElse <|
    (firm_parenthesized ends exprs).toSolid.orElse <|
    ((late_literal ends).solid.map balancedCut _).orElse
      ((late_identifier ends).solid.map balancedCut _)

include exprs in
theorem solid_access : Solid Reaches (Balanced Q) Blank r (access E) := by
  refine solid_afterGaps ends (.orElse ?_ (.orElse ?_ ?_))
  · have point : Late Reaches (Balanced Q) Blank r (char '.') :=
      late_char ends (by decide) (balanced_neutral (by decide))
    exact (point.edge balancedCut).bind balancedCut fun _ =>
      (late_afterGaps ends (late_name ends)).solid.bind balancedCut fun _ => .pure balancedCut _
  · exact (firm_bracketed ends (fun key => (Expr.index · key)) (by decide)
      (solid_afterGaps ends (exprs _)).toLocal (closes_sign ends (by decide))).toSolid
  · exact (firm_listed ends (exprs _)).toSolid.bind balancedCut fun _ => .pure balancedCut _

include exprs blocks in
theorem solid_postfixed : Solid Reaches (Balanced Q) Blank r (postfixed E B) :=
  (solid_primary ends exprs blocks).bind balancedCut fun _ =>
    ((solid_access ends exprs).many balancedCut).bind balancedCut fun _ => .pure balancedCut _

omit ends in
theorem unary_of_mark {s rest : List Char} {op : UnaryOp}
    (mark : unaryMark s = some (op, rest)) :
    unary E B s = (unary E B rest).map fun found => (.unary op found.1, found.2) := by
  simp only [unary, bind_apply, many_of_some unaryMark_progresses mark]
  simp only [many, Option.map_some, Option.bind_some]
  cases postfixed E B (repeated unaryMark rest).2 <;> rfl

omit ends in
/-- Without a mark, a unary expression is its operand. -/
theorem unary_of_no_mark {s : List Char} (mark : unaryMark s = none) :
    unary E B s = postfixed E B s := by
  simp only [unary, bind_apply, many_of_none mark, Option.bind_some]
  cases postfixed E B s <;> rfl

omit ends in
/-- A character that is read as an operator before an operand begins no operand. -/
theorem postfixed_of_mark {s rest : List Char} {op : UnaryOp}
    (mark : unaryMark s = some (op, rest)) :
    ∃ c s', s = c :: s' ∧ ∀ t, postfixed E B (c :: t) = none := by
  obtain ⟨op', middle, read, _⟩ := bind_eq_some mark
  rw [unaryOp_spelled read]
  cases op' <;> exact ⟨_, _, rfl, fun _ => bind_of_none rfl⟩

/-- The operators before an operand are passed over on the way to it. -/
theorem unary_operand {s rest : List Char} {e : Expr} (read : unary E B s = some (e, rest)) :
    ∃ middle e', Balanced Q s middle ∧ postfixed E B middle = some (e', rest) := by
  obtain ⟨ops, middle, marks, read⟩ := bind_eq_some read
  obtain ⟨e', _, operand, last⟩ := bind_eq_some read
  cases last
  have left : (repeated unaryMark s).2 = middle := congrArg Prod.snd (Option.some.inj marks)
  refine ⟨middle, e', ?_, operand⟩
  rw [← left]
  exact balancedCut.path_repeated unaryMark_progresses (edge_unaryMark ends).path s

include exprs blocks in
theorem unary_of_blank {u : List Char} (blank : Blank u) : unary E B u = none := by
  have operand := solid_postfixed (Q := Nowhere) ends exprs blocks
  cases read : unary E B u with
  | none => rfl
  | some found =>
      obtain ⟨middle, e', passed, read'⟩ := unary_operand (Q := Nowhere) ends read
      rw [operand.empty (reachesCut.spent passed.1 blank)] at read'
      cases read'

include exprs blocks in
theorem unary_progresses : Progresses (unary E B) := by
  intro s e rest read
  have operand := solid_postfixed (Q := Nowhere) ends exprs blocks
  obtain ⟨middle, e', passed, read'⟩ := unary_operand (Q := Nowhere) ends read
  exact Nat.lt_of_lt_of_le (operand.takes read') (reachesCut.length_le passed.1)

include exprs blocks in
/-- Where an operator before an operand is not read from the beginning as from the whole,
no operand follows it in the beginning. -/
theorem unary_of_used {u : List Char} (place : Reaches (u ++ r) r)
    (near : ∀ ⦃op rest⦄, unaryMark (u ++ r) = some (op, rest) → rest.length ≤ r.length)
    (used : ∀ ⦃op v⦄, unaryMark u = some (op, v) → Blank v) :
    (∀ e v, unary E B (u ++ r) = some (e, v ++ r) → unary E B u = some (e, v)) ∧
      (unary E B (u ++ r) = none → unary E B u = none) := by
  have operand := solid_postfixed (Q := Nowhere) ends exprs blocks
  have beyond {op : UnaryOp} {rest : List Char} (mark : unaryMark (u ++ r) = some (op, rest))
      (e : Expr) (v : List Char) : unary E B (u ++ r) ≠ some (e, v ++ r) := by
    intro whole
    rw [unary_of_mark mark] at whole
    obtain ⟨⟨e', left⟩, inner, found⟩ := Option.map_eq_some_iff.mp whole
    have shorter := unary_progresses ends exprs blocks inner
    have reached := near mark
    have longer := congrArg (fun found => found.2.length) found
    simp only [List.length_append] at longer
    omega
  cases read : unaryMark u with
  | some found =>
      have refused : unary E B u = none := by
        rw [unary_of_mark read, unary_of_blank ends exprs blocks (used read), Option.map_none]
      refine ⟨fun e v whole => ?_, fun _ => refused⟩
      cases mark : unaryMark (u ++ r) with
      | some found => exact absurd whole (beyond mark e v)
      | none =>
          obtain ⟨c, s, rfl, noOperand⟩ := postfixed_of_mark (E := E) (B := B) read
          rw [unary_of_no_mark mark, List.cons_append, noOperand] at whole
          cases whole
  | none =>
      rw [unary_of_no_mark read]
      cases mark : unaryMark (u ++ r) with
      | none =>
          rw [unary_of_no_mark mark]
          exact ⟨fun e v => operand.stays place, operand.refuses place⟩
      | some found =>
          refine ⟨fun e v whole => absurd whole (beyond mark e v), fun _ => ?_⟩
          obtain ⟨d, s, same, noOperand⟩ := postfixed_of_mark (E := E) (B := B) mark
          cases u with
          | nil => exact operand.empty reachesCut.nil
          | cons c u =>
              rw [(List.cons.inj same).1]
              exact noOperand u

include exprs blocks in
/-- Operators before an operand are read one by one. -/
theorem unary_append {u : List Char} (place : Reaches (u ++ r) r) :
    (∀ e v, unary E B (u ++ r) = some (e, v ++ r) → unary E B u = some (e, v)) ∧
      (unary E B (u ++ r) = none → unary E B u = none) := by
  have operand := solid_postfixed (Q := Nowhere) ends exprs blocks
  have marks := edge_unaryMark (Q := Nowhere) ends
  rcases marks.edge place with same | ⟨near, used⟩
  · cases read : unaryMark u with
    | none =>
        have whole := same.append_of_none read
        rw [unary_of_no_mark read, unary_of_no_mark whole]
        exact ⟨fun e v => operand.stays place, operand.refuses place⟩
    | some found =>
        obtain ⟨op, v⟩ := found
        have whole := same.append_of_some read
        have place' : Reaches (v ++ r) r :=
          reachesCut.place_of_path place (marks.path whole).1
        obtain ⟨stays, refuses⟩ := unary_append place'
        rw [unary_of_mark read, unary_of_mark whole]
        refine ⟨fun e w marked => ?_, fun refused => ?_⟩
        · obtain ⟨⟨e', rest⟩, inner, found⟩ := Option.map_eq_some_iff.mp marked
          cases found
          rw [stays e' w inner, Option.map_some]
        · rw [Option.map_eq_none_iff] at refused ⊢
          exact refuses refused
  · exact unary_of_used ends exprs blocks place near used
termination_by u.length
decreasing_by exact unaryMark_progresses read

include exprs blocks in
theorem solid_unary : Solid Reaches (Balanced Q) Blank r (unary E B) where
  path s e rest read := by
    obtain ⟨middle, e', passed, read'⟩ := unary_operand ends read
    exact balancedCut.trans passed ((solid_postfixed ends exprs blocks).path read')
  stays u e v place read := (unary_append ends exprs blocks place).1 e v read
  refuses u place refused := (unary_append ends exprs blocks place).2 refused
  takes := unary_progresses ends exprs blocks
  empty u blank := unary_of_blank ends exprs blocks blank

/-! ### Operations -/

theorem solid_continuation {operand : Reader Expr} {operator : Reader BinaryOp}
    (level : operator ∈ levels) (solid : Solid Reaches (Balanced Q) Blank r operand) :
    Solid Reaches (Balanced Q) Blank r (continuation operand operator) :=
  (edge_operator ends level).bind balancedCut fun _ =>
    (solid_afterGaps ends solid).bind balancedCut fun _ => .pure balancedCut _

theorem solid_ladder {operand : Reader Expr}
    (solid : Solid Reaches (Balanced Q) Blank r operand) :
    ∀ {operators : List (Reader BinaryOp)}, operators ⊆ levels →
      Solid Reaches (Balanced Q) Blank r (ladder operand operators)
  | [], _ => solid
  | operator :: operators, sub => by
      have tighter := solid_ladder solid (List.subset_of_cons_subset sub)
      have others := solid_continuation ends (sub List.mem_cons_self) tighter
      exact tighter.bind balancedCut fun _ =>
        (others.many balancedCut).bind balancedCut fun _ => .pure balancedCut _

/-! ### Conditionals -/

omit ends in
/-- The branches of a conditional are what stands between its two signs, and what comes after.
-/
theorem branches_eq (E : Reader Expr) :
    branches E = (do
      (do sign '?'; notNext (fun c => c == '?'))
      let consequent ← afterGaps E
      sign ':'
      let alternate ← afterGaps E
      return (consequent, alternate)) := by
  simp only [branches, Reader.bind_assoc]

omit ends in
/-- A question mark that is not doubled is counted. -/
theorem unmatched_question {s rest : List Char}
    (read : (do sign '?'; notNext (fun c => c == '?') : Reader Unit) s = some ((), rest))
    (n : Nesting) : unmatched n s = unmatched n.ask rest := by
  obtain ⟨_, middle, asked, next⟩ := bind_eq_some read
  obtain ⟨_, _, skipped, asked⟩ := bind_eq_some asked
  cases skipped
  have same := notNext_eq_some next
  subst same
  have single : middle.head? ≠ some '?' := by
    intro double
    obtain ⟨t, rfl⟩ := List.head?_eq_some_iff.mp double
    cases next
  rw [← unmatched_skipGaps s, char_eq_some asked]
  exact unmatched_of_turn (passage_of_isSingle _ (by decide)) (.inr single) rfl

omit ends in
/-- The gaps before a colon open and close nothing. -/
theorem unmatched_sign_colon {s rest : List Char} (read : sign ':' s = some ((), rest))
    (n : Nesting) : unmatched n s = unmatched n (':' :: rest) := by
  obtain ⟨_, _, skipped, found⟩ := bind_eq_some read
  cases skipped
  rw [← unmatched_skipGaps s, char_eq_some found]

include exprs in
theorem solid_branches : Solid Reaches (Balanced Q) Blank r (branches E) := by
  have mark {c : Char} (single : isSingle c = true) :
      Late Reaches (Balanced Nowhere) Blank r (sign c) :=
    late_afterGaps ends <| late_char ends single fun s =>
      reaches_cons (passage_of_isSingle s single)
  have opener : Edge Reaches (Balanced Nowhere) Blank r
      (do sign '?'; notNext (fun c => c == '?')) :=
    ((mark (by decide)).edge balancedCut).bind_edge balancedCut fun _ =>
      edge_notNext balancedCut _
  have body := (solid_afterGaps ends (exprs Everywhere)).toLocal
  have closer (consequent : Expr) : Solid Reaches (Balanced Nowhere) Blank r
      (do sign ':'; let alternate ← afterGaps E; return (consequent, alternate)) :=
    ((mark (by decide)).edge balancedCut).bind balancedCut fun _ =>
      (solid_afterGaps ends (exprs _)).bind balancedCut fun _ => .pure balancedCut _
  have whole : Solid Reaches (Balanced Nowhere) Blank r (branches E) := by
    rw [branches_eq]
    refine opener.bind balancedCut fun _ =>
      solid_closed (n := .colon) (Q := Everywhere) trivial body closer ?_
    intro a s b rest read
    obtain ⟨_, middle, colon, _⟩ := bind_eq_some read
    rw [unmatched_sign_colon colon,
      unmatched_of_found (passage_of_isSingle _ (by decide)) (by decide) rfl]
    exact Option.some_ne_none _
  refine { whole with path := fun s b rest read => ?_ }
  have reached := (whole.path read).1
  rw [branches_eq] at read
  refine balanced_enclosed body (fun _ => trivial) unmatched_question ?_ reached read
  intro a s b rest read n
  obtain ⟨_, middle, colon, read⟩ := bind_eq_some read
  obtain ⟨alternate, _, last, same⟩ := bind_eq_some read
  cases same
  have balanced := (solid_afterGaps ends (exprs Everywhere)).path last
  calc unmatched n.ask s = unmatched n.ask (':' :: middle) := unmatched_sign_colon colon _
    _ = unmatched n middle :=
      unmatched_of_turn (passage_of_isSingle _ (by decide)) (.inl (by decide)) n.answer_ask
    _ = unmatched n rest := balanced.2 n trivial

include exprs blocks in
theorem solid_expression : Solid Reaches (Balanced Q) Blank r (expression E B) :=
  (solid_ladder ends (solid_unary ends exprs blocks) (List.Subset.refl _)).bind balancedCut
    fun _ => ((solid_branches ends exprs).optional balancedCut).bind balancedCut fun
      | some _ => .pure balancedCut _
      | none => .pure balancedCut _

/-! ### Statements -/

theorem total_terminator : Total Reaches (Balanced Q) r terminator :=
  ((late_sign ends (by decide)).solid.optional balancedCut).bind balancedCut fun _ =>
    .pure balancedCut _

include exprs in
theorem solid_resultStatement : Solid Reaches (Balanced Q) Blank r (resultStatement E) :=
  (late_keyword ends (by decide)).solid.bind balancedCut fun _ =>
    ((solid_afterGaps ends (exprs _)).optional balancedCut).bind balancedCut fun _ =>
    (total_terminator ends).bind balancedCut fun _ => .pure balancedCut _

theorem late_declarationKind : Late Reaches (Balanced Q) Blank r declarationKind :=
  ((late_keyword ends (by decide)).map balancedCut fun _ => DeclarationKind.let).orElse <|
    ((late_keyword ends (by decide)).map balancedCut fun _ => DeclarationKind.const).orElse
      ((late_keyword ends (by decide)).map balancedCut fun _ => DeclarationKind.var)

include exprs in
theorem solid_declaration : Solid Reaches (Balanced Q) Blank r (declaration E) := by
  have initial : Solid Reaches (Balanced Q) Blank r (do sign '='; afterGaps E) :=
    ((late_sign ends (by decide)).edge balancedCut).bind balancedCut fun _ =>
      solid_afterGaps ends (exprs _)
  exact ((late_declarationKind ends).edge balancedCut).bind balancedCut fun _ =>
    (late_afterGaps ends (late_identifier ends)).solid.bind balancedCut fun _ =>
    (initial.optional balancedCut).bind balancedCut fun _ =>
    (total_terminator ends).bind balancedCut fun _ => .pure balancedCut _

include exprs blocks in
theorem solid_statementOf : Solid Reaches (Balanced Q) Blank r (statementOf E B) := by
  have empty : Late Reaches (Balanced Q) Blank r (char ';') :=
    late_char ends (by decide) (balanced_neutral (by decide))
  exact ((blocks Q).map balancedCut _).orElse <| (solid_resultStatement ends exprs).orElse <|
    (solid_declaration ends exprs).orElse <|
    (empty.solid.bind balancedCut fun _ => .pure balancedCut Statement.empty).orElse <|
    (exprs Q).bind balancedCut fun _ =>
      (total_terminator ends).bind balancedCut fun _ => .pure balancedCut _

theorem solid_spaced {statement : Reader Statement}
    (solid : Solid Reaches (Balanced Q) Blank r statement) :
    Solid Reaches (Balanced Q) Blank r (spaced statement) :=
  solid.bind balancedCut fun _ => (total_gaps ends).bind balancedCut fun _ => .pure balancedCut _

omit ends in
/-- A block is what stands between its two braces. -/
theorem blockOf_eq (statement : Reader Statement) :
    blockOf statement = (do
      char '\x7b'
      let statements ← (do gaps; many (spaced statement))
      char '\x7d'
      return statements) := by
  simp only [blockOf, Reader.bind_assoc]

theorem solid_blockOf {statement : Reader Statement}
    (solid : ∀ Q, Solid Reaches (Balanced Q) Blank r statement) :
    Solid Reaches (Balanced Q) Blank r (blockOf statement) := by
  rw [blockOf_eq]
  exact (firm_bracketed ends id (by decide)
    ((total_gaps ends).bind balancedCut fun _ =>
      (solid_spaced ends (solid _)).many balancedCut).toLocal
    (closes_char ends (by decide))).toSolid

end Rules

/-! ## The whole grammar -/

section Whole

variable (ends : gap r = none)
include ends

/-- Expressions and blocks of any depth that end before the cut are read in the part as in the
whole. -/
theorem solid_exprWithin_blockWithin : ∀ n,
    (∀ Q, Solid Reaches (Balanced Q) Blank r (exprWithin n)) ∧
      ∀ Q, Solid Reaches (Balanced Q) Blank r (blockWithin n)
  | 0 => ⟨fun _ => .refuse, fun _ => .refuse⟩
  | n + 1 => by
      obtain ⟨exprs, blocks⟩ := solid_exprWithin_blockWithin n
      exact ⟨fun _ => solid_expression ends exprs blocks,
        fun _ => solid_blockOf ends fun _ => solid_statementOf ends exprs blocks⟩

theorem solid_expr : Solid Reaches (Balanced Q) Blank r expr :=
  .of_bounded exprWithin_eq_expr fun n => (solid_exprWithin_blockWithin ends n).1 Q

theorem solid_block : Solid Reaches (Balanced Q) Blank r block :=
  .of_bounded blockWithin_eq_block fun n => (solid_exprWithin_blockWithin ends n).2 Q

theorem solid_statement : Solid Reaches (Balanced Q) Blank r statement :=
  solid_statementOf ends (fun _ => solid_expr ends) fun _ => solid_block ends

/-- The rule for programs: any number of statements after a gap. -/
theorem total_statements :
    Total Reaches (Balanced Q) r (do gaps; many (spaced statement)) :=
  (total_gaps ends).bind balancedCut fun _ =>
    (solid_spaced ends (solid_statement ends)).many balancedCut

end Whole

end RowFilter.Script
