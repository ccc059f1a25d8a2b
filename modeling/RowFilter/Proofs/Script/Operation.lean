import RowFilter.Proofs.Script.Listing
import RowFilter.Proofs.Script.Operand

/-!
# Accesses and operations in their places

The text of an access or of an operation is read back if the texts of its parts are.
Accesses are read from the left, one step at a time, so a whole chain of them is read back
by induction on the expression.  A binary operator is taken at its own level: the tighter
levels refuse its token, and nothing that follows the operation is taken at that level or
at a looser one.
-/

set_option autoImplicit false

namespace RowFilter.Script

open Reader Lexeme Grammar

theorem isCompound_of_isUnfitReceiver {e : Expr} (fit : e.isUnfitReceiver = false) :
    e.isCompound = false := by
  cases e <;> first | rfl | cases fit

/-! ## Accesses -/

section Access

variable {rest : List Char}

/-- A name after a point is read as a member. -/
theorem access_point {n : String} {t : List Char} (named : isName n = true)
    (next : skipGaps t = n.toList ++ rest) (ends : Boundary rest) :
    access expr ('.' :: t) = some ((.member · n), rest) := by
  have read : afterGaps name t = some (n, rest) := by
    rw [afterGaps_apply, next, name_append named ends]
  rw [access, afterGaps_apply, skipGaps_cons _ rfl (by decide)]
  exact orElse_of_some ((bind_of_some (char_self _ _)).trans (bind_of_some read))

/-- An expression in brackets is read as a key. -/
theorem access_bracket {k : Expr} (reads : Reads k) :
    access expr ('[' :: (k.text.toList ++ ']' :: rest)) = some ((.index · k.reread), rest) := by
  have closer : Ends (']' :: rest) := ends_cons rest rfl
  have opened : char '[' ('[' :: (k.text.toList ++ ']' :: rest)) =
      some ((), k.text.toList ++ ']' :: rest) := by simp
  have key : afterGaps expr (k.text.toList ++ ']' :: rest) = some (k.reread, ']' :: rest) := by
    rw [afterGaps_of_begins expr (reads.begins closer.boundary), reads.whole closer]
  rw [access, afterGaps_apply, skipGaps_cons _ rfl (by decide),
    orElse_of_none (bind_of_none (by simp))]
  refine orElse_of_some ((bind_of_some opened).trans ((bind_of_some key).trans ?_))
  rw [bind_of_some (sign_cons ']' rest rfl (by decide))]
  rfl

theorem Reads.element {e : Expr} (reads : Reads e) : ReadsElement expr e.text e.reread := by
  have ends {c : Char} {t : List Char} (closer : c = ',' ∨ c = ')') : Ends (c :: t) := by
    rcases closer with rfl | rfl <;> exact ends_cons t rfl
  exact ⟨fun closer => (reads.begins (ends closer).boundary).gap, fun closer =>
    ⟨_, reads.whole (ends closer), skipGaps_closer closer _⟩⟩

theorem texts_eq_map (es : List Expr) : Expr.texts es = es.map Expr.text := by
  induction es with
  | nil => rfl
  | cons e es ih => rw [Expr.texts, ih, List.map_cons]

theorem rereadAll_eq_map (es : List Expr) : Expr.rereadAll es = es.map Expr.reread := by
  induction es with
  | nil => rfl
  | cons e es ih => rw [Expr.rereadAll, ih, List.map_cons]

/-- Arguments are read back if each of them is. -/
theorem listed_arguments {es : List Expr} (reads : ∀ e ∈ es, Reads e) :
    listed expr ('(' :: ((", ".intercalate (Expr.texts es)).toList ++ ')' :: rest)) =
      some (Expr.rereadAll es, rest) := by
  rw [texts_eq_map, rereadAll_eq_map]
  exact listed_append (equalFrame.expr 0) (expr_separator · rfl)
    (fun e member => (reads e member).element) rest

/-- A list of expressions is read as the arguments of a call. -/
theorem access_parenthesis {t : List Char} {es : List Expr}
    (read : listed expr ('(' :: t) = some (es, rest)) :
    access expr ('(' :: t) = some ((.call · es), rest) := by
  rw [access, afterGaps_apply, skipGaps_cons _ rfl (by decide),
    orElse_of_none (bind_of_none (by simp)), orElse_of_none (bind_of_none (by simp))]
  exact bind_of_some read

end Access

/-- An access to an expression that is read back. -/
theorem Reads.access {o e : Expr} {step : Expr → Expr} (reads : Reads o)
    (tail : List Char → List Char)
    (text : ∀ rest, e.text.toList ++ rest =
      (grouped o.isUnfitReceiver o.text).toList ++ tail rest)
    (same : e.reread = step o.reread)
    (breaks : ∀ {rest}, Breaks rest → Breaks (tail rest))
    (boundary : ∀ rest, Boundary (tail rest))
    (read : ∀ {rest}, Boundary rest → access expr (tail rest) = some (step, rest)) : Reads e := by
  refine .of_receiver ?_ ?_ ?_
  · intro rest _
    rw [text]
    exact reads.grouped_begins _ (boundary rest)
  · intro rest _
    rw [text]
    exact reads.grouped_mark isCompound_of_isUnfitReceiver (boundary rest)
  · intro rest follows
    rw [text, reads.receiver (breaks follows), accesses_of_some (read follows.boundary), same]

theorem Reads.member {o : Expr} (reads : Reads o) {n : String} (named : isName n = true) :
    Reads (.member o n) :=
  reads.access (fun rest => '.' :: (n.toList ++ rest)) (fun rest => by simp)
    rfl (fun _ => breaks_point _) (fun _ => boundary_cons _ rfl)
    (access_point named (skipGaps_of_none (gap_name named _)))

theorem Reads.index {o k : Expr} (reads : Reads o) (key : Reads k) : Reads (.index o k) :=
  reads.access (fun rest => '[' :: (k.text.toList ++ ']' :: rest))
    (fun rest => by simp) rfl (fun _ => breaks_bracket _)
    (fun _ => boundary_cons _ rfl) fun _ => access_bracket key

theorem Reads.call {f : Expr} {es : List Expr} (reads : Reads f) (arguments : ∀ e ∈ es, Reads e) :
    Reads (.call f es) :=
  reads.access (fun rest => '(' :: ((", ".intercalate (Expr.texts es)).toList ++ ')' :: rest))
    (fun rest => by simp) rfl
    (fun follows => breaks_parenthesis
      (listed_closing (fun found => (balancedFrame found).expr 0) (listed_arguments arguments))
      follows.arrow)
    (fun _ => boundary_cons _ rfl) fun _ => access_parenthesis (listed_arguments arguments)

/-! ## Unary operators -/

theorem unaryMark_token (op : UnaryOp) {s : List Char} (begins : Begins s) :
    unaryMark (op.token.toList ++ s) = some (op, s) := by
  have notEquals : notNext (fun c => c == '=') s = some ((), s) := by
    cases s with
    | nil => rfl
    | cons c s =>
        have other : c ≠ '=' := fun same => begins.equals (congrArg some same)
        simp [other]
  have read : unaryOp (op.token.toList ++ s) = some (op, s) := by
    cases op with
    | not =>
        exact orElse_of_some ((bind_of_some (char_self _ _)).trans (bind_of_some notEquals))
    | negate => rfl
    | plus => rfl
    | bitNot => rfl
  rw [unaryMark, bind_of_some read, bind_of_some (gaps_apply s), begins.skipGaps]
  rfl

theorem unary_token (op : UnaryOp) {s rest : List Char} {e : Expr} (begins : Begins s)
    (mark : unaryMark s = none) (read : postfixed expr block s = some (e, rest)) :
    unary expr block (op.token.toList ++ s) = some (.unary op e, rest) := by
  have ops : many unaryMark (op.token.toList ++ s) = some ([op], s) := by
    rw [many_of_some unaryMark_progresses (unaryMark_token op begins), many_of_none mark]
    rfl
  rw [unary, bind_of_some ops, bind_of_some read]
  rfl

theorem Reads.unary {a : Expr} (op : UnaryOp) (reads : Reads a) : Reads (.unary op a) := by
  have text (rest : List Char) : (Expr.unary op a).text.toList ++ rest =
      op.token.toList ++ ((grouped a.isCompound a.text).toList ++ rest) := by simp
  refine .of_branch ?_ rfl rfl ?_
  · intro rest _
    rw [text]
    cases op <;> exact begins_cons _ rfl
  · intro rest stops silent
    rw [text]
    exact ladder_pass (unary_token op (reads.grouped_begins _ stops.boundary)
      (reads.grouped_mark id stops.boundary) (reads.operand stops)) silent

/-! ## Binary operators -/

/-- Levels that read nothing from what follows may be put before others. -/
theorem ladder_append {operand : Reader Expr} {s rest : List Char} {e : Expr}
    {looser tighter : List (Reader BinaryOp)}
    (read : ladder operand tighter s = some (e, rest))
    (silent : ∀ operator ∈ looser, afterGaps operator rest = none) :
    ladder operand (looser ++ tighter) s = some (e, rest) := by
  induction looser with
  | nil => exact read
  | cons operator looser ih =>
      obtain ⟨first, others⟩ := List.forall_mem_cons.mp silent
      exact chain_pass (ih others) first

/-- A chain with one operator is one operation. -/
theorem chain_once {operand : Reader Expr} {operator : Reader BinaryOp}
    (progresses : Progresses (continuation operand operator)) {s middle after rest : List Char}
    {l r : Expr} {op : BinaryOp} (left : operand s = some (l, middle))
    (token : afterGaps operator middle = some (op, after))
    (right : afterGaps operand after = some (r, rest))
    (silent : afterGaps operator rest = none) :
    chain operand operator s = some (.binary l op r, rest) := by
  have step : continuation operand operator middle = some ((op, r), rest) :=
    (bind_of_some token).trans (bind_of_some right)
  have last : continuation operand operator rest = none := bind_of_none silent
  have steps : many (continuation operand operator) middle = some ([(op, r)], rest) := by
    rw [many_of_some progresses step, many_of_none last]
    rfl
  rw [chain, bind_of_some left, bind_of_some steps]
  rfl

/-- The level of an operator, between the looser ones and the tighter ones. -/
theorem levels_split (op : BinaryOp) : ∃ operator,
    levels = levels.take op.level ++ operator :: levels.drop (op.level + 1) ∧
      ∀ t, operator (op.token.toList ++ ' ' :: t) = some (op, ' ' :: t) := by
  obtain ⟨operator, found⟩ : ∃ operator, levels[op.level]? = some operator := by
    have read := level_reads op []
    cases found : levels[op.level]? with
    | none =>
        rw [found] at read
        cases read
    | some operator => exact ⟨operator, rfl⟩
  refine ⟨operator, ?_, fun t => ?_⟩
  · obtain ⟨within, same⟩ := List.getElem?_eq_some_iff.mp found
    rw [← same, List.getElem_cons_drop, List.take_append_drop]
  · have read := level_reads op t
    rw [found] at read
    exact Option.some.inj read

theorem continuation_progresses {operator : Reader BinaryOp} {tighter : List (Reader BinaryOp)}
    (level : operator ∈ levels) (sub : tighter ⊆ levels) :
    Progresses (continuation (ladder (unary expr block) tighter) operator) :=
  Parallel.progresses_of_equal <| equalFrame.continuation (d := 0)
    (equalFrame.ladder (d := 0) (equalFrame.unary (d := 0) equalFrame.expr equalFrame.block)
      sub) level

theorem afterGaps_token (p : Reader BinaryOp) (op : BinaryOp) (t : List Char) :
    afterGaps p (' ' :: (op.token.toList ++ ' ' :: t)) = p (op.token.toList ++ ' ' :: t) := by
  rw [afterGaps_blank, afterGaps_apply, skipGaps_of_none (gap_token op t)]

theorem Reads.binary {l r : Expr} (left : Reads l) (op : BinaryOp) (right : Reads r) :
    Reads (.binary l op r) := by
  have text (rest : List Char) : (Expr.binary l op r).text.toList ++ rest =
      (grouped l.isCompound l.text).toList ++
        ' ' :: (op.token.toList ++ ' ' :: ((grouped r.isCompound r.text).toList ++ rest)) := by
    simp
  refine .of_branch ?_ rfl rfl ?_
  · intro rest _
    rw [text]
    exact left.grouped_begins _ (boundary_blank _)
  · intro rest stops silent
    obtain ⟨operator, split, reads⟩ := levels_split op
    let after := (grouped r.isCompound r.text).toList ++ rest
    have tighter := List.all_eq_true.mp (tighter_refuse op after)
    have sub : levels.drop (op.level + 1) ⊆ levels := List.drop_subset _ _
    have follows := stops_token op after
    have level : operator ∈ levels := by
      rw [split]
      exact List.mem_append_right _ List.mem_cons_self
    rw [text, split]
    have operated := (afterGaps_token operator op after).trans (reads after)
    refine ladder_append (chain_once (continuation_progresses level sub) ?_ operated ?_
      (silent operator level)) fun o member => silent o (List.mem_of_mem_take member)
    · refine ladder_pass (unary_of_postfixed (left.grouped_mark id follows.boundary)
        (left.operand follows)) fun o member => ?_
      rw [afterGaps_token]
      exact Option.isNone_iff_eq_none.mp (tighter o member)
    · rw [afterGaps_blank, afterGaps_of_begins _ (right.grouped_begins _ stops.boundary)]
      exact ladder_pass (unary_of_postfixed (right.grouped_mark id stops.boundary)
        (right.operand stops)) fun o member => silent o (sub member)

/-! ## Conditionals -/

/-- The branches of a conditional between blanks. -/
theorem branches_blank {c a : Expr} {s t rest : List Char} (begins : Begins s)
    (consequent : expr s = some (c, ' ' :: ':' :: ' ' :: t)) (begins' : Begins t)
    (alternate : expr t = some (a, rest)) :
    branches expr (' ' :: '?' :: ' ' :: s) = some ((c, a), rest) := by
  have part {s follow : List Char} {e : Expr} (begins : Begins s)
      (read : expr s = some (e, follow)) :
      afterGaps expr (' ' :: s) = some (e, follow) := by
    rw [afterGaps_blank, afterGaps_of_begins _ begins, read]
  have single (s : List Char) : notNext (fun c => c == '?') (' ' :: s) = some ((), ' ' :: s) := rfl
  rw [branches, bind_of_some (sign_blank '?' _ rfl (by decide)), bind_of_some (single _),
    bind_of_some (part begins consequent), bind_of_some (sign_blank ':' _ rfl (by decide)),
    bind_of_some (part begins' alternate)]
  rfl

/-- A conditional is read where its test is read up to the question mark. -/
theorem expr_conditional {e c a : Expr} {u s t rest : List Char}
    (test : ladder (unary expr block) levels u = some (e, ' ' :: '?' :: ' ' :: s))
    (begins : Begins s) (consequent : expr s = some (c, ' ' :: ':' :: ' ' :: t))
    (begins' : Begins t) (alternate : expr t = some (a, rest)) :
    expr u = some (.conditional e c a, rest) := by
  rw [expr_eq, expression, bind_of_some test,
    bind_of_some (optional_of_some (branches_blank begins consequent begins' alternate))]
  rfl

theorem Reads.branch_whole {e : Expr} (reads : Reads e) {rest : List Char} (ends : Ends rest) :
    expr ((grouped e.isUnfitBranch e.text).toList ++ rest) = some (e.reread, rest) :=
  expr_of_ladder (reads.branch ends.toStops ends.operators) ends.branches

theorem Reads.conditional {t c a : Expr} (test : Reads t) (consequent : Reads c)
    (alternate : Reads a) : Reads (.conditional t c a) := by
  have text (rest : List Char) : (Expr.conditional t c a).text.toList ++ rest =
      (grouped t.isUnfitBranch t.text).toList ++ ' ' :: '?' :: ' ' ::
        ((grouped c.isUnfitBranch c.text).toList ++ ' ' :: ':' :: ' ' ::
          ((grouped a.isUnfitBranch a.text).toList ++ rest)) := by
    simp
  refine .of_whole ?_ rfl rfl rfl ?_
  · intro rest _
    rw [text]
    exact test.grouped_begins _ (boundary_blank _)
  · intro rest ends
    have colon := ends_colon (' ' :: ((grouped a.isUnfitBranch a.text).toList ++ rest))
    rw [text]
    exact expr_conditional (test.branch (stops_question _) (operators_question _))
      (consequent.grouped_begins _ colon.boundary) (consequent.branch_whole colon)
      (alternate.grouped_begins _ ends.boundary) (alternate.branch_whole ends)

end RowFilter.Script
