import RowFilter.Proofs.Script.Atom
import RowFilter.Proofs.Script.Locality
import RowFilter.Proofs.Script.Sparing

/-!
# Precedence

An expression of operators is read back from its sparing text.  The readers of the levels
form a ladder, and `rung j` is the part of it from level `j` on; after the last level there
are only operators before an operand.  A rung reads one operand of the next rung and then
goes on as long as operators of its own level follow (`extended`).

So an operation is not read as a whole by its own rung.  What can be said of it is that the
rung, after the text of the operation, stands where it would stand if it had read the
operation so far (`ReadsSparing.level`).  This is the invariant that carries a left operand of
the same level without parentheses.  A right operand is read by the next rung, to which an
operator of the same level is the end of the text.
-/

set_option autoImplicit false

namespace RowFilter.Script

open Reader Lexeme Grammar

/-! ## Rungs -/

/-- Operations of the given level and of the tighter ones. -/
def rung (j : Nat) : Reader Expr := ladder (unary expr block) (levels.drop j)

/-- The operators of a level. -/
def operatorAt (j : Nat) : Reader BinaryOp := levels.getD j refuse

/-- An operand, and the operators of a level that follow with their operands. -/
def extended (j : Nat) (e : Expr) : Reader Expr := do
  let others ← many (continuation (rung (j + 1)) (operatorAt j))
  return others.foldl (fun left (op, right) => .binary left op right) e

/-- What follows goes on with no operator of the given level or of a tighter one. -/
def Quiet (j : Nat) (rest : List Char) : Prop :=
  ∀ operator ∈ levels.drop j, afterGaps operator rest = none

section Rung

variable {j : Nat} {e r : Expr} {op : BinaryOp} {s middle rest : List Char}

theorem levels_drop (within : j < levels.length) :
    levels.drop j = operatorAt j :: levels.drop (j + 1) := by
  rw [operatorAt, List.getD_eq_getElem _ _ within, List.getElem_cons_drop]

theorem operatorAt_mem (within : j < levels.length) : operatorAt j ∈ levels :=
  List.drop_subset j _ (by simp [levels_drop within])

/-- A level is its first operand, extended by its own operators. -/
theorem rung_eq (within : j < levels.length) : rung j = (rung (j + 1) >>= extended j) := by
  rw [rung, levels_drop within]
  rfl

theorem rung_last : rung levels.length = unary expr block := rfl

theorem Quiet.operator (quiet : Quiet j rest) (within : j < levels.length) :
    afterGaps (operatorAt j) rest = none :=
  quiet _ (by simp [levels_drop within])

/-- Where a level does not go on, the tighter ones do not either. -/
theorem Quiet.tighter (quiet : Quiet j rest) : Quiet (j + 1) rest := fun operator member =>
  quiet operator ((List.drop_sublist_drop_left levels (Nat.le_succ j)).mem member)

theorem Ends.quiet (ends : Ends rest) (j : Nat) : Quiet j rest := fun operator member =>
  ends.operators operator (List.drop_subset _ _ member)

/-- Without an operator of the level nothing is added. -/
theorem extended_of_none (silent : afterGaps (operatorAt j) rest = none) :
    extended j e rest = some (e, rest) := by
  have refused : continuation (rung (j + 1)) (operatorAt j) rest = none := bind_of_none silent
  rw [extended, bind_of_some (many_of_none refused)]
  rfl

theorem extended_of_some (within : j < levels.length)
    (token : afterGaps (operatorAt j) s = some (op, middle))
    (right : afterGaps (rung (j + 1)) middle = some (r, rest)) :
    extended j e s = extended j (.binary e op r) rest := by
  have progresses : Progresses (continuation (rung (j + 1)) (operatorAt j)) :=
    continuation_progresses (operatorAt_mem within) (List.drop_subset _ _)
  have step : continuation (rung (j + 1)) (operatorAt j) s = some ((op, r), rest) :=
    (bind_of_some token).trans (bind_of_some right)
  rw [extended, extended, bind_apply, bind_apply, many_of_some progresses step]
  cases many (continuation (rung (j + 1)) (operatorAt j)) rest <;> rfl

end Rung

/-! ## Tokens of operators -/

theorem BinaryOp.level_lt (op : BinaryOp) : op.level < levels.length := by
  have read := level_reads op []
  by_contra beyond
  rw [List.getElem?_eq_none (Nat.le_of_not_lt beyond)] at read
  cases read

theorem operatorAt_token (op : BinaryOp) (t : List Char) :
    afterGaps (operatorAt op.level) (' ' :: (op.token.toList ++ ' ' :: t)) =
      some (op, ' ' :: t) := by
  have read := level_reads op t
  rw [afterGaps_token, operatorAt, List.getD_eq_getElem?_getD]
  cases found : levels[op.level]? with
  | none =>
      rw [found] at read
      cases read
  | some operator =>
      rw [found] at read
      exact Option.some.inj read

theorem quiet_token (op : BinaryOp) (t : List Char) :
    Quiet (op.level + 1) (' ' :: (op.token.toList ++ ' ' :: t)) := by
  intro operator member
  rw [afterGaps_token]
  exact Option.isNone_iff_eq_none.mp (List.all_eq_true.mp (tighter_refuse op t) operator member)

theorem unaryMark_blank (op : UnaryOp) {s : List Char} (begins : Begins s) :
    unaryMark (op.token.toList ++ ' ' :: s) = some (op, s) := by
  have read : unaryOp (op.token.toList ++ ' ' :: s) = some (op, ' ' :: s) := by
    cases op <;> rfl
  rw [unaryMark, bind_of_some read, bind_of_some (gaps_apply _), skipGaps_blank, begins.skipGaps]
  rfl

/-! ## Expressions in their places -/

/-- The sparing text of an expression is read back in the places where it may stand bare. -/
structure ReadsSparing (e : Expr) : Prop where
  begins : ∀ {rest}, Boundary rest → Begins (spread e.tokens rest)
  mark : e.isUnfitReceiver = false → ∀ {rest}, Boundary rest →
    unaryMark (spread e.tokens rest) = none
  /-- Before an access. -/
  receiver : e.isUnfitReceiver = false → ∀ {rest}, Breaks rest →
    postfixed expr block (spread e.tokens rest) = accesses e rest
  /-- After an operator before an operand. -/
  operand : UnaryOp.tightness ≤ e.tightness → ∀ {rest}, Stops rest →
    unary expr block (spread e.tokens rest) = some (e, rest)
  /-- Before an operator of the same level. -/
  level : ∀ {j}, e.tightness = j + 1 → j < levels.length → ∀ {rest}, Stops rest →
    Quiet (j + 1) rest → rung j (spread e.tokens rest) = extended j e rest
  /-- A conditional where any expression may stand. -/
  loosest : e.tightness = 0 → ∀ {rest}, Ends rest →
    expr (spread e.tokens rest) = some (e, rest)

namespace ReadsSparing

variable {e : Expr} (reads : ReadsSparing e) {rest : List Char}
include reads

theorem begins_enclosed (parentheses : Bool) (ends : Boundary rest) :
    Begins (spread (enclosed parentheses e.tokens) rest) := by
  cases parentheses with
  | true =>
      rw [spread_enclosed e.tokens_ne_nil]
      exact begins_cons _ rfl
  | false => exact reads.begins ends

/-- An expression is read bare at the levels that are no tighter than itself. -/
theorem rung_bare {j : Nat} (place : j ≤ levels.length) (fit : j < e.tightness)
    (stops : Stops rest) (quiet : Quiet j rest) :
    rung j (spread e.tokens rest) = some (e, rest) := by
  obtain ⟨distance, same⟩ := Nat.exists_eq_add_of_le place
  -- On the way down to its own level, no level finds an operator of its own.
  induction distance generalizing j with
  | zero =>
      obtain rfl : levels.length = j := same
      exact reads.operand fit stops
  | succ distance ih =>
      have within : j < levels.length := by omega
      have silent := quiet.operator within
      by_cases own : e.tightness = j + 1
      · rw [reads.level own within stops quiet.tighter, extended_of_none silent]
      · have next := ih (j := j + 1) within (by omega) quiet.tighter (by omega)
        rw [rung_eq within, bind_of_some next, extended_of_none silent]

/-- The text of an expression is read back where any expression may stand. -/
theorem whole (ends : Ends rest) : expr (spread e.tokens rest) = some (e, rest) := by
  by_cases least : e.tightness = 0
  · exact reads.loosest least ends
  · exact expr_of_ladder
      (reads.rung_bare (Nat.zero_le _) (Nat.pos_of_ne_zero least) ends.toStops (ends.quiet 0))
      ends.branches

/-! ### In parentheses -/

theorem postfixed_enclosed (breaks : Breaks rest) :
    postfixed expr block (spread (enclosed true e.tokens) rest) = accesses e rest := by
  have closer : Ends (' ' :: ')' :: rest) := ends_blank rest rfl
  have inner : afterGaps expr (' ' :: spread e.tokens (' ' :: ')' :: rest)) =
      some (e, ' ' :: ')' :: rest) := by
    rw [afterGaps_blank, afterGaps_of_begins expr (reads.begins closer.boundary),
      reads.whole closer]
  have read : parenthesized expr ('(' :: ' ' :: spread e.tokens (' ' :: ')' :: rest)) =
      some (e, rest) := by
    rw [parenthesized_open, inner, Option.bind_some, sign_blank ')' rest rfl (by decide)]
    rfl
  rw [spread_enclosed e.tokens_ne_nil, postfixed_eq, bind_apply, primary_open, read]
  · rfl
  · apply arrowFunction_open
    intro parameters after listing
    obtain rfl : after = rest := Option.some.inj
      ((parameters_closing listing).symm.trans (parenthesized_closing read))
    exact breaks.arrow

theorem unary_enclosed (stops : Stops rest) :
    unary expr block (spread (enclosed true e.tokens) rest) = some (e, rest) := by
  apply unary_of_postfixed
  · rw [spread_enclosed e.tokens_ne_nil, unaryMark_open]
  · rw [reads.postfixed_enclosed stops.toBreaks, accesses_of_none stops.access]

/-! ### As operands -/

/-- Before an access. -/
theorem postfixed_receiver (breaks : Breaks rest) :
    postfixed expr block (spread (enclosed e.isUnfitReceiver e.tokens) rest) =
      accesses e rest := by
  cases unfit : e.isUnfitReceiver with
  | true => exact reads.postfixed_enclosed breaks
  | false => exact reads.receiver unfit breaks

/-- To the right of an operator of the level before, and after an operator before an
operand. -/
theorem rung_right {j : Nat} (place : j ≤ levels.length) (stops : Stops rest)
    (quiet : Quiet j rest) :
    rung j (spread (enclosed (e.tightness < j + 1) e.tokens) rest) = some (e, rest) := by
  by_cases looser : e.tightness < j + 1
  · rw [decide_eq_true looser]
    exact ladder_pass (reads.unary_enclosed stops) quiet
  · rw [decide_eq_false looser]
    exact reads.rung_bare place (by omega) stops quiet

/-- To the left of an operator of the level. -/
theorem rung_left {j : Nat} (within : j < levels.length) (stops : Stops rest)
    (quiet : Quiet (j + 1) rest) :
    rung j (spread (enclosed (e.tightness < j + 1) e.tokens) rest) = extended j e rest := by
  by_cases own : e.tightness = j + 1
  · have bare : decide (e.tightness < j + 1) = false := by simp [own]
    rw [bare]
    exact reads.level own within stops quiet
  · have alike : decide (e.tightness < j + 1) = decide (e.tightness < j + 1 + 1) := by
      rw [decide_eq_decide]
      omega
    rw [alike, rung_eq within, bind_of_some (reads.rung_right within stops quiet)]

end ReadsSparing

/-! ## Names, numbers and accesses -/

/-- An expression that holds together as tightly as any. -/
theorem ReadsSparing.of_tight {e : Expr} (tight : e.tightness = 12)
    (begins : ∀ {rest}, Boundary rest → Begins (spread e.tokens rest))
    (mark : ∀ {rest}, Boundary rest → unaryMark (spread e.tokens rest) = none)
    (receiver : e.isUnfitReceiver = false → ∀ {rest}, Breaks rest →
      postfixed expr block (spread e.tokens rest) = accesses e rest)
    (operand : ∀ {rest}, Stops rest →
      postfixed expr block (spread e.tokens rest) = some (e, rest)) : ReadsSparing e where
  begins := begins
  mark _ := mark
  receiver := receiver
  operand _ _ stops := unary_of_postfixed (mark stops.boundary) (operand stops)
  level own within := by
    have last : levels.length = 10 := rfl
    omega
  loosest least := by omega

/-- An expression whose sparing text is its printed text. -/
theorem Reads.sparing {e : Expr} (reads : Reads e) (token : e.tokens = [e.text])
    (tight : e.tightness = 12) (simple : e.isCompound = false) (same : e.reread = e) :
    ReadsSparing e := by
  have printed (rest : List Char) : spread e.tokens rest = e.text.toList ++ rest := by
    rw [token, spread_singleton]
  refine .of_tight tight ?_ ?_ ?_ ?_ <;> simp only [printed]
  · exact reads.begins
  · exact reads.mark simple
  · intro fit rest breaks
    have read := reads.receiver breaks
    rwa [fit, same] at read
  · intro rest stops
    have read := reads.operand stops
    rwa [simple, same] at read

theorem ReadsSparing.access {o e : Expr} (reads : ReadsSparing o) (step : Expr → Expr)
    (tail : List Char → List Char) (same : e = step o) (tight : e.tightness = 12)
    (text : ∀ rest, spread e.tokens rest =
      spread (enclosed o.isUnfitReceiver o.tokens) (tail rest))
    (breaks : ∀ {rest}, Breaks rest → Breaks (tail rest))
    (boundary : ∀ rest, Boundary (tail rest))
    (read : ∀ {rest}, Boundary rest → Grammar.access expr (tail rest) = some (step, rest)) :
    ReadsSparing e := by
  have receiver {rest : List Char} (follows : Breaks rest) :
      postfixed expr block (spread e.tokens rest) = accesses e rest := by
    rw [text, reads.postfixed_receiver (breaks follows), accesses_of_some (read follows.boundary),
      same]
  refine .of_tight tight ?_ ?_ (fun _ => receiver) ?_
  · intro rest _
    rw [text]
    exact reads.begins_enclosed _ (boundary rest)
  · intro rest _
    rw [text]
    cases fit : o.isUnfitReceiver with
    | true => rw [spread_enclosed o.tokens_ne_nil, unaryMark_open]
    | false => exact reads.mark fit (boundary rest)
  · intro rest stops
    rw [receiver stops.toBreaks, accesses_of_none stops.access]

theorem ReadsSparing.member {o : Expr} (reads : ReadsSparing o) {n : String}
    (named : isName n = true) : ReadsSparing (.member o n) := by
  refine reads.access (.member · n) (fun rest => ' ' :: '.' :: ' ' :: (n.toList ++ rest)) rfl rfl
    ?_ (fun _ => (breaks_point _).blank) (fun _ => boundary_blank _) ?_
  · intro rest
    rw [Expr.tokens, spread_append (enclosed_ne_nil _ o.tokens_ne_nil) (by simp),
      spread_cons "." (by simp), spread_singleton]
    rfl
  · intro rest ends
    have next : skipGaps (' ' :: (n.toList ++ rest)) = n.toList ++ rest :=
      (skipGaps_blank _).trans (skipGaps_of_none (gap_name named rest))
    exact (afterGaps_blank _ _).trans (access_point named next ends)

/-! ### Arguments -/

/-- The text of an argument up to the comma or the parenthesis after it. -/
def Expr.argument (e : Expr) : String := e.sparing ++ " "

theorem argument_append (e : Expr) (rest : List Char) :
    e.argument.toList ++ rest = spread e.tokens (' ' :: rest) := by
  simp [Expr.argument, Expr.sparing, spread]

theorem spread_tokensEach (e : Expr) (es : List Expr) (rest : List Char) :
    spread ([","].intercalate (Expr.tokensEach (e :: es)) ++ [")"]) rest =
      e.argument.toList ++ tailText Expr.argument es rest := by
  induction es generalizing e with
  | nil =>
      rw [Expr.tokensEach, Expr.tokensEach, List.intercalate_singleton,
        spread_append e.tokens_ne_nil (by simp), spread_singleton, argument_append]
      rfl
  | cons next es ih =>
      have more := ih next
      rw [Expr.tokensEach] at more
      rw [Expr.tokensEach, Expr.tokensEach, List.intercalate_cons_cons, List.append_assoc,
        List.append_assoc, spread_append e.tokens_ne_nil (by simp), List.singleton_append,
        spread_cons "," (by simp), more, argument_append e, tailText_cons]
      rfl

theorem spread_arguments (es : List Expr) (rest : List Char) :
    spread ("(" :: ([","].intercalate (Expr.tokensEach es) ++ [")"])) rest =
      '(' :: ' ' :: ((", ".intercalate (es.map Expr.argument)).toList ++ ')' :: rest) := by
  have opening : "(".toList = ['('] := rfl
  rw [spread_cons "(" (by simp), opening]
  cases es with
  | nil => rfl
  | cons e es =>
      rw [spread_tokensEach, List.map_cons, toList_intercalate_cons, List.flatMap_map, tailText,
        List.append_assoc]
      rfl

theorem listed_blank {α : Type} (element : Reader α) (s : List Char) :
    listed element ('(' :: ' ' :: s) = listed element ('(' :: s) := by
  rw [listed, bind_of_some (char_self _ _), bind_of_some (char_self _ _),
    bind_of_some (gaps_apply _), bind_of_some (gaps_apply _), skipGaps_blank]

theorem ReadsSparing.element {e : Expr} (reads : ReadsSparing e) :
    ReadsElement expr e.argument e := by
  have ends {c : Char} {t : List Char} (closer : c = ',' ∨ c = ')') : Ends (' ' :: c :: t) := by
    rcases closer with rfl | rfl <;> exact ends_blank t rfl
  constructor
  · intro c t closer
    rw [argument_append]
    exact (reads.begins (ends closer).boundary).gap
  · intro c t closer
    refine ⟨' ' :: c :: t, ?_, (skipGaps_blank _).trans (skipGaps_closer closer t)⟩
    rw [argument_append, reads.whole (ends closer)]

theorem listed_sparing {es : List Expr} (reads : ∀ e ∈ es, ReadsSparing e) (rest : List Char) :
    listed expr (spread ("(" :: ([","].intercalate (Expr.tokensEach es) ++ [")"])) rest) =
      some (es, rest) := by
  have read := @listed_append _ _ expr Expr.argument id (equalFrame.expr 0) (expr_separator · rfl)
    es (fun e member => (reads e member).element) rest
  rw [List.map_id] at read
  rw [spread_arguments, listed_blank, read]

theorem ReadsSparing.call {f : Expr} {es : List Expr} (reads : ReadsSparing f)
    (arguments : ∀ e ∈ es, ReadsSparing e) : ReadsSparing (.call f es) := by
  let tail (rest : List Char) :=
    ' ' :: ((", ".intercalate (es.map Expr.argument)).toList ++ ')' :: rest)
  have read (rest : List Char) : listed expr ('(' :: tail rest) = some (es, rest) := by
    rw [← spread_arguments, listed_sparing arguments]
  refine reads.access (.call · es) (fun rest => ' ' :: '(' :: tail rest) rfl rfl ?_ ?_
    (fun _ => boundary_blank _) ?_
  · intro rest
    rw [← spread_arguments, ← spread_append (enclosed_ne_nil _ f.tokens_ne_nil) (by simp)]
    rfl
  · intro rest follows
    have closes := listed_closing (fun found => (balancedFrame found).expr 0) (read rest)
    exact (breaks_parenthesis closes follows.arrow).blank
  · intro rest _
    exact (afterGaps_blank _ _).trans (access_parenthesis (read rest))

/-! ## Operations -/

/-- An operation, which never stands bare before an access. -/
theorem ReadsSparing.of_operation {e : Expr} (unfit : e.isUnfitReceiver = true)
    (begins : ∀ {rest}, Boundary rest → Begins (spread e.tokens rest))
    (operand : UnaryOp.tightness ≤ e.tightness → ∀ {rest}, Stops rest →
      Grammar.unary expr block (spread e.tokens rest) = some (e, rest))
    (level : ∀ {j}, e.tightness = j + 1 → j < levels.length → ∀ {rest}, Stops rest →
      Quiet (j + 1) rest → rung j (spread e.tokens rest) = extended j e rest)
    (loosest : e.tightness = 0 → ∀ {rest}, Ends rest →
      expr (spread e.tokens rest) = some (e, rest)) : ReadsSparing e where
  begins := begins
  mark fit := by simp [unfit] at fit
  receiver fit := by simp [unfit] at fit
  operand := operand
  level := level
  loosest := loosest

theorem ReadsSparing.unary {a : Expr} (op : UnaryOp) (reads : ReadsSparing a) :
    ReadsSparing (.unary op a) := by
  have text (rest : List Char) : spread (Expr.unary op a).tokens rest = op.token.toList ++
      ' ' :: spread (enclosed (a.tightness < UnaryOp.tightness) a.tokens) rest :=
    spread_cons _ (enclosed_ne_nil _ a.tokens_ne_nil)
  have tight : (Expr.unary op a).tightness = 11 := rfl
  have last : levels.length = 10 := rfl
  refine .of_operation rfl ?_ ?_ ?_ ?_
  · intro rest _
    rw [text]
    cases op <;> exact begins_cons _ rfl
  · intro _ rest stops
    have quiet : Quiet levels.length rest := fun operator member => by
      rw [List.drop_length] at member
      cases member
    have read := reads.rung_right (Nat.le_refl _) stops quiet
    rw [rung_last] at read
    rw [text, unary_of_mark (unaryMark_blank op (reads.begins_enclosed _ stops.boundary))]
    exact congrArg (Option.map _) read
  · omega
  · omega

/-- An operation is read back, with parentheses around the operands that are too loose. -/
theorem ReadsSparing.binary {l r : Expr} (left : ReadsSparing l) (op : BinaryOp)
    (right : ReadsSparing r) : ReadsSparing (.binary l op r) := by
  have text (rest : List Char) : spread (Expr.binary l op r).tokens rest =
      spread (enclosed (l.tightness < op.tightness) l.tokens) (' ' :: (op.token.toList ++
        ' ' :: spread (enclosed (r.tightness ≤ op.tightness) r.tokens) rest)) := by
    have operand := enclosed_ne_nil (decide (r.tightness ≤ op.tightness)) r.tokens_ne_nil
    rw [Expr.tokens, spread_append (enclosed_ne_nil _ l.tokens_ne_nil) (by simp),
      spread_cons _ operand]
  have own : (Expr.binary l op r).tightness = op.level + 1 := rfl
  have bound := op.level_lt
  have last : levels.length = 10 := rfl
  refine .of_operation rfl ?_ ?_ ?_ ?_
  · intro rest _
    rw [text]
    exact left.begins_enclosed _ (boundary_blank _)
  · intro fit
    simp only [UnaryOp.tightness] at fit
    omega
  · intro j level within rest stops quiet
    obtain rfl : op.level = j := by omega
    -- Having read the left operand, the rung may be within a chain of its level.  The right
    -- operand is read on the next rung, and joins the chain.
    have after : afterGaps (rung (op.level + 1))
        (' ' :: spread (enclosed (r.tightness ≤ op.tightness) r.tokens) rest) =
          some (r, rest) := by
      rw [afterGaps_blank, afterGaps_of_begins _ (right.begins_enclosed _ stops.boundary)]
      have fits : decide (r.tightness ≤ op.tightness) =
          decide (r.tightness < op.level + 1 + 1) := by
        rw [decide_eq_decide, BinaryOp.tightness, Nat.lt_succ_iff]
      rw [fits]
      exact right.rung_right within stops quiet
    have before := left.rung_left within (stops_token op _) (quiet_token op
      (spread (enclosed (r.tightness ≤ op.tightness) r.tokens) rest))
    rw [text]
    exact before.trans (extended_of_some within (operatorAt_token op _) after)
  · omega

theorem ReadsSparing.conditional {t c a : Expr} (test : ReadsSparing t)
    (consequent : ReadsSparing c) (alternate : ReadsSparing a) :
    ReadsSparing (.conditional t c a) := by
  have text (rest : List Char) : spread (Expr.conditional t c a).tokens rest =
      spread (enclosed (t.tightness = 0) t.tokens) (' ' :: '?' :: ' ' ::
        spread c.tokens (' ' :: ':' :: ' ' :: spread a.tokens rest)) := by
    rw [Expr.tokens, spread_append (enclosed_ne_nil _ t.tokens_ne_nil) (by simp),
      spread_cons "?" (by simp [c.tokens_ne_nil]), spread_append c.tokens_ne_nil (by simp),
      spread_cons ":" a.tokens_ne_nil]
    rfl
  refine .of_operation rfl ?_ ?_ ?_ ?_
  · intro rest _
    rw [text]
    exact test.begins_enclosed _ (boundary_blank _)
  · intro fit
    cases fit
  · intro j fit
    cases fit
  · intro _ rest ends
    have colon := ends_colon (' ' :: spread a.tokens rest)
    have tested (s : List Char) :
        rung 0 (spread (enclosed (t.tightness = 0) t.tokens) (' ' :: '?' :: ' ' :: s)) =
          some (t, ' ' :: '?' :: ' ' :: s) := by
      have fits : decide (t.tightness = 0) = decide (t.tightness < 0 + 1) := by
        rw [decide_eq_decide, Nat.lt_one_iff]
      rw [fits]
      exact test.rung_right (Nat.zero_le _) (stops_question _) (operators_question _)
    rw [text]
    exact expr_conditional (tested _) (consequent.begins colon.boundary) (consequent.whole colon)
      (alternate.begins ends.boundary) (alternate.whole ends)

/-! ## Operator trees -/

theorem reads_natural {n : Int64} (natural : 0 ≤ n) :
    ReadsSparing (.literal (.integer n)) :=
  have writable : (Value.integer n).isWritable = true := decide_eq_true natural
  (reads_numeric rfl writable rfl).sparing rfl rfl rfl rfl

mutual
/-- **The sparing text of an operator tree is read back in all places.** -/
theorem Expr.reads_sparing :
    ∀ e : Expr, e.isOperatorTree = true → ReadsSparing e
  | .identifier n, regular => (reads_identifier regular).sparing rfl rfl rfl rfl
  | .literal (.integer n), regular => reads_natural (of_decide_eq_true regular)
  | .literal .null, regular | .literal (.boolean _), regular | .literal (.float _), regular
  | .literal (.text _), regular => by cases regular
  | .member o n, regular => by
      simp only [Expr.isOperatorTree, Expr.every, Bool.and_eq_true] at regular
      exact (o.reads_sparing regular.2).member regular.1
  | .index o k, regular => by simp [Expr.isOperatorTree, Expr.every, isOperatorNode] at regular
  | .call f es, regular => by
      simp only [Expr.isOperatorTree, Expr.every, Bool.and_eq_true] at regular
      exact (f.reads_sparing regular.1.2).call (Expr.reads_sparing_all es regular.2)
  | .unary op a, regular => by
      simp only [Expr.isOperatorTree, Expr.every, Bool.and_eq_true] at regular
      exact (a.reads_sparing regular.2).unary op
  | .binary l op r, regular => by
      simp only [Expr.isOperatorTree, Expr.every, Bool.and_eq_true] at regular
      exact (l.reads_sparing regular.1.2).binary op (r.reads_sparing regular.2)
  | .conditional t c a, regular => by
      simp only [Expr.isOperatorTree, Expr.every, Bool.and_eq_true] at regular
      exact (t.reads_sparing regular.1.1.2).conditional (c.reads_sparing regular.1.2)
        (a.reads_sparing regular.2)
  | .function s b, regular => by simp [Expr.isOperatorTree, Expr.every, isOperatorNode] at regular

theorem Expr.reads_sparing_all :
    ∀ es : List Expr, Expr.everyAll Expr.isOperatorNode (fun _ => true) es = true →
      ∀ e ∈ es, ReadsSparing e
  | [], _ => fun _ member => by cases member
  | e :: es, regular => by
      simp only [Expr.everyAll, Bool.and_eq_true] at regular
      exact List.forall_mem_cons.mpr
        ⟨e.reads_sparing regular.1, Expr.reads_sparing_all es regular.2⟩
end

end RowFilter.Script
