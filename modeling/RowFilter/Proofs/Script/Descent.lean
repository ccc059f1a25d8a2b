import RowFilter.Proofs.Script.Calls

/-!
# Descent

Calls between rules go down.  The text of the job that is begun is shorter than that of the
job it is begun by, or it is the same and the rule has a lower rank.  So calls are nested no
deeper than the length of the text and the rank of the rule allow (`Job.height`), and from
that depth on the bound is never reached: reading comes to an end on every text.

What a rule does is followed through with the calls left open.  If the calls that go down
are answered as the grammar answers them (`Calls.Faithful`), then the rule makes no other
calls, no repetition in it is stuck, and it answers as the grammar does
(`Rule.follows_body`).  One induction on the depth closes the calls (`run_sound`).
-/

set_option autoImplicit false

namespace RowFilter.Script

open Reader Lexeme Grammar

/-! ## Parts of rules -/

theorem leaves_contents (quote : Char) : Leaves true (Quoted.decodeUpTo quote) :=
  fun _ _ _ read => ⟨Quoted.decodeUpTo_suffix read, Quoted.decodeUpTo_length read⟩

theorem Frame.rung {U : Nat → List Char → List Char → Prop} (F : Frame U U) (level d : Nat) :
    Parallel true (U d) (U d) (rung level) (rung level) :=
  F.ladder (F.unary F.expr F.block) (List.drop_subset _ _)

theorem leaves_spelled {op : BinaryOp} (nonempty : op.token ≠ "") : Leaves true (spelled op) :=
  (leaves_word nonempty).bind fun _ => leaves_pure _

theorem leaves_spelledBefore {op : BinaryOp} (nonempty : op.token ≠ "") (continues : Char → Bool) :
    Leaves true (spelledBefore op continues) :=
  (leaves_word nonempty).bind fun _ => (leaves_notNext _).bind fun _ => leaves_pure _

theorem leaves_operator {operator : Reader BinaryOp} (level : operator ∈ levels) :
    Leaves true operator := by
  simp only [levels, List.mem_cons, List.not_mem_nil, or_false] at level
  rcases level with rfl | rfl | rfl | rfl | rfl | rfl | rfl | rfl | rfl | rfl
  · exact (leaves_spelled (by decide)).orElse (leaves_spelled (by decide))
  · exact leaves_spelled (by decide)
  · exact leaves_spelledBefore (by decide) _
  · exact leaves_spelledBefore (by decide) _
  · exact leaves_spelledBefore (by decide) _
  · exact (leaves_spelled (by decide)).orElse <| (leaves_spelled (by decide)).orElse <|
      (leaves_spelled (by decide)).orElse (leaves_spelled (by decide))
  · exact (leaves_spelled (by decide)).orElse <| (leaves_spelled (by decide)).orElse <|
      (leaves_spelledBefore (by decide) _).orElse (leaves_spelledBefore (by decide) _)
  · exact (leaves_spelled (by decide)).orElse (leaves_spelled (by decide))
  · exact (leaves_spelled (by decide)).orElse (leaves_spelled (by decide))
  · exact (leaves_spelled (by decide)).orElse <| (leaves_spelled (by decide)).orElse
      (leaves_spelled (by decide))

/-! ## Readers that come back to themselves -/

/-- A quoted text is its quote and a rule for what stands up to the closing one. -/
theorem quotedBy_eq (quote : Char) :
    quotedBy quote = (do
      char quote
      let read ← Rule.reader (.contents quote)
      return .text (String.ofList read)) := by
  funext s
  cases opened : char quote s with
  | none => exact (bind_of_none opened).trans (bind_of_none opened).symm
  | some found =>
      refine (bind_of_some opened).trans (Eq.trans ?_ (bind_of_some opened).symm)
      exact (map_apply (fun read => Value.text (String.ofList read))
        (Rule.reader (.contents quote)) found.2).symm

/-- The contents of a quoted text, one character at a time. -/
theorem reader_contents (quote : Char) :
    Rule.reader (.contents quote) = (do
      let c ← satisfying fun _ => true
      if c = '\\' then
        let escaped ← satisfying fun _ => true
        let others ← Rule.reader (.contents quote)
        return Quoted.unescape escaped :: others
      else if c = quote then return []
      else if c = '\n' then refuse
      else
        let others ← Rule.reader (.contents quote)
        return c :: others) := by
  funext s
  cases s with
  | nil => rfl
  | cons c s =>
      refine Eq.trans ?_ (bind_of_some (satisfying_cons _ c s)).symm
      by_cases backslash : c = '\\'
      · subst backslash
        cases s with
        | nil => rfl
        | cons escaped s =>
            refine Eq.trans ?_ (bind_of_some (satisfying_cons _ escaped s)).symm
            exact (map_apply _ (Rule.reader (.contents quote)) s).symm
      · rw [if_neg backslash]
        refine (Quoted.decodeUpTo_cons backslash s).trans ?_
        split
        · rfl
        · split
          · rfl
          · exact (map_apply _ (Rule.reader (.contents quote)) s).symm

/-- The marks before an operand, one at a time. -/
theorem unary_eq :
    unary expr block = (do
      match ← Reader.optional unaryMark with
      | some op =>
          let operand ← unary expr block
          return .unary op operand
      | none => postfixed expr block) := by
  funext s
  cases mark : unaryMark s with
  | none => rw [unary_of_no_mark mark, bind_of_some (optional_of_none mark)]
  | some found =>
      rw [unary_of_mark mark, bind_of_some (optional_of_some mark)]
      exact (map_apply (Expr.unary found.1) (unary expr block) found.2).symm

/-! ## Every rule leaves a suffix -/

/-- What a rule leaves is a suffix of its text, and a proper one unless it may take nothing. -/
theorem Rule.leaves : (rule : Rule) → Leaves rule.takes rule.reader
  | program => leaves_gaps.bind fun _ => leaves_many
      (leaves_of_frame fun _ F => (F.statement 0).bind fun _ => F.gaps.bind fun _ => .pure _).loosen
  | statement => leaves_of_frame fun _ F => F.statement 0
  | result => leaves_of_frame fun _ F => F.resultStatement F.expr
  | declaration => leaves_of_frame fun _ F => F.declaration F.expr
  | block => leaves_of_frame fun _ F => F.block 0
  | expr => leaves_of_frame fun _ F => F.expr 0
  | rung level => leaves_of_frame fun _ F => F.rung level 0
  | item level => leaves_of_frame fun _ F =>
      F.continuation (F.rung (level + 1) 0) (operatorAt_mem level.isLt)
  | unary => leaves_of_frame fun _ F => F.unary F.expr F.block
  | postfixed => leaves_of_frame fun _ F => F.postfixed F.expr F.block
  | access => leaves_of_frame fun _ F => F.access F.expr
  | arguments => leaves_of_frame fun _ F => F.listed F.expr
  | primary => leaves_of_frame fun _ F => F.primary F.expr F.block
  | function => leaves_of_frame fun _ F => F.functionLiteral F.block
  | arrow => leaves_of_frame fun _ F => F.arrowFunction F.expr F.block
  | parenthesized => leaves_of_frame fun _ F => F.parenthesized F.expr
  | parameters => leaves_of_frame fun _ F => F.listed fun _ => F.parameter
  | parameter => leaves_of_frame fun _ F => F.parameter
  | identifier => leaves_of_frame fun _ F => F.identifier
  | literal => leaves_of_frame fun _ F => F.literal
  | contents quote => leaves_contents quote
  | gaps => leaves_gaps
  | gap => leaves_gap

/-! ## Every rule follows its reader -/

/-- The calls that go down from a rule on a text are answered as the grammar answers them,
and what they record advances. -/
def Calls.Faithful (call : Calls) (caller : Rule) (s : List Char) : Prop :=
  ∀ rule t, Job.Below ⟨rule, t⟩ ⟨caller, s⟩ →
    (call rule t).answer = rule.reader t ∧ ∀ e ∈ (call rule t).events, e.Advances Job.Below

namespace Calls.Faithful

variable {α : Type} {call : Calls} {caller : Rule} {s : List Char} {moved progress : Bool}

/-- A call of any rule is answered once something has been taken, and a call of a lower rule
also before. -/
theorem follows (faithful : call.Faithful caller s) (rule : Rule)
    (down : moved = true ∨ rule.rank < caller.rank) :
    Follows Job.Below s moved rule.takes (call rule) rule.reader := by
  refine ⟨rule.leaves, fun t remains => faithful rule t ?_⟩
  obtain ⟨suffix, shorter⟩ := remains
  rcases down with rfl | lower
  · exact .inl shorter
  · rcases Nat.lt_or_ge t.length s.length with shorter | whole
    · exact .inl shorter
    · -- A suffix that is no shorter is the text itself.
      exact .inr ⟨suffix.eq_of_length (Nat.le_antisymm suffix.length_le whole), lower⟩

section Parts

variable (faithful : call.Faithful caller s)
include faithful

/-- The gaps before a rule are a call of their own. -/
theorem afterGaps {p : Traced Job α} {q : Reader α}
    (down : moved = true ∨ Rule.rank .gaps < caller.rank)
    (follows : Follows Job.Below s moved progress p q) :
    Follows Job.Below s moved progress (call.afterGaps p) (Lexeme.afterGaps q) :=
  (faithful.follows .gaps down).bind fun _ => by rwa [Rule.takes, Bool.or_false]

theorem sign (c : Char) : Follows Job.Below s true true (call.sign c) (Lexeme.sign c) :=
  faithful.afterGaps (.inl rfl) (.plain (leaves_char c))

/-- The elements of a list stand after its parenthesis, so that any rule may be called for
them. -/
theorem listed {p : Traced Job α} {q : Reader α} (element : Follows Job.Below s true true p q) :
    Follows Job.Below s false true (call.listed p) (Grammar.listed q) :=
  (Follows.plain (leaves_char _)).bind fun _ => (faithful.follows .gaps (.inl rfl)).bind fun _ =>
  (element.separated ((faithful.sign ',').bind fun _ =>
    faithful.follows .gaps (.inl rfl))).bind fun _ =>
  (faithful.sign ',').optional.bind fun _ => (faithful.sign ')').bind fun _ => .pure _

theorem asyncMark : Follows Job.Below s false false call.asyncMark Grammar.asyncMark :=
  ((Follows.plain (leaves_keyword (by decide))).bind fun _ =>
    faithful.follows .gaps (.inl rfl)).optional.bind fun _ => .pure _

theorem terminator : Follows Job.Below s true false call.terminator Grammar.terminator :=
  (faithful.sign ';').optional.bind fun _ => .pure _

theorem quotedBy (quote : Char) :
    Follows Job.Below s false true (call.quotedBy quote) (Script.quotedBy quote) := by
  rw [quotedBy_eq]
  exact (Follows.plain (leaves_char quote)).bind fun _ =>
    (faithful.follows (.contents quote) (.inl rfl)).bind fun _ => .pure _

/-- The operands of a level belong to a rule of lower rank, be it the next level or the unary
expressions. -/
theorem operand {level : Fin levels.length}
    (down : moved = true ∨ 4 + (levels.length - (level + 1)) < caller.rank) :
    Follows Job.Below s moved true (call.operand level) (Script.rung (level + 1)) := by
  rw [Calls.operand]
  split
  · next tighter => exact faithful.follows (.rung ⟨level + 1, tighter⟩) down
  · next tightest =>
      have last : level + 1 = levels.length := by omega
      rw [last, rung_last]
      exact faithful.follows .unary (down.imp_right (Nat.lt_of_le_of_lt (Nat.le_add_right 4 _)))

theorem branches : Follows Job.Below s true true call.branches (Grammar.branches Grammar.expr) :=
  (faithful.sign '?').bind fun _ => (Follows.plain (leaves_notNext _)).bind fun _ =>
  (faithful.afterGaps (.inl rfl) (faithful.follows .expr (.inl rfl))).bind fun _ =>
  (faithful.sign ':').bind fun _ =>
  (faithful.afterGaps (.inl rfl) (faithful.follows .expr (.inl rfl))).bind fun _ => .pure _

theorem spaced (down : moved = true ∨ Rule.rank .statement < caller.rank) :
    Follows Job.Below s moved true call.spaced (Grammar.spaced Grammar.statement) :=
  (faithful.follows .statement down).bind fun _ =>
  (faithful.follows .gaps (.inl (Bool.or_true moved))).bind fun _ => .pure _

end Parts

/-! One lemma for each rule.  Where nothing has been taken yet, the rank of what is called is
compared; everywhere else the text has become shorter. -/

theorem gaps (faithful : call.Faithful .gaps s) :
    Follows Job.Below s false false call.gaps Lexeme.gaps :=
  (faithful.follows .gap (.inr (by decide))).many.bind fun _ => .pure _

/-- Each character of a quoted text is followed by a call for the others. -/
theorem contents {quote : Char} (faithful : call.Faithful (.contents quote) s) :
    Follows Job.Below s false true (call.contents quote) (Rule.reader (.contents quote)) := by
  have others : Follows Job.Below s true true _ _ :=
    faithful.follows (.contents quote) (.inl rfl)
  have any : Follows Job.Below s true true (Traced.plain (satisfying fun _ => true)) _ :=
    .plain (leaves_satisfying _)
  rw [reader_contents]
  refine Follows.bind (.plain (leaves_satisfying _)) fun c =>
    (?_ : Follows Job.Below s true false _ _)
  split
  · exact (any.bind fun _ => others.bind fun _ => .pure _).loosen
  · split
    · exact .pure _
    · split
      · exact .plain leaves_refuse
      · exact (others.bind fun _ => .pure _).loosen

theorem literal (faithful : call.Faithful .literal s) :
    Follows Job.Below s false true call.literal Script.literal := by
  have wordFor {w : String} (plain : PlainWord w) (value : Value) :
      Follows Job.Below s false true (Traced.plain (wordFor w value)) (Script.wordFor w value) :=
    .plain (leaves_of_frame fun _ F => F.wordFor plain value)
  exact (wordFor (by decide) _).orElse <| (wordFor (by decide) _).orElse <|
    (wordFor (by decide) _).orElse <|
    (Follows.plain (leaves_of_frame fun _ F => F.number)).orElse <|
    (faithful.quotedBy '"').orElse (faithful.quotedBy '\x27')

theorem parameter (faithful : call.Faithful .parameter s) :
    Follows Job.Below s false true call.parameter Grammar.parameter :=
  (faithful.follows .identifier (.inr (by decide))).bind fun _ =>
  ((faithful.sign ':').bind fun _ =>
    faithful.afterGaps (.inl rfl) (.plain leaves_name)).optional.bind fun _ => .pure _

theorem function (faithful : call.Faithful .function s) :
    Follows Job.Below s false true call.function (functionLiteral Grammar.block) :=
  faithful.asyncMark.bind fun _ => (Follows.plain (leaves_keyword (by decide))).bind fun _ =>
  (faithful.sign '*').optional.bind fun _ =>
  (faithful.afterGaps (.inl rfl) (faithful.follows .identifier (.inl rfl))).optional.bind fun _ =>
  (faithful.afterGaps (.inl rfl) (faithful.follows .parameters (.inl rfl))).bind fun _ =>
  (faithful.afterGaps (.inl rfl) (faithful.follows .block (.inl rfl))).bind fun _ => .pure _

theorem arrow (faithful : call.Faithful .arrow s) :
    Follows Job.Below s false true call.arrow (arrowFunction Grammar.expr Grammar.block) := by
  refine faithful.asyncMark.bind fun _ => Follows.bind (?_ : Follows _ _ false true _ _) fun _ =>
    (faithful.follows .gaps (.inl rfl)).bind fun _ =>
    (Follows.plain (leaves_word (by decide))).bind fun _ =>
    (faithful.follows .gaps (.inl rfl)).bind fun _ =>
    Follows.bind (?_ : Follows _ _ true true _ _) fun _ => .pure _
  · exact ((faithful.follows .identifier (.inr (by decide))).bind fun _ => .pure _).orElse
      (faithful.follows .parameters (.inr (by decide)))
  · exact ((faithful.follows .block (.inl rfl)).map _).orElse
      ((faithful.follows .expr (.inl rfl)).map _)

theorem parenthesized (faithful : call.Faithful .parenthesized s) :
    Follows Job.Below s false true call.parenthesized (Grammar.parenthesized Grammar.expr) :=
  (Follows.plain (leaves_char _)).bind fun _ =>
  (faithful.afterGaps (.inl rfl) (faithful.follows .expr (.inl rfl))).bind fun _ =>
  (faithful.sign ')').bind fun _ => .pure _

theorem primary (faithful : call.Faithful .primary s) :
    Follows Job.Below s false true call.primary (Grammar.primary Grammar.expr Grammar.block) :=
  (faithful.follows .function (.inr (by decide))).orElse <|
    (faithful.follows .arrow (.inr (by decide))).orElse <|
    (faithful.follows .parenthesized (.inr (by decide))).orElse <|
    ((faithful.follows .literal (.inr (by decide))).map _).orElse
      ((faithful.follows .identifier (.inr (by decide))).map _)

theorem access (faithful : call.Faithful .access s) :
    Follows Job.Below s false true call.access (Grammar.access Grammar.expr) := by
  refine faithful.afterGaps (.inr (by decide)) (.orElse ?_ (.orElse ?_ ?_))
  · exact (Follows.plain (leaves_char _)).bind fun _ =>
      (faithful.afterGaps (.inl rfl) (.plain leaves_name)).bind fun _ => .pure _
  · exact (Follows.plain (leaves_char _)).bind fun _ =>
      (faithful.afterGaps (.inl rfl) (faithful.follows .expr (.inl rfl))).bind fun _ =>
      (faithful.sign ']').bind fun _ => .pure _
  · exact (faithful.follows .arguments (.inr (by decide))).bind fun _ => .pure _

theorem postfixed (faithful : call.Faithful .postfixed s) :
    Follows Job.Below s false true call.postfixed
      (Grammar.postfixed Grammar.expr Grammar.block) :=
  (faithful.follows .primary (.inr (by decide))).bind fun _ =>
  (faithful.follows .access (.inl rfl)).many.bind fun _ => .pure _

/-- Each mark is followed by a call for the same rule on a shorter text. -/
theorem unary (faithful : call.Faithful .unary s) :
    Follows Job.Below s false true call.unary (Grammar.unary Grammar.expr Grammar.block) := by
  have mark : Follows Job.Below s false true
      (do let op ← Traced.plain unaryOp; call .gaps; return op) unaryMark :=
    (Follows.plain (leaves_of_frame fun _ F => F.unaryOp)).bind fun _ =>
      (faithful.follows .gaps (.inl rfl)).bind fun _ => .pure _
  rw [unary_eq]
  refine mark.optional_bind (fun _ => ?_) ?_
  · exact (faithful.follows .unary (.inl rfl)).bind fun _ => .pure _
  · exact faithful.follows .postfixed (.inr (by decide))

theorem item {level : Fin levels.length} (faithful : call.Faithful (.item level) s) :
    Follows Job.Below s false true (call.item level)
      (continuation (Script.rung (level + 1)) (operatorAt level)) :=
  (faithful.afterGaps (.inr Nat.one_lt_two)
    (.plain (leaves_operator (operatorAt_mem level.isLt)))).bind fun _ =>
  (faithful.afterGaps (.inl rfl) (faithful.operand (.inl rfl))).bind fun _ => .pure _

/-- A level calls the rule for its operands first, and then one item for each operator. -/
theorem rung {level : Fin levels.length} (faithful : call.Faithful (.rung level) s) :
    Follows Job.Below s false true (call.rung level) (Script.rung level) := by
  have lower : 4 + (levels.length - (level + 1)) < Rule.rank (.rung level) := by
    show _ < 4 + (levels.length - level)
    omega
  rw [rung_eq level.isLt]
  exact (faithful.operand (.inr lower)).bind fun _ =>
    (faithful.follows (.item level) (.inl rfl)).many.bind fun _ => .pure _

theorem expr (faithful : call.Faithful .expr s) :
    Follows Job.Below s false true call.expr Grammar.expr := by
  rw [expr_eq]
  exact (faithful.follows (.rung ⟨0, by decide⟩) (.inr (by decide))).bind fun _ =>
    faithful.branches.optional.bind fun
      | some _ => .pure _
      | none => .pure _

theorem result (faithful : call.Faithful .result s) :
    Follows Job.Below s false true call.result (resultStatement Grammar.expr) :=
  (Follows.plain (leaves_keyword (by decide))).bind fun _ =>
  (faithful.afterGaps (.inl rfl) (faithful.follows .expr (.inl rfl))).optional.bind fun _ =>
  faithful.terminator.bind fun _ => .pure _

theorem declaration (faithful : call.Faithful .declaration s) :
    Follows Job.Below s false true call.declaration (Grammar.declaration Grammar.expr) :=
  (Follows.plain (leaves_of_frame fun _ F => F.declarationKind)).bind fun _ =>
  (faithful.afterGaps (.inl rfl) (faithful.follows .identifier (.inl rfl))).bind fun _ =>
  ((faithful.sign '=').bind fun _ =>
    faithful.afterGaps (.inl rfl) (faithful.follows .expr (.inl rfl))).optional.bind fun _ =>
  faithful.terminator.bind fun _ => .pure _

theorem statement (faithful : call.Faithful .statement s) :
    Follows Job.Below s false true call.statement Grammar.statement :=
  ((faithful.follows .block (.inr (by decide))).map _).orElse <|
    (faithful.follows .result (.inr (by decide))).orElse <|
    (faithful.follows .declaration (.inr (by decide))).orElse <|
    ((Follows.plain (leaves_char _)).bind fun _ => .pure _).orElse <|
    (faithful.follows .expr (.inr (by decide))).bind fun _ =>
      faithful.terminator.bind fun _ => .pure _

theorem block (faithful : call.Faithful .block s) :
    Follows Job.Below s false true call.block Grammar.block := by
  rw [block_eq]
  exact (Follows.plain (leaves_char _)).bind fun _ =>
    (faithful.follows .gaps (.inl rfl)).bind fun _ =>
    (faithful.spaced (.inl rfl)).many.bind fun _ =>
    (Follows.plain (leaves_char _)).bind fun _ => .pure _

theorem program (faithful : call.Faithful .program s) :
    Follows Job.Below s false false call.program Script.program :=
  (faithful.follows .gaps (.inr (by decide))).bind fun _ =>
    (faithful.spaced (.inr (by decide))).many

end Calls.Faithful

/-- **A rule makes no calls but those that go down**, and no repetition in it is stuck. -/
theorem Rule.follows_body {call : Calls} {s : List Char} :
    (rule : Rule) → call.Faithful rule s →
      Follows Job.Below s false rule.takes (rule.body call) rule.reader
  | program, faithful => faithful.program
  | statement, faithful => faithful.statement
  | result, faithful => faithful.result
  | declaration, faithful => faithful.declaration
  | block, faithful => faithful.block
  | expr, faithful => faithful.expr
  | rung _, faithful => faithful.rung
  | item _, faithful => faithful.item
  | unary, faithful => faithful.unary
  | postfixed, faithful => faithful.postfixed
  | access, faithful => faithful.access
  | arguments, faithful => faithful.listed (faithful.follows .expr (.inl rfl))
  | primary, faithful => faithful.primary
  | function, faithful => faithful.function
  | arrow, faithful => faithful.arrow
  | parenthesized, faithful => faithful.parenthesized
  | parameters, faithful => faithful.listed (faithful.follows .parameter (.inl rfl))
  | parameter, faithful => faithful.parameter
  | identifier, _ => .plain (Rule.leaves .identifier)
  | literal, faithful => faithful.literal
  | contents _, faithful => faithful.contents
  | gaps, faithful => faithful.gaps
  | gap, _ => .plain leaves_gap

/-! ## Reading goes down -/

/-- With enough depth the answer is that of the grammar, and every call and every round goes on
in the text or goes down in rank. -/
theorem run_sound : ∀ (depth : Nat) (job : Job), job.height ≤ depth →
    (run depth job).answer = job.rule.reader job.text ∧
      ∀ e ∈ (run depth job).events, e.Advances Job.Below
  | 0, _, enough => absurd enough (Nat.not_succ_le_zero _)
  | depth + 1, job, enough => by
      refine (Rule.follows_body job.rule fun rule t below => ?_).sound (remains_refl job.text)
      have lower : Job.height ⟨rule, t⟩ ≤ depth :=
        Nat.le_of_lt_succ (Nat.lt_of_lt_of_le below.height_lt enough)
      obtain ⟨same, advance⟩ := run_sound depth ⟨rule, t⟩ lower
      exact ⟨same, List.forall_mem_append.mpr ⟨List.forall_mem_singleton.mpr below, advance⟩⟩

/-- A job is read to its end within a depth: the bound is never reached, the answer is that of
the grammar, every call goes down, and every round of a repetition takes something. -/
structure Descends (depth : Nat) (job : Job) : Prop where
  answer : (run depth job).answer = job.rule.reader job.text
  bounded : ∀ job', .exhausted job' ∉ (run depth job).events
  calls : ∀ caller callee, .call caller callee ∈ (run depth job).events →
    callee.text.length < caller.text.length ∨
      callee.text = caller.text ∧ callee.rule.rank < caller.rule.rank
  rounds : ∀ before after, .round before after ∈ (run depth job).events →
    after <:+ before ∧ after.length < before.length

/-- **Every rule makes progress, and reading comes to an end.**  What a rule leaves is a proper
suffix of its text, or any suffix for programs and gaps.  From the height of a job on, no depth
is exhausted by it, and its calls go down. -/
theorem rules_progress_and_descend :
    (∀ rule : Rule, Leaves rule.takes rule.reader) ∧
      ∀ (job : Job) (further : Nat), Descends (job.height + further) job := by
  refine ⟨Rule.leaves, fun job further => ?_⟩
  obtain ⟨answer, advance⟩ := run_sound (job.height + further) job (Nat.le_add_right _ _)
  exact {
    answer := answer
    bounded := fun _ stopped => advance _ stopped
    calls := fun _ _ called => advance _ called
    rounds := fun _ _ went => advance _ went }

/-- In parentheses a rule of the lowest rank begins one of nearly the highest, on a shorter
text.  A depth that does not suffice is noticed. -/
theorem rules_progress_and_descend_parenthesis :
    Descends 90 ⟨.program, "(x)".toList⟩ ∧
      .call ⟨.parenthesized, "(x)".toList⟩ ⟨.expr, "x)".toList⟩ ∈
        (run 90 ⟨.program, "(x)".toList⟩).events ∧
      .exhausted ⟨.rung ⟨1, by decide⟩, "(x)".toList⟩ ∈
        (run 4 ⟨.program, "(x)".toList⟩).events := by
  refine ⟨rules_progress_and_descend.2 ⟨.program, "(x)".toList⟩ 18, ?_, ?_⟩
  · decide +kernel
  · decide +kernel

end RowFilter.Script
