import RowFilter.Proofs.Script.Frame
import RowFilter.Proofs.Text.Quoted

/-!
# Progress and unfolding

Whatever the grammar reads, it leaves a proper suffix of the text it was given.  So the
readers for the parts of a rule are only ever used on shorter texts, and the bound that
`exprWithin` and `blockWithin` carry makes no difference as long as it exceeds the
length of the text.  With the bound gone, expressions and blocks are given by their
rules alone (`expr_eq`, `block_eq`).
-/

set_option autoImplicit false

namespace RowFilter.Script

open Reader Lexeme Grammar

variable {α : Type}

/-! ## Suffixes left by the smallest readers -/

/-- What the reader leaves is a suffix of its text, and a proper one if it must
progress. -/
def Leaves (progress : Bool) (p : Reader α) : Prop :=
  ∀ ⦃s a rest⦄, p s = some (a, rest) → rest <:+ s ∧ rest.length + progress.toNat ≤ s.length

theorem leaves_satisfying (accepts : Char → Bool) : Leaves true (satisfying accepts) := by
  intro s c rest read
  obtain ⟨_, rfl⟩ := satisfying_eq_some read
  exact ⟨List.suffix_cons c rest, Nat.le_refl _⟩

theorem leaves_char (c : Char) : Leaves true (char c) := by
  intro s found rest read
  rw [char_eq_some read]
  exact ⟨List.suffix_cons c rest, Nat.le_refl _⟩

theorem leaves_word {w : String} (nonempty : w ≠ "") : Leaves true (word w) := by
  intro s found rest read
  rw [word_eq_some_iff.mp read]
  have positive : 0 < w.toList.length :=
    List.length_pos_iff.mpr fun nil => nonempty (String.toList_eq_nil_iff.mp nil)
  refine ⟨List.suffix_append _ _, ?_⟩
  rw [List.length_append, Bool.toNat_true]
  omega

theorem leaves_notNext (refused : Char → Bool) : Leaves false (notNext refused) := by
  intro s found rest read
  rw [notNext_eq_some read]
  exact ⟨List.suffix_refl _, Nat.le_refl _⟩

theorem leaves_run (accepts : Char → Bool) : Leaves false (run accepts) := by
  intro s taken rest read
  cases read
  exact ⟨List.dropWhile_suffix accepts, (List.dropWhile_suffix accepts).length_le⟩

theorem Leaves.bind {β : Type} {progress further : Bool} {p : Reader α} {f : α → Reader β}
    (first : Leaves progress p) (second : ∀ a, Leaves further (f a)) :
    Leaves (progress || further) (p >>= f) := by
  intro s b rest read
  obtain ⟨a, middle, read, read'⟩ := bind_eq_some read
  obtain ⟨suffix, shorter⟩ := first read
  obtain ⟨suffix', shorter'⟩ := second a read'
  refine ⟨suffix'.trans suffix, ?_⟩
  cases progress <;> cases further <;> simp at * <;> omega

theorem Leaves.orElse {progress : Bool} {p : Reader α} {q : Unit → Reader α}
    (first : Leaves progress p) (second : Leaves progress (q ())) :
    Leaves progress (HOrElse.hOrElse p q) := by
  intro s a rest read
  rcases orElse_eq_some read with read | read
  · exact first read
  · exact second read

theorem leaves_pure (a : α) : Leaves false (pure a : Reader α) := by
  intro s b rest read
  cases read
  exact ⟨List.suffix_refl _, Nat.le_refl _⟩

/-- What comes after a comment is found after its first character. -/
theorem afterClosingMark_eq_some {s rest : List Char} (closed : afterClosingMark s = some rest) :
    ∃ c t, s = c :: t ∧ rest <:+ t := by
  fun_induction afterClosingMark s with
  | case1 => cases closed
  | case2 s =>
      cases closed
      exact ⟨_, _, rfl, List.suffix_cons _ _⟩
  | case3 c s other ih =>
      obtain ⟨d, t, rfl, suffix⟩ := ih closed
      exact ⟨_, _, rfl, suffix.trans (List.suffix_cons d t)⟩

theorem afterClosingMark_suffix {s rest : List Char} (closed : afterClosingMark s = some rest) :
    rest <:+ s := by
  obtain ⟨c, t, rfl, suffix⟩ := afterClosingMark_eq_some closed
  exact suffix.trans (List.suffix_cons c t)

theorem afterClosingMark_length {s rest : List Char} (closed : afterClosingMark s = some rest) :
    rest.length < s.length := by
  obtain ⟨c, t, rfl, suffix⟩ := afterClosingMark_eq_some closed
  exact Nat.lt_succ_of_le suffix.length_le

theorem leaves_gap : Leaves true gap := by
  refine .orElse ?_ (.orElse ?_ ?_)
  · exact (leaves_satisfying _).bind fun _ => leaves_pure _
  · exact (leaves_word (by decide)).bind fun _ => (leaves_run _).bind fun _ => leaves_pure _
  · refine (leaves_word (by decide)).bind (?_ : ∀ _, Leaves false _)
    intro _ s found rest read
    obtain ⟨tail, closed, same⟩ := Option.map_eq_some_iff.mp read
    cases same
    exact ⟨afterClosingMark_suffix closed, (afterClosingMark_suffix closed).length_le⟩

theorem gap_progresses : Progresses gap := fun _ _ _ read => (leaves_gap read).2

theorem gaps_apply (s : List Char) : gaps s = some ((), skipGaps s) := rfl

theorem afterGaps_apply {α : Type} (p : Reader α) (s : List Char) :
    afterGaps p s = p (skipGaps s) := rfl

theorem skipGaps_of_some {s : List Char} {found : Unit} {rest : List Char}
    (read : gap s = some (found, rest)) : skipGaps s = skipGaps rest := by
  rw [skipGaps, repeated_of_some gap_progresses read, skipGaps]

theorem skipGaps_of_none {s : List Char} (refused : gap s = none) : skipGaps s = s := by
  rw [skipGaps, repeated_of_none refused]

/-- What remains after all gaps does not begin with one. -/
theorem gap_skipGaps (s : List Char) : gap (skipGaps s) = none := by
  cases read : gap s with
  | none => rw [skipGaps_of_none read, read]
  | some found =>
      rw [skipGaps_of_some read]
      exact gap_skipGaps found.2
termination_by s.length
decreasing_by exact gap_progresses read

/-- A repetition leaves an end of its text, whatever its bound. -/
theorem rounds_suffix {p : Reader α} (leaves : Leaves false p) :
    ∀ (bound s : List Char), (rounds p bound s).2 <:+ s
  | [], s => List.suffix_refl s
  | _ :: bound, s => by
      simp only [rounds]
      split
      · exact List.suffix_refl s
      · next a rest read => exact (rounds_suffix leaves bound rest).trans (leaves read).1

theorem Leaves.loosen {progress : Bool} {p : Reader α} (leaves : Leaves progress p) :
    Leaves false p := fun _ _ _ read =>
  ⟨(leaves read).1, (leaves read).1.length_le⟩

/-- What is left after the gaps is an end of the text. -/
theorem skipGaps_suffix (s : List Char) : skipGaps s <:+ s :=
  rounds_suffix leaves_gap.loosen s s

theorem leaves_gaps : Leaves false gaps := by
  intro s found rest read
  cases read
  exact ⟨skipGaps_suffix s, (skipGaps_suffix s).length_le⟩

theorem leaves_quotedBy (quote : Char) : Leaves true (quotedBy quote) := by
  refine (leaves_char quote).bind (?_ : ∀ _, Leaves false _)
  intro _ s value rest read
  obtain ⟨⟨read', rest'⟩, decoded, same⟩ := Option.map_eq_some_iff.mp read
  cases same
  exact ⟨Quoted.decodeUpTo_suffix decoded, (Quoted.decodeUpTo_suffix decoded).length_le⟩

theorem leaves_quoted : Leaves true quoted :=
  (leaves_quotedBy _).orElse (leaves_quotedBy _)

/-! ## Frames of equal texts -/

/-- Properties of texts that pass to the suffixes that readers leave. -/
theorem suffixFrame {R S : List Char → Prop} (inner : ∀ ⦃s⦄, S s → R s)
    (proper : ∀ ⦃s rest⦄, rest <:+ s → rest.length < s.length → R s → S rest)
    (suffix : ∀ ⦃s rest⦄, rest <:+ s → S s → S rest) :
    Frame (fun _ s t => s = t ∧ R s) (fun _ s t => s = t ∧ S s) := by
  have taking {β : Type} {p : Reader β} (leaves : Leaves true p) :
      Parallel true (fun s t => s = t ∧ R s) (fun s t => s = t ∧ S s) p p :=
    .self fun s a rest holds read =>
      ⟨proper (leaves read).1 (leaves read).2 holds, (leaves read).2⟩
  have looking {β : Type} {p : Reader β} (leaves : Leaves false p) :
      Parallel false (fun s t => s = t ∧ S s) (fun s t => s = t ∧ S s) p p :=
    .self fun s a rest holds read => ⟨suffix (leaves read).1 holds, (leaves read).2⟩
  have insideTaking {β : Type} {p : Reader β} (leaves : Leaves true p) :
      Parallel true (fun s t => s = t ∧ S s) (fun s t => s = t ∧ S s) p p :=
    (taking leaves).weaken (fun _ _ related => ⟨related.1, inner related.2⟩) fun _ _ => id
  exact {
    inner := fun related => ⟨related.1, inner related.2⟩
    satisfying := fun _ => taking (leaves_satisfying _)
    word := fun plain => taking (leaves_word plain.1)
    opening := taking (leaves_char _)
    closing := insideTaking (leaves_char _)
    notNext := fun _ => looking (leaves_notNext _)
    run := fun _ => looking (leaves_run _)
    gaps := looking leaves_gaps
    quoted := taking leaves_quoted
    division := insideTaking (leaves_gaps.bind fun _ => leaves_word (by decide)) }

/-! ## The bound makes no difference -/

/-- Along a frame without a difference inside rules, the bounded readers are in parallel
with themselves. -/
theorem Frame.exprWithin_blockWithin {U : Nat → List Char → List Char → Prop} (F : Frame U U) :
    ∀ n, (∀ d, Parallel true (U d) (U d) (exprWithin n) (exprWithin n)) ∧
      ∀ d, Parallel true (U d) (U d) (blockWithin n) (blockWithin n)
  | 0 => ⟨fun _ => .refuse, fun _ => .refuse⟩
  | n + 1 => by
      obtain ⟨exprs, blocks⟩ := F.exprWithin_blockWithin n
      exact ⟨fun _ => F.expression exprs blocks,
        fun d => F.blockOf (F.statementOf (exprs d) exprs (blocks d))⟩

/-- Texts of fewer than `n` characters, related to themselves. -/
def Shorter (n : Nat) (s t : List Char) : Prop := s = t ∧ s.length < n

/-- Inside a rule the texts have become shorter. -/
theorem shorterFrame (n : Nat) : Frame (fun _ => Shorter (n + 1)) (fun _ => Shorter n) :=
  suffixFrame (fun _ => Nat.lt_succ_of_lt) (fun _ _ _ shorter bound => by omega)
    fun _ _ suffix bound => Nat.lt_of_le_of_lt suffix.length_le bound

theorem shorterFrame_self (n : Nat) : Frame (fun _ => Shorter n) (fun _ => Shorter n) :=
  suffixFrame (fun _ => id) (fun _ _ _ shorter bound => by omega)
    fun _ _ suffix bound => Nat.lt_of_le_of_lt suffix.length_le bound

/-- A text that is shorter than the bound is read in the same way with a larger bound. -/
theorem exprWithin_succ_blockWithin_succ : ∀ n,
    Parallel true (Shorter n) (Shorter n) (exprWithin n) (exprWithin (n + 1)) ∧
      Parallel true (Shorter n) (Shorter n) (blockWithin n) (blockWithin (n + 1))
  | 0 => ⟨fun _ _ related => absurd related.2 (Nat.not_lt_zero _),
      fun _ _ related => absurd related.2 (Nat.not_lt_zero _)⟩
  | n + 1 => by
      obtain ⟨exprs, blocks⟩ := exprWithin_succ_blockWithin_succ n
      have statements := (shorterFrame_self n).statementOf (d := 0) exprs (fun _ => exprs) blocks
      have outer : ∀ ⦃s t⦄, Shorter n s t → Shorter (n + 1) s t := fun _ _ related =>
        ⟨related.1, Nat.lt_succ_of_lt related.2⟩
      exact ⟨((shorterFrame n).expression (d := 0) (fun _ => exprs) fun _ => blocks).weaken
          (fun _ _ => id) outer,
        ((shorterFrame n).blockOf (d := 0) statements).weaken (fun _ _ => id) outer⟩

/-- For a text shorter than the bound, the bound plays no part. -/
theorem exprWithin_eq_expr {n : Nat} {s : List Char} (short : s.length < n) :
    exprWithin n s = expr s := by
  induction n with
  | zero => exact absurd short (Nat.not_lt_zero _)
  | succ n ih =>
      by_cases last : s.length = n
      · subst last
        rfl
      · have shorter : s.length < n := by omega
        rw [← ih shorter, (exprWithin_succ_blockWithin_succ n).1.apply_eq ⟨rfl, shorter⟩
          fun _ _ => And.left]

theorem blockWithin_eq_block {n : Nat} {s : List Char} (short : s.length < n) :
    blockWithin n s = block s := by
  induction n with
  | zero => exact absurd short (Nat.not_lt_zero _)
  | succ n ih =>
      by_cases last : s.length = n
      · subst last
        rfl
      · have shorter : s.length < n := by omega
        rw [← ih shorter, (exprWithin_succ_blockWithin_succ n).2.apply_eq ⟨rfl, shorter⟩
          fun _ _ => And.left]

/-- On shorter texts the bounded readers are in parallel with the unbounded ones. -/
theorem exprWithin_expr (n : Nat) :
    Parallel true (Shorter n) (Shorter n) (exprWithin n) expr := by
  rintro s t ⟨rfl, shorter⟩
  rw [← exprWithin_eq_expr shorter]
  exact ((shorterFrame_self n).exprWithin_blockWithin n).1 0 s s ⟨rfl, shorter⟩

theorem blockWithin_block (n : Nat) :
    Parallel true (Shorter n) (Shorter n) (blockWithin n) block := by
  rintro s t ⟨rfl, shorter⟩
  rw [← blockWithin_eq_block shorter]
  exact ((shorterFrame_self n).exprWithin_blockWithin n).2 0 s s ⟨rfl, shorter⟩

/-- **An expression is what the rule for expressions reads.** -/
theorem expr_eq : expr = expression expr block := by
  funext s
  exact ((shorterFrame s.length).expression (d := 0) (fun _ => exprWithin_expr _) fun _ =>
    blockWithin_block _).apply_eq ⟨rfl, Nat.lt_succ_self _⟩ fun _ _ => And.left

/-- **A block is what the rule for blocks reads.** -/
theorem block_eq : block = blockOf statement := by
  funext s
  have statements := (shorterFrame_self s.length).statementOf (d := 0) (exprWithin_expr _)
    (fun _ => exprWithin_expr _) (blockWithin_block _)
  exact ((shorterFrame s.length).blockOf (d := 0) statements).apply_eq
    ⟨rfl, Nat.lt_succ_self _⟩ fun _ _ => And.left

/-! ## Along any frame -/

section Whole

variable {U : Nat → List Char → List Char → Prop} (F : Frame U U) (d : Nat)
include F

theorem Frame.expr : Parallel true (U d) (U d) expr expr := by
  intro s t related
  have bounded := (F.exprWithin_blockWithin (max s.length t.length + 1)).1 d s t related
  rwa [exprWithin_eq_expr (by omega), exprWithin_eq_expr (by omega)] at bounded

theorem Frame.block : Parallel true (U d) (U d) block block := by
  intro s t related
  have bounded := (F.exprWithin_blockWithin (max s.length t.length + 1)).2 d s t related
  rwa [blockWithin_eq_block (by omega), blockWithin_eq_block (by omega)] at bounded

theorem Frame.statement : Parallel true (U d) (U d) statement statement :=
  F.statementOf (F.expr d) F.expr (F.block d)

end Whole

/-! ## Progress -/

/-- The frame of equal texts. -/
theorem equalFrame : Frame (fun _ s t => s = t ∧ True) (fun _ s t => s = t ∧ True) :=
  suffixFrame (fun _ => id) (fun _ _ _ _ => id) fun _ _ _ => id

/-- A reader that runs in parallel with itself on equal texts takes a character. -/
theorem Parallel.progresses_of_equal {p : Reader α}
    (parallel : Parallel true (fun s t => s = t ∧ True) (fun s t => s = t ∧ True) p p) :
    Progresses p :=
  (parallel.weaken (fun _ _ same => ⟨same, trivial⟩) fun _ _ => id :
    Parallel true Eq _ p p).progresses

theorem access_progresses : Progresses (access expr) :=
  Parallel.progresses_of_equal (equalFrame.access (d := 0) equalFrame.expr)

theorem unaryMark_progresses : Progresses unaryMark :=
  Parallel.progresses_of_equal (equalFrame.unaryMark (d := 0))

theorem spaced_progresses : Progresses (spaced statement) :=
  Parallel.progresses_of_equal <|
    (equalFrame.statement 0).bind fun _ => (equalFrame.gaps (d := 0)).bind fun _ => .pure _

end RowFilter.Script
