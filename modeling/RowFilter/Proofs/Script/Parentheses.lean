import RowFilter.Proofs.Script.Progress
import RowFilter.Proofs.Text.Cutting

/-!
# The parenthesis that closes

A text in which a parenthesis has been opened can be searched for the one that closes
it, without reading the text as a script: comments and quoted texts are passed over,
and other parentheses are counted (`closing`).  The grammar keeps to this search.
Whatever it reads from a text, the search from there on ends at the same place
(`balancedFrame`), so an expression in parentheses and a list in parentheses that begin
at the same place also end at the same place.

A parenthesis added at the end of a text is seen by the grammar only where the search
arrives there.  If it does, the grammar reads the text as it would without the
parenthesis (`appendedFrame`).  It may not, because the parenthesis may have become part
of a comment, or because another one has closed before it.
-/

set_option autoImplicit false

namespace RowFilter.Script

open Reader Lexeme Grammar

/-- What follows the parenthesis that closes, with `d` more parentheses open inside. -/
def closing (d : Nat) (s : List Char) : Option (List Char) :=
  match _ : gap s with
  | some (_, rest) => closing d rest
  | none =>
    match _ : quoted s with
    | some (_, rest) => closing d rest
    | none =>
      match s with
      | [] => none
      | c :: rest =>
        if c = '(' then closing (d + 1) rest
        else if c = ')' then
          match d with
          | 0 => some rest
          | d + 1 => closing d rest
        else closing d rest
termination_by s.length
decreasing_by
  · exact gap_progresses ‹_›
  · exact (leaves_quoted ‹_›).2
  all_goals exact Nat.lt_succ_self _

/-! ## One step of the search -/

theorem gap_cons_eq_none {c : Char} (s : List Char) (space : isSpace c = false) (slash : c ≠ '/') :
    gap (c :: s) = none := by
  have noMark {w : String} {rest : List Char} (first : w.toList = '/' :: rest) :
      word w (c :: s) = none := word_eq_none fun t same => by
    rw [first] at same
    exact slash (List.head_eq_of_cons_eq same)
  have noLine : lineComment (c :: s) = none := bind_of_none (noMark rfl)
  have noBlock : blockComment (c :: s) = none := bind_of_none (noMark rfl)
  rw [gap, orElse_of_none (bind_of_none (by simp [space])), orElse_of_none noLine, noBlock]

theorem quoted_cons_eq_none {c : Char} (s : List Char) (double : c ≠ '"') (single : c ≠ '\x27') :
    quoted (c :: s) = none := by
  have refused {quote : Char} (other : c ≠ quote) : quotedBy quote (c :: s) = none :=
    bind_of_none (by simp [other])
  rw [quoted, orElse_of_none (refused double), refused single]

theorem gap_of_plain {c : Char} (s : List Char) (plain : isPlain c = true) :
    gap (c :: s) = none := by
  simp only [isPlain, Bool.and_eq_true, Bool.not_eq_true', bne_iff_ne] at plain
  exact gap_cons_eq_none s plain.1.1.1.1.1 plain.1.1.1.1.2

theorem gap_of_quoted {s : List Char} {v : Value} {rest : List Char}
    (read : quoted s = some (v, rest)) : gap s = none := by
  have opened {quote : Char} (read : quotedBy quote s = some (v, rest)) :
      ∃ rest', s = quote :: rest' := by
    obtain ⟨_, rest', opening, _⟩ := bind_eq_some read
    exact ⟨rest', char_eq_some opening⟩
  rcases orElse_eq_some read with read | read
  · obtain ⟨rest', rfl⟩ := opened read
    exact gap_cons_eq_none _ rfl (by decide)
  · obtain ⟨rest', rfl⟩ := opened read
    exact gap_cons_eq_none _ rfl (by decide)

variable {d : Nat} {s rest : List Char}

/-- Parentheses inside a comment do not count. -/
theorem closing_of_gap {found : Unit} (read : gap s = some (found, rest)) :
    closing d s = closing d rest := by
  rw [closing]
  split
  · next found' rest' read' =>
      rw [read] at read'
      cases read'
      rfl
  · next refused =>
      rw [read] at refused
      cases refused

/-- Parentheses inside a quoted text do not count. -/
theorem closing_of_quoted {v : Value} (read : quoted s = some (v, rest)) :
    closing d s = closing d rest := by
  rw [closing]
  split
  · next found' rest' gapped =>
      rw [gap_of_quoted read] at gapped
      cases gapped
  · split
    · next v' rest' read' =>
        rw [read] at read'
        cases read'
        rfl
    · next refused =>
        rw [read] at refused
        cases refused

/-- Gaps before a parenthesis do not count. -/
theorem closing_skipGaps (s : List Char) : closing d (skipGaps s) = closing d s := by
  cases read : gap s with
  | none => rw [skipGaps_of_none read]
  | some found =>
      rw [skipGaps_of_some read, closing_of_gap read]
      exact closing_skipGaps found.2
termination_by s.length
decreasing_by exact gap_progresses read

theorem closing_nil : closing d [] = none := by
  rw [closing]
  rfl

/-- A character that begins neither a gap nor a quoted text is counted or passed over. -/
theorem closing_cons {c : Char} (noGap : gap (c :: s) = none) (noQuote : quoted (c :: s) = none) :
    closing d (c :: s) =
      if c = '(' then closing (d + 1) s
      else if c = ')' then
        match d with
        | 0 => some s
        | d + 1 => closing d s
      else closing d s := by
  rw [closing]
  split
  · next gapped =>
      rw [noGap] at gapped
      cases gapped
  · split
    · next unit =>
        rw [noQuote] at unit
        cases unit
    · rfl

theorem closing_open (s : List Char) : closing d ('(' :: s) = closing (d + 1) s :=
  closing_cons (gap_cons_eq_none s rfl (by decide))
    (quoted_cons_eq_none s (by decide) (by decide))

theorem closing_zero (s : List Char) : closing 0 (')' :: s) = some s :=
  closing_cons (gap_cons_eq_none s rfl (by decide))
    (quoted_cons_eq_none s (by decide) (by decide))

theorem closing_succ (s : List Char) : closing (d + 1) (')' :: s) = closing d s :=
  closing_cons (gap_cons_eq_none s rfl (by decide))
    (quoted_cons_eq_none s (by decide) (by decide))

theorem closing_plain {c : Char} (s : List Char) (plain : isPlain c = true) :
    closing d (c :: s) = closing d s := by
  have noGap := gap_of_plain s plain
  simp only [isPlain, Bool.and_eq_true, bne_iff_ne] at plain
  rw [closing_cons noGap (quoted_cons_eq_none s plain.1.1.1.2 plain.1.1.2), if_neg plain.1.2,
    if_neg plain.2]

theorem closing_slash {s : List Char} (noGap : gap ('/' :: s) = none) :
    closing d ('/' :: s) = closing d s :=
  closing_cons noGap (quoted_cons_eq_none s (by decide) (by decide))

/-! ## What the grammar reads keeps the search -/

/-- A text of plain characters neither opens nor closes anything. -/
theorem closing_plain_append {w : List Char} (plain : ∀ c ∈ w, isPlain c = true) (s : List Char) :
    closing d (w ++ s) = closing d s := by
  induction w with
  | nil => rfl
  | cons c w ih =>
      rw [List.cons_append, closing_plain _ (plain c List.mem_cons_self),
        ih fun c member => plain c (List.mem_cons_of_mem _ member)]

theorem closing_dropWhile {accepts : Char → Bool} (plain : Plain accepts) (s : List Char) :
    closing d (s.dropWhile accepts) = closing d s := by
  have taken : ∀ c ∈ s.takeWhile accepts, isPlain c = true := fun c member =>
    plain c (List.all_eq_true.mp List.all_takeWhile c member)
  rw [← closing_plain_append taken, List.takeWhile_append_dropWhile]

/-- Reading moves the search along, from the first depth to the second. -/
def Keeps {α : Type} (d d' : Nat) (p : Reader α) : Prop :=
  ∀ ⦃s a rest⦄, p s = some (a, rest) → closing d s = closing d' rest

theorem keeps_satisfying {accepts : Char → Bool} (plain : Plain accepts) :
    Keeps d d (satisfying accepts) := by
  intro s c rest read
  obtain ⟨accepted, rfl⟩ := satisfying_eq_some read
  exact closing_plain rest (plain c accepted)

theorem keeps_word {w : String} (plain : PlainWord w) : Keeps d d (word w) := by
  intro s _ rest read
  rw [word_eq_some_iff.mp read, closing_plain_append (List.all_eq_true.mp plain.2)]

/-- An opening parenthesis leads one parenthesis deeper. -/
theorem keeps_opening : Keeps d (d + 1) (char '(') := by
  intro s _ rest read
  rw [char_eq_some read, closing_open]

/-- A closing parenthesis leads back. -/
theorem keeps_closing : Keeps (d + 1) d (char ')') := by
  intro s _ rest read
  rw [char_eq_some read, closing_succ]

theorem keeps_notNext (refused : Char → Bool) : Keeps d d (notNext refused) := by
  intro s _ rest read
  rw [notNext_eq_some read]

theorem keeps_run {accepts : Char → Bool} (plain : Plain accepts) : Keeps d d (run accepts) := by
  intro s _ rest read
  cases read
  exact (closing_dropWhile plain s).symm

theorem keeps_gap : Keeps d d gap := fun _ _ _ read => closing_of_gap read

theorem keeps_gaps : Keeps d d gaps := by
  intro s _ rest read
  cases read
  exact (closing_skipGaps s).symm

theorem keeps_quoted : Keeps d d quoted := fun _ _ _ read => closing_of_quoted read

theorem keeps_division : Keeps d d (afterGaps (word "/")) := by
  intro s _ rest read
  obtain ⟨_, middle, skipped, slash⟩ := bind_eq_some read
  cases skipped
  have same : skipGaps s = '/' :: rest := word_eq_some_iff.mp slash
  have noGap := gap_skipGaps s
  rw [same] at noGap
  rw [← closing_skipGaps, same, closing_slash noGap]

theorem leaves_division : Leaves true (afterGaps (word "/")) :=
  leaves_gaps.bind fun _ => leaves_word (by decide)

/-- A reader that keeps count runs in parallel with itself on a text and its parenthesis. -/
theorem Keeps.balanced {α : Type} {progress : Bool} {d' : Nat} {p : Reader α}
    (keeps : Keeps d d' p) (leaves : Leaves progress p) (found : Option (List Char)) :
    Parallel progress (fun s t => s = t ∧ closing d s = found)
      (fun s t => s = t ∧ closing d' s = found) p p :=
  .self fun _ _ _ holds read => ⟨(keeps read).symm.trans holds, (leaves read).2⟩

/-- Texts from which the search ends at the same place. -/
theorem balancedFrame (found : Option (List Char)) :
    Frame (fun d s t => s = t ∧ closing d s = found)
      (fun d s t => s = t ∧ closing d s = found) where
  inner := id
  satisfying plain := (keeps_satisfying plain).balanced (leaves_satisfying _) found
  word plain := (keeps_word plain).balanced (leaves_word plain.1) found
  opening := keeps_opening.balanced (leaves_char _) found
  closing := keeps_closing.balanced (leaves_char _) found
  notNext _ := (keeps_notNext _).balanced (leaves_notNext _) found
  run plain := (keeps_run plain).balanced (leaves_run _) found
  gaps := keeps_gaps.balanced leaves_gaps found
  quoted := keeps_quoted.balanced leaves_quoted found
  division := keeps_division.balanced leaves_division found

/-! ## A parenthesis at the end -/

theorem gap_line (s : List Char) :
    gap ('/' :: '/' :: s) = some ((), s.dropWhile fun c => c != '\n' && c != '\r') := by
  have read : word "//" ('/' :: '/' :: s) = some ((), s) := word_append "//" s
  rw [gap, orElse_of_none (bind_of_none (by simp [isSpace])), orElse_of_some]
  rw [lineComment, bind_of_some read]
  rfl

theorem gap_block (s : List Char) :
    gap ('/' :: '*' :: s) = (afterClosingMark s).map fun rest => ((), rest) := by
  have read : word "/*" ('/' :: '*' :: s) = some ((), s) := word_append "/*" s
  have noLine : lineComment ('/' :: '*' :: s) = none :=
    bind_of_none (word_eq_none fun rest same => by simp at same)
  have block : blockComment ('/' :: '*' :: s) = (afterClosingMark s).map fun rest => ((), rest) :=
    bind_of_some read
  rw [gap, orElse_of_none (bind_of_none (by simp [isSpace])), orElse_of_none noLine, block]

/-- A slash begins a comment only together with a second mark. -/
theorem gap_slash {s : List Char} (other : ∀ c ∈ s.head?, c ≠ '/' ∧ c ≠ '*') :
    gap ('/' :: s) = none := by
  have noLine : lineComment ('/' :: s) = none := bind_of_none <| word_eq_none fun rest same => by
    obtain rfl : s = '/' :: rest := by simpa using same
    exact (other '/' rfl).1 rfl
  have noBlock : blockComment ('/' :: s) = none := bind_of_none <| word_eq_none fun rest same => by
    obtain rfl : s = '*' :: rest := by simpa using same
    exact (other '*' rfl).2 rfl
  rw [gap, orElse_of_none (bind_of_none (by simp [isSpace])), orElse_of_none noLine, noBlock]

theorem afterClosingMark_append :
    ∀ s : List Char, afterClosingMark (s ++ [')']) = (afterClosingMark s).map (· ++ [')'])
  | [] => rfl
  | [c] => by
      by_cases star : c = '*'
      · subst star
        rfl
      · simp [afterClosingMark, star]
  | c :: next :: s => by
      have later := afterClosingMark_append (next :: s)
      by_cases mark : c = '*' ∧ next = '/'
      · obtain ⟨rfl, rfl⟩ := mark
        rfl
      · have skip (rest : List Char) :
            afterClosingMark (c :: next :: rest) = afterClosingMark (next :: rest) := by
          rw [afterClosingMark.eq_3]
          rintro rest' rfl same
          exact mark ⟨rfl, (List.cons.inj same).1⟩
        rw [List.cons_append, List.cons_append, skip, skip, ← later, List.cons_append]

theorem quotedBy_append {quote : Char} (other : ')' ≠ quote) (s : List Char) :
    Same [')'] (quotedBy quote) s := by
  cases s with
  | nil => exact .of_none (bind_of_none (by simp [other])) rfl
  | cons c s =>
      refine (char_same (List.cons_ne_nil c s)).bind fun _ u _ => ?_
      show Option.map _ (Quoted.decodeUpTo quote (u ++ [')'])) = _
      rw [Quoted.decodeUpTo_append other (by decide), Option.map_map, Option.map_map]
      rfl

theorem quoted_append (s : List Char) : Same [')'] quoted s :=
  (quotedBy_append (by decide) s).orElse (quotedBy_append (by decide) s)

/-- A gap before the last character is the same without it, unless it is a comment that
goes on to the end. -/
theorem gap_append (s : List Char) :
    Same [')'] gap s ∨ gap s = some ((), []) ∧ gap (s ++ [')']) = some ((), []) := by
  match s with
  | [] => exact .inl rfl
  | c :: s =>
      by_cases space : isSpace c = true
      · have read (t : List Char) : gap (c :: t) = some ((), t) :=
          orElse_of_some (by simp [space])
        exact .inl (.of_some (read _) (read s))
      · rw [Bool.not_eq_true] at space
        by_cases slash : c = '/'
        · subst slash
          match s with
          | [] => exact .inl rfl
          | next :: s =>
              by_cases line : next = '/'
              · subst line
                simp only [Same, List.cons_append, gap_line, List.dropWhile_append]
                split
                · next ended =>
                    exact .inr ⟨by rw [List.isEmpty_iff.mp ended], rfl⟩
                · exact .inl rfl
              · by_cases block : next = '*'
                · subst block
                  refine .inl ?_
                  simp only [Same, List.cons_append, gap_block, afterClosingMark_append,
                    Option.map_map]
                  rfl
                · have refused (t : List Char) : gap ('/' :: next :: t) = none :=
                    gap_slash fun c head => by
                      obtain rfl : next = c := by simpa using head
                      exact ⟨line, block⟩
                  exact .inl (.of_none (refused _) (refused s))
        · have refused (t : List Char) : gap (c :: t) = none := gap_cons_eq_none t space slash
          exact .inl (.of_none (refused _) (refused s))

/-- The search arrives at the parenthesis that has been added at the end. -/
def Arrives (d : Nat) (s : List Char) : Prop := closing d (s ++ [')']) = some []

/-- A gap is read as without the added parenthesis, if the search arrives at that parenthesis.
-/
theorem gap_of_arrives {s : List Char} {d : Nat} (arrives : Arrives d s) : Same [')'] gap s := by
  rcases gap_append s with same | ⟨_, swallowed⟩
  · exact same
  · rw [Arrives, closing_of_gap swallowed, closing_nil] at arrives
    cases arrives

/-- What is read on the way to the added parenthesis leaves the search on that way. -/
theorem Keeps.arrives {α : Type} {d' : Nat} {p : Reader α} {s rest : List Char} {a : α}
    (keeps : Keeps d d' p) (same : Same [')'] p s) (read : p s = some (a, rest))
    (arrives : Arrives d s) : Arrives d' rest := by
  rwa [Arrives, keeps (same.append_of_some read)] at arrives

/-- If each gap is the same with more text behind it, so are all gaps together. -/
theorem skipGaps_append_of {r : List Char} {P : List Char → Prop}
    (same : ∀ ⦃u⦄, P u → Same r gap u)
    (keeps : ∀ ⦃u v⦄, P u → gap u = some ((), v) → P v) {u : List Char} (holds : P u) :
    skipGaps (u ++ r) = skipGaps u ++ r := by
  cases read : gap u with
  | none =>
      rw [skipGaps_of_none read, skipGaps_of_none ((same holds).append_of_none read)]
  | some found =>
      rw [skipGaps_of_some read, skipGaps_of_some ((same holds).append_of_some read),
        skipGaps_append_of same keeps (keeps holds read)]
termination_by u.length
decreasing_by exact gap_progresses read

theorem skipGaps_append {d : Nat} (s : List Char) (arrives : Arrives d s) :
    skipGaps (s ++ [')']) = skipGaps s ++ [')'] :=
  skipGaps_append_of (fun _ => gap_of_arrives)
    (fun _ _ arrives read => keeps_gap.arrives (gap_of_arrives arrives) read arrives) arrives

/-- A reader that keeps count reads a text as it does with the added parenthesis behind it. -/
theorem Keeps.appended {α : Type} {progress : Bool} {d' : Nat} {p : Reader α}
    (keeps : Keeps d d' p) (leaves : Leaves progress p)
    (same : ∀ s, Arrives d s → Same [')'] p s) :
    Parallel progress (fun s t => t = s ++ [')'] ∧ Arrives d s)
      (fun s t => t = s ++ [')'] ∧ Arrives d' s) p p := by
  rintro s _ ⟨rfl, arrives⟩
  have reading := same s arrives
  cases read : p s with
  | none => exact .inl ⟨rfl, reading.append_of_none read⟩
  | some found =>
      have whole := reading.append_of_some read
      exact .inr ⟨found.1, found.2, found.2 ++ [')'], rfl, whole,
        ⟨rfl, keeps.arrives reading read arrives⟩, (leaves read).2, (leaves whole).2⟩

/-- A class without the parenthesis does not see the added one. -/
theorem satisfying_append {accepts : Char → Bool} (refused : accepts ')' = false) (s : List Char) :
    Same [')'] (satisfying accepts) s := by
  cases s with
  | nil => simp [Same, refused]
  | cons c s => exact satisfying_same (List.cons_ne_nil c s)

theorem word_append_close {w : String} (absent : ')' ∉ w.toList) (s : List Char) :
    Same [')'] (word w) s := by
  refine word_same_of_refused fun refused => word_eq_none fun rest spelled => ?_
  rcases List.eq_nil_or_concat rest with rfl | ⟨t, c, rfl⟩
  · rw [List.append_nil] at spelled
    exact absent (spelled ▸ List.mem_append_right s List.mem_cons_self)
  · rw [List.concat_eq_append, ← List.append_assoc] at spelled
    rw [List.append_inj_left' spelled rfl, word_append] at refused
    cases refused

theorem run_append_close {accepts : Char → Bool} (refused : accepts ')' = false) (s : List Char) :
    Same [')'] (run accepts) s := by
  have ends : ∀ c ∈ (s.dropWhile accepts ++ [')']).head?, accepts c = false := by
    intro c head
    have stopped := List.head?_dropWhile_not accepts s
    cases left : s.dropWhile accepts with
    | nil =>
        rw [left] at head
        obtain rfl : ')' = c := by simpa using head
        exact refused
    | cons d rest =>
        rw [left] at head stopped
        obtain rfl : d = c := by simpa using head
        exact stopped
  have taken := run_append (List.all_eq_true.mp (List.all_takeWhile (l := s))) ends
  rw [← List.append_assoc, List.takeWhile_append_dropWhile] at taken
  exact .of_some taken (run_apply accepts s)

/-- The closing parenthesis is in no plain class. -/
theorem plain_refuses_close {accepts : Char → Bool} (plain : Plain accepts) :
    accepts ')' = false := by
  cases accepted : accepts ')' with
  | false => rfl
  | true => exact absurd (plain ')' accepted) (by decide)

theorem gaps_append (s : List Char) (arrives : Arrives d s) : Same [')'] gaps s := by
  rw [Same, gaps_apply, gaps_apply, skipGaps_append s arrives, Option.map_some]

/-- What is read from a text is read from it with a parenthesis added at the end, if the
search arrives there. -/
theorem appendedFrame :
    Frame (fun d s t => t = s ++ [')'] ∧ Arrives d s)
      (fun d s t => t = s ++ [')'] ∧ Arrives d s) where
  inner := id
  satisfying plain := (keeps_satisfying plain).appended (leaves_satisfying _) fun s _ =>
    satisfying_append (plain_refuses_close plain) s
  word plain := (keeps_word plain).appended (leaves_word plain.1) fun s _ =>
    word_append_close (fun member => absurd (List.all_eq_true.mp plain.2 _ member) (by decide)) s
  opening := keeps_opening.appended (leaves_char _) fun s _ => by
    cases s with
    | nil => rfl
    | cons c s => exact char_same (List.cons_ne_nil c s)
  closing := keeps_closing.appended (leaves_char _) fun s arrives => by
    cases s with
    | nil =>
        rw [Arrives, List.nil_append, closing_succ, closing_nil] at arrives
        cases arrives
    | cons c s => exact char_same (List.cons_ne_nil c s)
  notNext refused := (keeps_notNext _).appended (leaves_notNext _) fun s _ => by
    cases s with
    | nil => simp [Same, refused]
    | cons c s => exact notNext_same (List.cons_ne_nil c s)
  run plain := (keeps_run plain).appended (leaves_run _) fun s _ =>
    run_append_close (plain_refuses_close plain) s
  gaps := keeps_gaps.appended leaves_gaps fun s arrives => gaps_append s arrives
  quoted := keeps_quoted.appended leaves_quoted fun s _ => quoted_append s
  division := keeps_division.appended leaves_division fun s arrives =>
    (gaps_append s arrives).bind fun _ u _ => word_append_close (by decide) u

/-! ### What the search does with it -/

/-- A text with a parenthesis at the end is searched as the text is after one step. -/
theorem closing_append_of_eq {d' : Nat} {t : List Char}
    (step : closing d (s ++ [')']) = closing d' (t ++ [')']))
    (later : closing d' (t ++ [')']) = none ∨ Arrives d' t) :
    closing d (s ++ [')']) = none ∨ Arrives d s := by
  rwa [Arrives, step]

theorem closing_append_nil : closing d ([] ++ [')']) = none ∨ Arrives d [] := by
  cases d with
  | zero => exact .inr (closing_zero [])
  | succ d => exact .inl ((closing_succ []).trans closing_nil)

theorem closing_append_of_gap {found : Unit} (gapped : gap s = some (found, rest))
    (later : closing d (rest ++ [')']) = none ∨ Arrives d rest) :
    closing d (s ++ [')']) = none ∨ Arrives d s := by
  rcases gap_append s with same | ⟨_, swallowed⟩
  · exact closing_append_of_eq (closing_of_gap (same.append_of_some gapped)) later
  · exact .inl ((closing_of_gap swallowed).trans closing_nil)

/-- An added parenthesis makes no gap where there was none. -/
theorem gap_append_eq_none (noGap : gap s = none) : gap (s ++ [')']) = none := by
  rcases gap_append s with same | ⟨read, _⟩
  · exact same.append_of_none noGap
  · rw [noGap] at read
    cases read

/-- Where nothing closes, a parenthesis added at the end closes, unless it is swallowed. -/
theorem closing_append : ∀ {d : Nat} (s : List Char), closing d s = none →
    closing d (s ++ [')']) = none ∨ Arrives d s := by
  intro d s none_closes
  cases gapped : gap s with
  | some found =>
      rw [closing_of_gap gapped] at none_closes
      exact closing_append_of_gap gapped (closing_append found.2 none_closes)
  | none =>
      have noGap := gap_append_eq_none gapped
      cases unit : quoted s with
      | some found =>
          rw [closing_of_quoted unit] at none_closes
          have step := closing_of_quoted (d := d) ((quoted_append s).append_of_some unit)
          exact closing_append_of_eq step (closing_append found.2 none_closes)
      | none =>
          have noQuote := (quoted_append s).append_of_none unit
          match s with
          | [] => exact closing_append_nil
          | c :: s =>
              have step := closing_cons (d := d) noGap noQuote
              rw [closing_cons gapped unit] at none_closes
              split_ifs at none_closes step with opens closes
              · exact closing_append_of_eq step (closing_append s none_closes)
              · cases d with
                | zero => cases none_closes
                | succ d => exact closing_append_of_eq step (closing_append s none_closes)
              · exact closing_append_of_eq step (closing_append s none_closes)
termination_by _ s => s.length
decreasing_by
  all_goals first
    | exact Nat.lt_succ_self _
    | exact gap_progresses gapped
    | exact (leaves_quoted unit).2

end RowFilter.Script
