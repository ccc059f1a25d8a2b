import RowFilter.Proofs.Script.Nesting

/-!
# The grammar on the beginning of a script

A script is cut at a place between two units that no gap follows.  Then every rule of the
grammar is local: it reads from the beginning what it reads from the whole, as long as it
does not go on into the rest, and it refuses the beginning if it refuses the whole.

Most rules are local because their parts are.  The exceptions are those where something
has to be closed: parentheses, brackets and braces, and a conditional, where the colon
closes what the question mark has opened.  There the part in between may go on into the
rest and then miss its closing mark, although in the beginning alone it would find one.
But what is read is balanced, so in the whole text that closing mark would be the first
without an opening one, and nothing that is read goes on beyond it.
-/

set_option autoImplicit false

namespace RowFilter.Script

open Reader Lexeme Grammar

variable {α β : Type} {Q : Nesting → Prop} {r : List Char}

/-! ## Balanced parts -/

/-- A place is reached, and from the given nestings the search for a closing mark goes on
there. -/
def Balanced (Q : Nesting → Prop) (s t : List Char) : Prop :=
  Reaches s t ∧ ∀ n, Q n → unmatched n s = unmatched n t

/-- From every nesting. -/
def Everywhere : Nesting → Prop := fun _ => True

/-- From no nesting. -/
def Nowhere : Nesting → Prop := fun _ => False

/-- Balanced ways are ways between places. -/
theorem balancedCut : Cut Reaches (Balanced Q) Blank where
  refl _ := ⟨.refl, fun _ _ => rfl⟩
  trans first second := ⟨first.1.trans second.1, fun n search =>
    (first.2 n search).trans (second.2 n search)⟩
  reach := And.left
  suffix := reachesCut.suffix
  linear := reachesCut.linear
  spent := reachesCut.spent
  nil := reachesCut.nil

/-- What is balanced for some searches is balanced for fewer. -/
theorem Balanced.weaken {Q' : Nesting → Prop} (le : ∀ n, Q' n → Q n) ⦃s t : List Char⦄
    (balanced : Balanced Q s t) : Balanced Q' s t :=
  ⟨balanced.1, fun n search => balanced.2 n (le n search)⟩

theorem Balanced.nowhere ⦃s t : List Char⦄ (balanced : Balanced Q s t) : Balanced Nowhere s t :=
  balanced.weaken fun _ impossible => impossible.elim

/-- A unit that opens and closes nothing is balanced for every search. -/
theorem balanced_passage {s t : List Char} (read : passage s = some ((), t)) : Balanced Q s t :=
  ⟨.single (unit_of_passage read), fun _ _ => unmatched_of_passage read⟩

theorem balanced_skipGaps (s : List Char) : Balanced Q s (skipGaps s) :=
  ⟨reaches_skipGaps s, fun _ _ => (unmatched_skipGaps s).symm⟩

theorem reaches_cons {c : Char} {s : List Char} (noPassage : passage (c :: s) = none) :
    Balanced Nowhere (c :: s) s :=
  ⟨.single (unit_cons noPassage), fun _ impossible => impossible.elim⟩

/-- A character that is a unit and opens and closes nothing. -/
def isNeutral (c : Char) : Bool :=
  isSingle c && !Nesting.isOpening c && !Nesting.isClosing c && c != '?' && c != ':'

theorem balanced_cons {c : Char} {s : List Char} (noPassage : passage (c :: s) = none)
    (other : c ≠ '?') (turned : ∀ n, Q n → n.turn c = some n) : Balanced Q (c :: s) s :=
  ⟨.single (unit_cons noPassage), fun n search =>
    unmatched_of_turn noPassage (.inl other) (turned n search)⟩

theorem balanced_neutral {c : Char} (neutral : isNeutral c = true) (s : List Char) :
    Balanced Q (c :: s) s := by
  simp only [isNeutral, Bool.and_eq_true, Bool.not_eq_true', bne_iff_ne] at neutral
  obtain ⟨⟨⟨⟨single, opening⟩, closing⟩, question⟩, colon⟩ := neutral
  refine balanced_cons (passage_of_isSingle s single) question fun n _ => ?_
  simp [Nesting.turn, opening, closing, question, colon]

/-- A word of characters that open and close nothing is balanced for every search. -/
theorem balanced_word {w : List Char} (neutral : w.all isNeutral = true) (s : List Char) :
    Balanced Q (w ++ s) s := by
  induction w with
  | nil => exact balancedCut.refl s
  | cons c w ih =>
      rw [List.all_cons, Bool.and_eq_true] at neutral
      exact balancedCut.trans (balanced_neutral neutral.1 (w ++ s)) (ih neutral.2)

/-! ## Lexemes -/

section Lexemes

variable (ends : gap r = none)
include ends

/-- What never begins with a gap and is read in full from what a unit has left is refused
only where nothing but a gap is left. -/
theorem late_of_gap {Path : List Char → List Char → Prop} {p : Reader α}
    (path : ∀ ⦃s a rest⦄, p s = some (a, rest) → Path s rest) (takes : Progresses p)
    (nil : p [] = none) (begins : ∀ ⦃s a rest⦄, p s = some (a, rest) → gap s = none)
    (same : ∀ ⦃u⦄, Reaches (u ++ r) r → u ≠ [] → Same r p u) :
    Late Reaches Path Blank r p where
  path := path
  takes := takes
  empty u blank := by
    cases read : p u with
    | none => rfl
    | some found =>
        have empty : u = [] := (skipGaps_of_none (begins read)).symm.trans blank
        rw [empty, nil] at read
        cases read
  same u place fresh := same place fun empty => fresh (empty ▸ rfl)
  beyond u a rest place blank read := by
    have noGap : gap u = none := (gap_same ends place).eq_none (begins read)
    have empty : u = [] := (skipGaps_of_none noGap).symm.trans blank
    subst empty
    exact takes read

/-- A reader of single units other than gaps reads every part as the whole, unless the part is
used up. -/
theorem late_of_passage {p : Reader α}
    (solid : Solid (fun s t => t <:+ s) (fun s t => t <:+ s) (· = []) r p)
    (passes : ∀ {s a rest}, p s = some (a, rest) → passage s = some ((), rest))
    (begins : ∀ ⦃s a rest⦄, p s = some (a, rest) → gap s = none) :
    Late Reaches (Balanced Q) Blank r p :=
  late_of_gap ends (fun _ _ _ read => balanced_passage (passes read)) solid.takes
    (solid.empty rfl) begins fun _ => same_of_passage solid passes

theorem late_name : Late Reaches (Balanced Q) Blank r name :=
  late_of_passage ends solid_name passage_of_name fun _ _ _ => gap_of_name

theorem late_number : Late Reaches (Balanced Q) Blank r number :=
  late_of_passage ends solid_number passage_of_number fun _ _ _ => gap_of_number

theorem late_quoted : Late Reaches (Balanced Q) Blank r quoted :=
  late_of_passage ends solid_quoted passage_of_quoted fun _ _ _ => gap_of_quoted

theorem late_identifier : Late Reaches (Balanced Q) Blank r identifier := by
  refine (late_name ends).bind_same balancedCut ?_ ?_
  · intro read s n rest unreserved
    split at unreserved
    · cases unreserved
    · cases unreserved
      exact balancedCut.refl s
  · intro read v _
    split
    · rfl
    · rfl

omit ends in
/-- A name is read up to the first character that could not continue it. -/
theorem name_spelled {s rest : List Char} {n : String} (read : name s = some (n, rest)) :
    s = n.toList ++ rest ∧ Boundary rest := by
  obtain ⟨first, middle, start, read⟩ := bind_eq_some read
  obtain ⟨others, _, continues, read⟩ := bind_eq_some read
  cases read
  cases continues
  obtain ⟨_, rfl⟩ := satisfying_eq_some start
  refine ⟨?_, fun c head => ?_⟩
  · rw [String.toList_ofList, List.cons_append, List.takeWhile_append_dropWhile]
  · have stopped := List.head?_dropWhile_not isNameChar middle
    rw [Option.mem_def.mp head] at stopped
    exact stopped

omit ends in
/-- A keyword is read where the name that is read is the keyword. -/
theorem keyword_eq_bind {w : String} (named : isName w = true) :
    keyword w = (do let n ← name; if n = w then pure () else refuse) := by
  funext s
  cases read : name s with
  | none =>
      rw [bind_of_none read]
      cases spelled : keyword w s with
      | none => rfl
      | some found =>
          obtain ⟨_, rest, word, next⟩ := bind_eq_some spelled
          rw [word_eq_some_iff.mp word, name_append named (boundary_of_notNext next)] at read
          cases read
  | some found =>
      obtain ⟨n, rest⟩ := found
      obtain ⟨rfl, boundary⟩ := name_spelled read
      rw [bind_of_some read]
      by_cases same : n = w
      · subst same
        rw [if_pos rfl, keyword_append n boundary, pure_apply]
      · have letters := List.all_eq_true.mpr (isNameChar_of_mem named)
        rw [if_neg same, keyword_append_eq_none (name_eq_some read) boundary letters same]
        rfl

/-- A keyword is a name that is compared afterwards, so it is cut where names are. -/
theorem late_keyword {w : String} (named : isName w = true) :
    Late Reaches (Balanced Q) Blank r (keyword w) := by
  rw [keyword_eq_bind named]
  refine (late_name ends).bind_same balancedCut ?_ ?_
  · intro n s _ rest same
    split at same
    · cases same
      exact balancedCut.refl s
    · cases same
  · intro n v _
    split
    · rfl
    · rfl

theorem late_literal : Late Reaches (Balanced Q) Blank r literal := by
  have word {w : String} (named : isName w = true) (value : Value) :
      Late Reaches (Balanced Q) Blank r (wordFor w value) :=
    (late_keyword ends named).map balancedCut fun _ => value
  exact (word (by decide) _).orElse <| (word (by decide) _).orElse <|
    (word (by decide) _).orElse <| (late_number ends).orElse (late_quoted ends)

theorem late_char {Path : List Char → List Char → Prop} {c : Char} (single : isSingle c = true)
    (path : ∀ s, Path (c :: s) s) : Late Reaches Path Blank r (char c) := by
  refine late_of_gap ends ?_ (fun _ _ _ read => (leaves_char c read).2) rfl ?_ ?_
  · intro s _ rest read
    rw [char_eq_some read]
    exact path rest
  · intro s _ rest read
    rw [char_eq_some read]
    exact gap_of_isSingle rest single
  · exact fun u _ => char_same

/-! ### Gaps -/

/-- Gaps are read in every text, and those that end before the cut end there without the rest
too. -/
theorem total_gaps : Total Reaches (Balanced Q) r gaps where
  path s _ rest read := by
    cases read
    exact balanced_skipGaps s
  stays u _ v place read := by
    rw [gaps_apply, skipGaps_same ends place, Option.some.injEq, Prod.mk.injEq,
      List.append_cancel_right_eq] at read
    rw [gaps_apply, read.2]
  refuses _ _ refused := by cases refused
  total _ refused := by cases refused

theorem edge_gaps : Edge Reaches (Balanced Q) Blank r gaps where
  path := (total_gaps ends).path
  edge _ place := .inl (gaps_same ends place)

theorem solid_afterGaps {p : Reader α} (solid : Solid Reaches (Balanced Q) Blank r p) :
    Solid Reaches (Balanced Q) Blank r (afterGaps p) :=
  (edge_gaps ends).bind balancedCut fun _ => solid

theorem late_afterGaps {p : Reader α} (late : Late Reaches (Balanced Q) Blank r p) :
    Late Reaches (Balanced Q) Blank r (afterGaps p) where
  path := (solid_afterGaps ends late.solid).path
  takes := (solid_afterGaps ends late.solid).takes
  empty := (solid_afterGaps ends late.solid).empty
  same u place fresh := by
    have blank : ¬ Blank (skipGaps u) := by
      rwa [Blank, skipGaps_of_none (gap_skipGaps u)]
    exact (gaps_same ends place).bind fun _ v read => by
      cases read
      exact late.same (place_skipGaps ends place) blank
  beyond u a rest place blank read := by
    have skipped : skipGaps (u ++ r) = [] ++ r := by rw [skipGaps_same ends place, blank]
    rw [afterGaps_apply, skipped] at read
    have place' : Reaches ([] ++ r) r := .refl
    exact late.beyond place' reachesCut.nil read

theorem late_sign {c : Char} (neutral : isNeutral c = true) :
    Late Reaches (Balanced Q) Blank r (sign c) := by
  have single : isSingle c = true := by
    simp only [isNeutral, Bool.and_eq_true] at neutral
    exact neutral.1.1.1.1
  exact late_afterGaps ends (late_char ends single (balanced_neutral neutral))

theorem edge_asyncMark : Edge Reaches (Balanced Q) Blank r asyncMark := by
  have mark : Late Reaches (Balanced Q) Blank r (do keyword "async"; gaps) :=
    (late_keyword ends (by decide)).bind_same balancedCut
      (fun {_} _ _ _ read => (total_gaps ends).path read) fun _ _ place => gaps_same ends place
  exact (mark.optional balancedCut).bind_edge balancedCut fun _ => .pure balancedCut _

end Lexemes

/-! ## Operators -/

/-! ### Before an operand -/

theorem token_unaryOp : Token 1 unaryOp := by
  refine .orElse ?_ (.orElse ?_ (.orElse ?_ ?_))
  · rw [← Reader.bind_assoc (Reader.char '!') (fun _ => Reader.notNext _)
      fun _ => pure UnaryOp.not]
    exact ((token_char '!').notNext char_takes _).map
  · exact (token_char '-').map
  · exact (token_char '+').map
  · exact (token_char '~').map

/-- A unary operator is read from its own token. -/
theorem unaryOp_spelled {s rest : List Char} {op : UnaryOp}
    (read : unaryOp s = some (op, rest)) : s = op.token.toList ++ rest := by
  rcases orElse_eq_some read with read | read
  · obtain ⟨_, _, mark, read⟩ := bind_eq_some read
    obtain ⟨_, _, next, last⟩ := bind_eq_some read
    cases last
    rw [char_eq_some mark, notNext_eq_some next]
    rfl
  have spelled {c : Char} {op' : UnaryOp} (same : op'.token.toList = [c])
      (read : (do char c; return op' : Reader UnaryOp) s = some (op, rest)) :
      s = op.token.toList ++ rest := by
    obtain ⟨_, _, mark, last⟩ := bind_eq_some read
    cases last
    rw [char_eq_some mark, same]
    rfl
  rcases orElse_eq_some read with read | read
  · exact spelled rfl read
  rcases orElse_eq_some read with read | read
  · exact spelled rfl read
  · exact spelled rfl read

theorem balanced_unaryOp ⦃s rest : List Char⦄ ⦃op : UnaryOp⦄
    (read : unaryOp s = some (op, rest)) : Balanced Q s rest := by
  rw [unaryOp_spelled read]
  exact balanced_word (by cases op <;> decide) rest

theorem edge_unaryMark (ends : gap r = none) :
    Edge Reaches (Balanced Q) Blank r unaryMark :=
  (token_unaryOp.edge balancedCut fun _ _ _ read => balanced_unaryOp read).bind_edge balancedCut
    fun _ => (edge_gaps ends).bind_edge balancedCut fun _ => .pure balancedCut _

/-! ### Between operands -/

theorem token_spelled {k : Nat} {op : BinaryOp} (least : k ≤ op.token.toList.length)
    (most : op.token.toList.length ≤ k + 1) : Token k (spelled op) :=
  (token_word least most).map

theorem token_spelledBefore {k : Nat} {op : BinaryOp} {continues : Char → Bool}
    (size : op.token.toList.length = k) : Token k (spelledBefore op continues) := by
  subst size
  rw [spelledBefore, ← Reader.bind_assoc (word op.token)]
  exact ((token_word (Nat.le_refl _) (Nat.le_succ _)).notNext word_takes continues).map

/-- An operator looks at most one character beyond the shortest operator of its level. -/
theorem token_operator {operator : Reader BinaryOp} (level : operator ∈ levels) :
    ∃ k, Token k operator := by
  simp only [levels, List.mem_cons, List.not_mem_nil, or_false] at level
  rcases level with rfl | rfl | rfl | rfl | rfl | rfl | rfl | rfl | rfl | rfl
  · exact ⟨2, (token_spelled (by decide) (by decide)).orElse
      (token_spelled (by decide) (by decide))⟩
  · exact ⟨2, token_spelled (by decide) (by decide)⟩
  · exact ⟨1, token_spelledBefore rfl⟩
  · exact ⟨1, token_spelledBefore rfl⟩
  · exact ⟨1, token_spelledBefore rfl⟩
  · exact ⟨2, (token_spelled (by decide) (by decide)).orElse <|
      (token_spelled (by decide) (by decide)).orElse <|
      (token_spelled (by decide) (by decide)).orElse (token_spelled (by decide) (by decide))⟩
  · exact ⟨1, (token_spelled (by decide) (by decide)).orElse <|
      (token_spelled (by decide) (by decide)).orElse <|
      (token_spelledBefore (by decide)).orElse (token_spelledBefore (by decide))⟩
  · exact ⟨2, (token_spelled (by decide) (by decide)).orElse
      (token_spelled (by decide) (by decide))⟩
  · exact ⟨1, (token_spelled (by decide) (by decide)).orElse
      (token_spelled (by decide) (by decide))⟩
  · exact ⟨1, (token_spelled (by decide) (by decide)).orElse <|
      (token_spelled (by decide) (by decide)).orElse (token_spelled (by decide) (by decide))⟩

/-- An operator of a level is read from its own token. -/
theorem operator_spelled {operator : Reader BinaryOp} (level : operator ∈ levels)
    {s rest : List Char} {op : BinaryOp} (read : operator s = some (op, rest)) :
    s = op.token.toList ++ rest := by
  have plain {op' : BinaryOp} (read : spelled op' s = some (op, rest)) :
      s = op.token.toList ++ rest := by
    obtain ⟨_, _, word, last⟩ := bind_eq_some read
    cases last
    exact word_eq_some_iff.mp word
  have before {op' : BinaryOp} {continues : Char → Bool}
      (read : spelledBefore op' continues s = some (op, rest)) : s = op.token.toList ++ rest := by
    obtain ⟨_, _, word, read⟩ := bind_eq_some read
    obtain ⟨_, _, next, last⟩ := bind_eq_some read
    cases last
    rw [← notNext_eq_some next]
    exact word_eq_some_iff.mp word
  simp only [levels, List.mem_cons, List.not_mem_nil, or_false] at level
  rcases level with rfl | rfl | rfl | rfl | rfl | rfl | rfl | rfl | rfl | rfl
  · exact (orElse_eq_some read).elim plain plain
  · exact plain read
  · exact before read
  · exact before read
  · exact before read
  · exact (orElse_eq_some read).elim plain fun read => (orElse_eq_some read).elim plain fun read =>
      (orElse_eq_some read).elim plain plain
  · exact (orElse_eq_some read).elim plain fun read => (orElse_eq_some read).elim plain fun read =>
      (orElse_eq_some read).elim before before
  · exact (orElse_eq_some read).elim plain plain
  · exact (orElse_eq_some read).elim plain plain
  · exact (orElse_eq_some read).elim plain fun read => (orElse_eq_some read).elim plain plain

/-- The spelling of an operator, where it begins no comment. -/
theorem balanced_token (op : BinaryOp) {s : List Char}
    (noGap : gap (op.token.toList ++ s) = none) : Balanced Q (op.token.toList ++ s) s := by
  by_cases neutral : op.token.toList.all isNeutral = true
  · exact balanced_word neutral s
  · by_cases division : op = .compute .divide
    · subst division
      exact balanced_cons (passage_of_slash noGap) (by decide) fun n _ => rfl
    · obtain rfl : op = .connect .coalesce := by
        cases op with
        | compare c => cases c <;> exact absurd (by decide) neutral
        | compute a =>
            cases a <;> first | exact absurd rfl division | exact absurd (by decide) neutral
        | connect c => cases c <;> first | rfl | exact absurd (by decide) neutral
      refine ⟨.head (unit_cons (passage_of_isSingle _ (by decide)))
        (.single (unit_cons (passage_of_isSingle _ (by decide)))), fun n _ => ?_⟩
      exact unmatched_coalesce s

/-- An operator is read in the part as in the whole, unless it reaches the rest and uses up the
part. -/
theorem edge_operator (ends : gap r = none) {operator : Reader BinaryOp}
    (level : operator ∈ levels) :
    Edge Reaches (Balanced Q) Blank r (afterGaps operator) where
  path s op rest read := by
    obtain ⟨_, middle, skipped, read⟩ := bind_eq_some read
    cases skipped
    have spelled := operator_spelled level read
    have noGap := gap_skipGaps s
    rw [spelled] at noGap
    refine balancedCut.trans (balanced_skipGaps s) ?_
    rw [spelled]
    exact balanced_token op noGap
  edge u place := by
    obtain ⟨k, token⟩ := token_operator level
    have skipped := gaps_same ends place
    rcases token.same_or_spent (r := r) (skipGaps u) with same | ⟨near, used⟩
    · exact .inl <| skipped.bind fun _ v read => by
        cases read
        exact same
    · refine .inr ⟨fun op rest read => ?_, fun op v read => ?_⟩
      · rw [afterGaps_apply, skipGaps_same ends place] at read
        exact near read
      · rw [used (show operator (skipGaps u) = some (op, v) from read)]
        exact reachesCut.nil

/-! ## What is closed -/

section Closed

/-- **What has been opened is closed in the beginning where it is closed in the whole.**  A
closing mark that is found in the beginning only would be the first without an opening one
in the whole, and what is read before it has gone on beyond it. -/
theorem refused_of_beyond {p : Reader α} {f : α → Reader β} {n : Nesting} (search : Q n)
    (body : Local Reaches (Balanced Q) r p)
    (finds : ∀ {a s b rest}, f a s = some (b, rest) → unmatched n s ≠ none)
    {u rest v : List Char} {a b : α} (place : Reaches (u ++ r) r)
    (whole : p (u ++ r) = some (a, rest)) (beyond : rest.length < r.length)
    (read : p u = some (b, v)) : f b v = none := by
  cases closed : f b v with
  | none => rfl
  | some found =>
      obtain ⟨z, first⟩ := Option.ne_none_iff_exists'.mp (finds closed)
      rw [← (body.path read).2 n search] at first
      have first' := unmatched_append place first
      rw [(body.path whole).2 n search] at first'
      have shorter := unmatched_length first'
      rw [List.length_append] at shorter
      omega

/-- What is closed behind its body is read as in the whole, for a body that goes beyond the cut
leaves the part unclosed. -/
theorem solid_closed {p : Reader α} {f : α → Reader β} {n : Nesting} (search : Q n)
    (body : Local Reaches (Balanced Q) r p)
    (closer : ∀ a, Solid Reaches (Balanced Nowhere) Blank r (f a))
    (finds : ∀ {a s b rest}, f a s = some (b, rest) → unmatched n s ≠ none) :
    Solid Reaches (Balanced Nowhere) Blank r (p >>= f) where
  toLocal := (body.weaken Balanced.nowhere).bind balancedCut (fun a => (closer a).toLocal)
    fun _ _ _ _ _ place whole beyond _ => refused_of_beyond search body finds place whole beyond
  takes s b rest read := by
    obtain ⟨a, middle, read, read'⟩ := bind_eq_some read
    have shorter := reachesCut.length_le (body.path read).1
    exact Nat.lt_of_lt_of_le ((closer a).takes read') shorter
  empty u blank := by
    cases read : p u with
    | none => exact bind_of_none read
    | some found =>
        rw [bind_of_some read]
        exact (closer _).empty (reachesCut.spent (body.path read).1 blank)

/-- Where the closing mark is refused as soon as it goes on into the rest, all that it closes
is. -/
theorem firm_closed {p : Reader α} {f : α → Reader β} {n : Nesting} (search : Q n)
    (body : Local Reaches (Balanced Q) r p)
    (closer : ∀ a, Firm Reaches (Balanced Nowhere) Blank r (f a))
    (finds : ∀ {a s b rest}, f a s = some (b, rest) → unmatched n s ≠ none) :
    Firm Reaches (Balanced Nowhere) Blank r (p >>= f) where
  toSolid := solid_closed search body (fun a => (closer a).toSolid) finds
  firm u b rest place read beyond := by
    obtain ⟨a, middle, whole, read'⟩ := bind_eq_some read
    rcases reachesCut.within_or_beyond place (body.path whole).1 with ⟨v, rfl, place'⟩ | further
    · rw [bind_of_some (body.stays place whole)]
      exact (closer a).firm place' read' beyond
    · cases first : p u with
      | none => exact bind_of_none first
      | some found =>
          rw [bind_of_some first]
          exact refused_of_beyond search body finds place whole further first

/-- What is opened, has a balanced body and is closed again is balanced. -/
theorem balanced_enclosed {opener : Reader Unit} {p : Reader α} {f : α → Reader β}
    {inside : Nesting → Nesting} {Q' : Nesting → Prop} (body : Local Reaches (Balanced Q') r p)
    (within : ∀ n, Q' (inside n))
    (opened : ∀ {s rest}, opener s = some ((), rest) →
      ∀ n, unmatched n s = unmatched (inside n) rest)
    (closed : ∀ {a s b rest}, f a s = some (b, rest) →
      ∀ n, unmatched (inside n) s = unmatched n rest)
    {s rest : List Char} {b : β} (reached : Reaches s rest)
    (read : (opener >>= fun _ => p >>= f) s = some (b, rest)) : Balanced Q s rest := by
  obtain ⟨_, begins, first, read⟩ := bind_eq_some read
  obtain ⟨a, middle, read, last⟩ := bind_eq_some read
  refine ⟨reached, fun n _ => ?_⟩
  calc unmatched n s = unmatched (inside n) begins := opened first n
    _ = unmatched (inside n) middle := (body.path read).2 _ (within n)
    _ = unmatched n rest := closed last n

/-! ### Brackets -/

theorem isOpening_cases {c : Char} (opening : Nesting.isOpening c = true) :
    c = '(' ∨ c = '[' ∨ c = '\x7b' := by
  simpa [Nesting.isOpening, or_assoc] using opening

theorem isClosing_cases {c : Char} (closing : Nesting.isClosing c = true) :
    c = ')' ∨ c = ']' ∨ c = '\x7d' := by
  simpa [Nesting.isClosing, or_assoc] using closing

theorem isSingle_of_isOpening {c : Char} (opening : Nesting.isOpening c = true) :
    isSingle c = true := by
  rcases isOpening_cases opening with rfl | rfl | rfl <;> decide

theorem isSingle_of_isClosing {c : Char} (closing : Nesting.isClosing c = true) :
    isSingle c = true := by
  rcases isClosing_cases closing with rfl | rfl | rfl <;> decide

/-- A search goes one bracket deeper at an opening mark. -/
theorem unmatched_opening {c : Char} (opening : Nesting.isOpening c = true) (n : Nesting)
    (s : List Char) : unmatched n (c :: s) = unmatched n.enter s := by
  have noPassage := passage_of_isSingle s (isSingle_of_isOpening opening)
  refine unmatched_of_turn noPassage (.inl ?_) (by rw [Nesting.turn, if_pos opening])
  rintro rfl
  cases opening

theorem turn_closing {c : Char} (closing : Nesting.isClosing c = true) (n : Nesting) :
    n.turn c = n.leave := by
  rcases isClosing_cases closing with rfl | rfl | rfl <;> rfl

/-- A search comes back at a closing mark. -/
theorem unmatched_closing {c : Char} (closing : Nesting.isClosing c = true) (n : Nesting)
    (s : List Char) : unmatched n.enter (c :: s) = unmatched n s := by
  have noPassage := passage_of_isSingle s (isSingle_of_isClosing closing)
  refine unmatched_of_turn noPassage (.inl ?_) (turn_closing closing n.enter)
  rintro rfl
  cases closing

theorem unmatched_bracket {c : Char} (closing : Nesting.isClosing c = true) (s : List Char) :
    unmatched .bracket (c :: s) = some s := by
  have noPassage := passage_of_isSingle s (isSingle_of_isClosing closing)
  refine unmatched_of_found noPassage ?_ (turn_closing closing .bracket)
  rintro rfl
  cases closing

/-- A reader that takes a closing bracket, and nothing else but a gap before it. -/
structure Closes (r : List Char) (closer : Reader Unit) : Prop where
  late : Late Reaches (Balanced Nowhere) Blank r closer
  bracket : ∀ ⦃s rest⦄, closer s = some ((), rest) → ∃ c, Nesting.isClosing c = true ∧
    ∀ n, unmatched n s = unmatched n (c :: rest)

variable (ends : gap r = none)
include ends

theorem closes_char {c : Char} (closing : Nesting.isClosing c = true) : Closes r (char c) where
  late := late_char ends (isSingle_of_isClosing closing) fun s =>
    reaches_cons (passage_of_isSingle s (isSingle_of_isClosing closing))
  bracket s rest read := ⟨c, closing, fun n => by rw [char_eq_some read]⟩

theorem closes_sign {c : Char} (closing : Nesting.isClosing c = true) : Closes r (sign c) where
  late := late_afterGaps ends (closes_char ends closing).late
  bracket s rest read := by
    obtain ⟨_, middle, skipped, closed⟩ := bind_eq_some read
    cases skipped
    exact ⟨c, closing, fun n => by rw [← unmatched_skipGaps s, char_eq_some closed]⟩

/-- A body between brackets, and the value that is made of it. -/
theorem firm_bracketed {o : Char} {p : Reader α} {closer : Reader Unit} (f : α → β)
    (opening : Nesting.isOpening o = true)
    (body : Local Reaches (Balanced Nesting.Quiet) r p) (closes : Closes r closer) :
    Firm Reaches (Balanced Q) Blank r (do char o; let a ← p; closer; return f a) := by
  have opens : Late Reaches (Balanced Nowhere) Blank r (char o) :=
    late_char ends (isSingle_of_isOpening opening) fun s =>
      reaches_cons (passage_of_isSingle s (isSingle_of_isOpening opening))
  have opened {s rest : List Char} (read : char o s = some ((), rest)) (n : Nesting) :
      unmatched n s = unmatched n.enter rest := by
    rw [char_eq_some read, unmatched_opening opening]
  have closed {a : α} {s rest : List Char} {b : β}
      (read : (do closer; return f a : Reader β) s = some (b, rest)) :
      ∃ c, Nesting.isClosing c = true ∧ ∀ n, unmatched n s = unmatched n (c :: rest) := by
    obtain ⟨_, _, read, last⟩ := bind_eq_some read
    cases last
    exact closes.bracket read
  have whole : Firm Reaches (Balanced Nowhere) Blank r
      (do char o; let a ← p; closer; return f a) := by
    refine opens.firm.bind balancedCut fun _ => firm_closed (n := .bracket) (Q := Nesting.Quiet)
      rfl body (fun a => (closes.late.map balancedCut fun _ => f a).firm) ?_
    intro a s b rest read
    obtain ⟨c, closing, same⟩ := closed read
    rw [same, unmatched_bracket closing]
    exact Option.some_ne_none rest
  refine { whole with path := fun s b rest read => ?_ }
  refine balanced_enclosed body Nesting.quiet_enter opened ?_ (whole.path read).1 read
  intro a s b rest read n
  obtain ⟨c, closing, same⟩ := closed read
  rw [same, unmatched_closing closing]

end Closed

end RowFilter.Script
