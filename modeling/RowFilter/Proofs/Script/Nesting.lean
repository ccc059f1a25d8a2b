import RowFilter.Proofs.Script.Units

/-!
# The first closing mark that is not matched

From any place in a script one can search for the first closing bracket without an
opening one, or for the first colon without a question mark, without reading the script:
gaps and quoted texts are passed over, and what is still open is counted (`unmatched`).
Question marks are counted only outside brackets, and only if a colon is searched for,
because inside parentheses a colon may also stand before the type of a parameter.

The search is deterministic and needs no more of a text than the part up to the mark it
finds (`unmatched_append`).
-/

set_option autoImplicit false

namespace RowFilter.Script

open Reader Lexeme Grammar

/-! ## What is open -/

/-- What is still open: brackets of any kind, and question marks outside of them, if they
are counted. -/
structure Nesting where
  brackets : Nat
  questions : Option Nat

namespace Nesting

def isOpening (c : Char) : Bool := c == '(' || c == '[' || c == '\x7b'

def isClosing (c : Char) : Bool := c == ')' || c == ']' || c == '\x7d'

/-- Inside one more bracket. -/
def enter (n : Nesting) : Nesting := { n with brackets := n.brackets + 1 }

/-- After a question mark. -/
def ask (n : Nesting) : Nesting :=
  if n.brackets = 0 then { n with questions := n.questions.map (· + 1) } else n

/-- After a closing bracket, unless it is the one that is searched for. -/
def leave (n : Nesting) : Option Nesting :=
  match n.brackets with
  | 0 => none
  | b + 1 => some { n with brackets := b }

/-- After a colon, unless it is the one that is searched for. -/
def answer (n : Nesting) : Option Nesting :=
  if n.brackets = 0 then
    match n.questions with
    | none => some n
    | some 0 => none
    | some (q + 1) => some { n with questions := some q }
  else some n

/-- After a character. -/
def turn (n : Nesting) (c : Char) : Option Nesting :=
  if isOpening c then some n.enter
  else if isClosing c then n.leave
  else if c = '?' then some n.ask
  else if c = ':' then n.answer
  else some n

/-- A colon may stand here without a question mark. -/
def Quiet (n : Nesting) : Prop := n.answer = some n

theorem answer_ask (n : Nesting) : n.ask.answer = some n := by
  obtain ⟨brackets, questions⟩ := n
  by_cases outside : brackets = 0
  · cases questions <;> simp [ask, answer, outside]
  · simp [ask, answer, outside]

/-- A colon inside another bracket is not the one that is searched for. -/
theorem quiet_enter (n : Nesting) : n.enter.Quiet := by
  simp [Quiet, answer, enter]

/-- Nothing is open, and a bracket is searched for. -/
def bracket : Nesting := ⟨0, none⟩

/-- Nothing is open, and a colon is searched for. -/
def colon : Nesting := ⟨0, some 0⟩

end Nesting

/-! ## The search -/

/-- What follows the first closing mark without an opening one. -/
def unmatched (n : Nesting) (s : List Char) : Option (List Char) :=
  match _ : passage s with
  | some (_, rest) => unmatched n rest
  | none =>
    match s with
    | [] => none
    | c :: rest =>
      if c = '?' ∧ rest.head? = some '?' then unmatched n rest.tail
      else
        match n.turn c with
        | none => some rest
        | some next => unmatched next rest
termination_by s.length
decreasing_by
  · exact passage_progresses ‹_›
  · exact Nat.lt_succ_of_le (List.tail_sublist _).length_le
  · exact Nat.lt_succ_self _

variable {n : Nesting} {s rest : List Char}

/-- What is passed over in one unit opens and closes nothing. -/
theorem unmatched_of_passage {found : Unit} (read : passage s = some (found, rest)) :
    unmatched n s = unmatched n rest := by
  rw [unmatched]
  split
  · next found' rest' read' =>
      rw [read] at read'
      cases read'
      rfl
  · next refused =>
      rw [read] at refused
      cases refused

theorem unmatched_nil : unmatched n [] = none := by
  rw [unmatched]
  rfl

/-- A character that begins no longer unit is counted, but two question marks in a row
are not. -/
theorem unmatched_cons {c : Char} (noPassage : passage (c :: s) = none) :
    unmatched n (c :: s) =
      if c = '?' ∧ s.head? = some '?' then unmatched n s.tail
      else
        match n.turn c with
        | none => some s
        | some next => unmatched next s := by
  rw [unmatched]
  split
  · next passed =>
      rw [noPassage] at passed
      cases passed
  · rfl

/-- The two question marks of an operator open no branch. -/
theorem unmatched_coalesce (s : List Char) : unmatched n ('?' :: '?' :: s) = unmatched n s := by
  rw [unmatched_cons (passage_of_isSingle _ (by decide)), if_pos ⟨rfl, rfl⟩]
  rfl

theorem unmatched_of_turn {c : Char} {next : Nesting} (noPassage : passage (c :: s) = none)
    (other : c ≠ '?' ∨ s.head? ≠ some '?') (turned : n.turn c = some next) :
    unmatched n (c :: s) = unmatched next s := by
  rw [unmatched_cons noPassage, if_neg (not_and_or.mpr other), turned]

/-- The search ends after the character that closes what was open at its beginning. -/
theorem unmatched_of_found {c : Char} (noPassage : passage (c :: s) = none) (other : c ≠ '?')
    (turned : n.turn c = none) : unmatched n (c :: s) = some s := by
  rw [unmatched_cons noPassage, if_neg fun double => other double.1, turned]

/-- Gaps open and close nothing. -/
theorem unmatched_skipGaps (s : List Char) : unmatched n (skipGaps s) = unmatched n s := by
  cases read : gap s with
  | none => rw [skipGaps_of_none read]
  | some found =>
      rw [skipGaps_of_some read, unmatched_of_passage (passage_of_gap read)]
      exact unmatched_skipGaps found.2
termination_by s.length
decreasing_by exact gap_progresses read

theorem unmatched_length {z : List Char} (found : unmatched n s = some z) :
    z.length < s.length := by
  fun_induction unmatched n s with
  | case1 n s x rest passed ih => exact (ih found).trans (passage_progresses passed)
  | case2 => cases found
  | case3 n c s noPassage double ih =>
      exact Nat.lt_succ_of_lt ((ih found).trans_le (List.tail_sublist s).length_le)
  | case4 n c s noPassage single turned =>
      cases found
      exact Nat.lt_succ_self _
  | case5 n c s noPassage single next turned ih => exact Nat.lt_succ_of_lt (ih found)

/-! ## The search in the beginning of a text -/

section Beginning

variable {r : List Char}

/-- **The search needs no more of a text than the part up to the mark.** -/
theorem unmatched_append {n : Nesting} {u z : List Char} (place : Reaches (u ++ r) r)
    (found : unmatched n u = some z) : unmatched n (u ++ r) = some (z ++ r) := by
  have same (u : List Char) (place : Reaches (u ++ r) r) (fresh : u ≠ []) : Same r passage u :=
    same_of_passage solid_passage id place fresh
  fun_induction unmatched n u with
  | case1 n u x v passed ih =>
      have fresh : u ≠ [] := fun empty => by
        rw [empty] at passed
        cases passed
      have whole := (same u place fresh).append_of_some passed
      have place' := reachesCut.place_of_path place (.single (unit_of_passage whole))
      rw [unmatched_of_passage whole, ih place' found]
  | case2 => cases found
  | case3 n c u noPassage double ih =>
      obtain ⟨rfl, second⟩ := double
      obtain ⟨u, rfl⟩ : ∃ t, u = '?' :: t := List.head?_eq_some_iff.mp second
      have place' := reachesCut.place_of_path (v := '?' :: u) place
        (.single (unit_cons (passage_of_isSingle _ (by decide))))
      have place'' := reachesCut.place_of_path place'
        (.single (unit_cons (passage_of_isSingle _ (by decide))))
      exact (unmatched_coalesce _).trans (ih place'' found)
  | case4 n c u noPassage single turned =>
      have whole := (same _ place (List.cons_ne_nil c u)).append_of_none noPassage
      cases found
      refine unmatched_of_found whole ?_ turned
      rintro rfl
      cases turned
  | case5 n c u noPassage single next turned ih =>
      have whole := (same _ place (List.cons_ne_nil c u)).append_of_none noPassage
      refine (unmatched_of_turn whole ?_ turned).trans
        (ih (reachesCut.place_of_path place (.single (unit_cons whole))) found)
      cases u with
      | nil =>
          rw [unmatched_nil] at found
          cases found
      | cons d u => exact not_and_or.mp single

end Beginning

end RowFilter.Script
