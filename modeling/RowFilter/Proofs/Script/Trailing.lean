import RowFilter.Proofs.Script.Locality
import RowFilter.Proofs.Text.Position
import RowFilter.Script.Source

/-!
# Trailing input

Reading a program never fails as such.  A repetition that has to go on over a round that
takes nothing would be stuck, and there is none in the grammar (`NeverStalls`).  So reading
stops at a place, and if anything is left there, that is the only error there is.  The
place is the end of a program: what stands before it would be accepted by itself, as the
same statements.  It is also as far as one can get, because no statement begins there and
nothing that could be passed over.

What stands before the place has been read with the rest in view.  An arrow, a call, a
conditional or an operator may have been tried there that went on into the rest and was
given up.  That none of them is read differently without the rest is the locality of the
grammar.
-/

set_option autoImplicit false

namespace RowFilter.Script

open Reader Lexeme Grammar

/-! ## Where statements stop -/

/-- The rule for programs. -/
def program : Reader Program := do
  gaps
  many (spaced statement)

theorem program_apply (s : List Char) : program s = some (statements s) := rfl

theorem repeated_stops {α : Type} {p : Reader α} (progresses : Progresses p) (s : List Char) :
    p (repeated p s).2 = none := by
  cases read : p s with
  | none => rwa [repeated_of_none read]
  | some found =>
      rw [repeated_of_some progresses read]
      exact repeated_stops progresses found.2
termination_by s.length
decreasing_by exact progresses read

/-- Statements are followed by no gap, if they begin with none. -/
theorem gap_repeated {s : List Char} (noGap : gap s = none) :
    gap (repeated (spaced statement) s).2 = none := by
  cases read : spaced statement s with
  | none => rwa [repeated_of_none read]
  | some found =>
      obtain ⟨first, rest⟩ := found
      rw [repeated_of_some spaced_progresses read]
      obtain ⟨_, middle, _, read'⟩ := bind_eq_some read
      obtain ⟨_, _, skipped, last⟩ := bind_eq_some read'
      cases skipped
      cases last
      exact gap_repeated (gap_skipGaps middle)
termination_by s.length
decreasing_by exact spaced_progresses read

variable {s rest : List Char} {p : Program}

theorem gap_of_statements (read : statements s = (p, rest)) : gap rest = none := by
  have left : (repeated (spaced statement) (skipGaps s)).2 = rest := congrArg Prod.snd read
  rw [← left]
  exact gap_repeated (gap_skipGaps s)

theorem statement_of_statements (read : statements s = (p, rest)) : statement rest = none := by
  have left : (repeated (spaced statement) (skipGaps s)).2 = rest := congrArg Prod.snd read
  have stopped := repeated_stops spaced_progresses (skipGaps s)
  rw [left] at stopped
  cases further : statement rest with
  | none => rfl
  | some found =>
      rw [spaced, bind_of_some further] at stopped
      cases stopped

theorem reaches_of_statements (read : statements s = (p, rest)) : Reaches s rest := by
  have whole : program s = some (p, rest) := congrArg some read
  exact ((total_statements (Q := Nowhere) (gap_of_statements read)).path whole).1

theorem before_append (read : statements s = (p, rest)) : before s rest ++ rest = s := by
  obtain ⟨u, rfl⟩ := reaches_suffix (reaches_of_statements read)
  rw [before, List.length_append, Nat.add_sub_cancel, List.take_left']
  rfl

/-- **The text before the place where statements stop is read as the same statements.** -/
theorem statements_before (read : statements s = (p, rest)) :
    statements (before s rest) = (p, []) := by
  have same := before_append read
  have place : Reaches (before s rest ++ rest) rest := by
    rw [same]
    exact reaches_of_statements read
  have whole : program (before s rest ++ rest) = some (p, [] ++ rest) := by
    rw [same]
    exact congrArg some read
  have grammar := total_statements (Q := Nowhere) (gap_of_statements read)
  exact Option.some.inj (grammar.stays place whole)

/-! ## No repetition is stuck -/

/-- A round of a repetition always takes something, in all repetitions of the grammar: gaps,
statements, operators before an operand, steps from an operand, the operators of each level
with their operands, and the commas of a list. -/
structure NeverStalls : Prop where
  gap : Progresses gap
  statement : Progresses (spaced statement)
  mark : Progresses unaryMark
  access : Progresses (access expr)
  operation : ∀ {looser operator tighter}, levels = looser ++ operator :: tighter →
    Progresses (continuation (ladder (unary expr block) tighter) operator)
  comma : Progresses (do sign ','; gaps)

theorem neverStalls : NeverStalls where
  gap := gap_progresses
  statement := spaced_progresses
  mark := unaryMark_progresses
  access := access_progresses
  operation {looser operator tighter} split := by
    have operand : Solid Reaches (Balanced Nowhere) Blank [] (unary expr block) :=
      solid_unary rfl (fun _ => solid_expr rfl) fun _ => solid_block rfl
    have level : operator ∈ levels := by
      rw [split]
      exact List.mem_append_right looser List.mem_cons_self
    have further : tighter ⊆ levels := fun _ inside => by
      rw [split]
      exact List.mem_append_right looser (List.mem_cons_of_mem operator inside)
    exact (solid_continuation rfl level (solid_ladder rfl operand further)).takes
  comma := (late_comma (Q := Nowhere) (r := []) rfl).takes

/-! ## The error and its place -/

/-- Of a source the part `kept` is a program, and at the part `rest` nothing can be read.
The error points between the two. -/
structure Trails (source : String) (e : ParseError) (p : Program) (kept rest : String) :
    Prop where
  split : source = kept ++ rest
  nonempty : rest ≠ ""
  boundary : String.Pos.Raw.IsValid source ⟨e.position.offset⟩
  within : e.position.offset < source.utf8ByteSize
  offset : e.position.offset = kept.utf8ByteSize
  line : e.position.line = 1 + kept.toList.count '\n'
  column : e.position.column = 1 + (kept.toList.rtakeWhile (· != '\n')).length
  accepted : parse kept = .ok p
  refused : statement rest.toList = none
  noGap : gap rest.toList = none

theorem trails_of_statements {source : String} (read : statements source.toList = (p, rest))
    (left : rest ≠ []) :
    Trails source ⟨Position.after (before source.toList rest)⟩ p
      (String.ofList (before source.toList rest)) (String.ofList rest) := by
  have split : source =
      String.ofList (before source.toList rest) ++ String.ofList rest := by
    rw [← String.ofList_append, before_append read, String.ofList_toList]
  have nonempty : String.ofList rest ≠ "" := fun empty => left (by
    simpa using congrArg String.toList empty)
  have offset := Position.after_offset (before source.toList rest)
  exact {
    split := split
    nonempty := nonempty
    boundary := String.Pos.Raw.isValid_iff_exists_append.mpr
      ⟨_, _, split, congrArg String.Pos.Raw.mk offset⟩
    within := by
      have size := congrArg String.utf8ByteSize split
      have positive : (String.ofList rest).utf8ByteSize ≠ 0 := fun zero =>
        nonempty (String.utf8ByteSize_eq_zero_iff.mp zero)
      rw [String.utf8ByteSize_append] at size
      show (Position.after (before source.toList rest)).offset < _
      omega
    offset := offset
    line := by rw [String.toList_ofList]; exact Position.after_line _
    column := by rw [String.toList_ofList]; exact Position.after_column _
    accepted := by rw [parse, String.toList_ofList, statements_before read]
    refused := by rw [String.toList_ofList]; exact statement_of_statements read
    noGap := by rw [String.toList_ofList]; exact gap_of_statements read }

/-- **A source is a program, or there is trailing input after one.**  The rule for programs
never fails and its repetitions are never stuck, and the place of the trailing input is where
the error says. -/
theorem parse_eq_ok_or_trails (source : String) :
    NeverStalls ∧ ∃ p rest, program source.toList = some (p, rest.toList) ∧
      (rest = "" ∧ parse source = .ok p ∨
        ∃ e kept, parse source = .error e ∧ e.detail = "unexpected trailing input" ∧
          Trails source e p kept rest) := by
  refine ⟨neverStalls, ?_⟩
  cases read : statements source.toList with
  | mk p rest =>
      refine ⟨p, String.ofList rest, ?_, ?_⟩
      · rw [program_apply, read, String.toList_ofList]
      · cases rest with
        | nil => exact .inl ⟨rfl, by rw [parse, read]⟩
        | cons c rest =>
            refine .inr ⟨_, _, ?_, rfl, trails_of_statements read (List.cons_ne_nil c rest)⟩
            rw [parse, read]

/-- The branches of a conditional have been tried, and the place is before them.  A
character of two bytes is one column. -/
example : (parse "f(x) // é\n  ? y").map (fun _ => ()) = .error ⟨⟨13, 2, 3⟩⟩ := by
  decide +kernel

end RowFilter.Script
