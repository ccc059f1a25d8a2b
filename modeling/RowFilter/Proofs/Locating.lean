import RowFilter.Proofs.Script.Trailing
import RowFilter.Proofs.Wrapping

/-!
# Places in a filter

A filter is read in parentheses, and where it cannot be read the place is reported as if the
parentheses were not there.  The three numbers of a place are moved by rules of their own: one
byte is taken from the offset, one character from the column on the first line, and nothing
from the line.  Together they take away the opening parenthesis (`inside_after_open`).

Reading never stops behind the closing parenthesis, because something is left where it stops.
So the reported place is a place of the filter, and it is the one where reading stopped, or
the beginning if not even the opening parenthesis could be read (`place_of_parse_error`).
-/

set_option autoImplicit false

namespace RowFilter

open Script Compilation

/-! ## The opening parenthesis -/

namespace Position

theorem one_le_line (text : List Char) : 1 ≤ (after text).line := by
  rw [after_line]
  exact Nat.le_add_right 1 _

theorem one_le_column (text : List Char) : 1 ≤ (after text).column := by
  rw [after_column]
  exact Nat.le_add_right 1 _

/-- A place with a parenthesis before the text: the column moves on the first line only. -/
def afterOpen (p : Position) : Position :=
  ⟨p.offset + 1, p.line, if p.line = 1 then p.column + 1 else p.column⟩

theorem after_open (text : List Char) : after ('(' :: text) = (after text).afterOpen := by
  induction text using List.reverseRecOn with
  | nil => rfl
  | append_singleton text c ih =>
      have line := one_le_line text
      rw [← List.cons_append, after_concat, after_concat, ih]
      by_cases feed : c = '\n'
      · have later : (after text).line ≠ 0 := Nat.one_le_iff_ne_zero.mp line
        simp [afterOpen, advance, feed, later, Nat.add_right_comm]
      · by_cases first : (after text).line = 1 <;>
          simp [afterOpen, advance, feed, first, Nat.add_right_comm]

end Position

/-- Taking the parentheses away gives the place in the text itself. -/
theorem inside_after_open {source : String} {kept rest : List Char}
    (split : source.toList = kept ++ rest) :
    inside source (Position.after ('(' :: kept)) = Position.after kept := by
  have within : (Position.after kept).offset ≤ source.utf8ByteSize := by
    rw [Position.after_offset, ← String.ofList_toList (s := source), split, String.ofList_append,
      String.utf8ByteSize_append]
    exact Nat.le_add_right _ _
  have column := Position.one_le_column kept
  rw [Position.after_open, inside, Position.afterOpen]
  refine Position.mk.injEq .. |>.mpr ⟨?_, rfl, ?_⟩
  · exact Nat.min_eq_left within
  · dsimp only
    split_ifs
    · exact Nat.max_eq_left column
    · rfl

/-! ## The reported place -/

/-- A place is the one between two parts of a source: its offset is that of a character, and
line and column are counted along the first part. -/
structure Separates (source : String) (p : Position) (kept rest : String) : Prop where
  split : source = kept ++ rest
  within : p.offset ≤ source.utf8ByteSize
  boundary : String.Pos.Raw.IsValid source ⟨p.offset⟩
  offset : p.offset = kept.utf8ByteSize
  line : p.line = 1 + kept.toList.count '\n'
  column : p.column = 1 + (kept.toList.rtakeWhile (· != '\n')).length

theorem separates_after {source : String} {kept rest : List Char}
    (split : source.toList = kept ++ rest) :
    Separates source (Position.after kept) (String.ofList kept) (String.ofList rest) := by
  have parts : source = String.ofList kept ++ String.ofList rest := by
    rw [← String.ofList_append, ← split, String.ofList_toList]
  have offset := Position.after_offset kept
  exact {
    split := parts
    within := by
      rw [parts, String.utf8ByteSize_append, offset]
      exact Nat.le_add_right _ _
    boundary := String.Pos.Raw.isValid_iff_exists_append.mpr
      ⟨_, _, parts, congrArg String.Pos.Raw.mk offset⟩
    offset := offset
    line := by rw [String.toList_ofList]; exact Position.after_line kept
    column := by rw [String.toList_ofList]; exact Position.after_column kept }

theorem separates_start (source : String) : Separates source Position.start "" source := by
  have start := @separates_after source [] source.toList rfl
  rwa [String.ofList_toList] at start

/-- Where something is left of a text in parentheses, the part before it is empty, or it is
the opening parenthesis and a part of the text. -/
theorem before_wrapped {source : String} {before rest : List Char}
    (split : before ++ rest = '(' :: (source.toList ++ [')'])) (left : rest ≠ []) :
    before = [] ∨ ∃ kept rest', before = '(' :: kept ∧ source.toList = kept ++ rest' := by
  cases before with
  | nil => exact .inl rfl
  | cons c kept =>
      obtain ⟨rfl, tail⟩ := List.cons.inj split
      obtain ⟨rest', last, rfl⟩ := (List.eq_nil_or_concat rest).resolve_left left
      have tail : (kept ++ rest') ++ [last] = source.toList ++ [')'] := by
        rw [List.append_assoc, ← List.concat_eq_append]
        exact tail
      exact .inr ⟨kept, rest', rfl, (List.append_inj_left' tail rfl).symm⟩

variable {source : String} {supply : NameSupply} {e : ParseError}

/-- Once a program has been read, no error is about reading. -/
theorem finish_ne_parse (condition : Except FilterFunction.Misfit Expr)
    (program : Option Program) : (finish condition supply program).result ≠ .error (.parse e) := by
  cases condition with
  | error misfit => exact fun failed => by cases failed
  | ok condition =>
      intro failed
      have mapped : (Lowering.lower condition supply).1.mapError CompileError.unsupported =
          .error (.parse e) := failed
      cases lowered : (Lowering.lower condition supply).1 with
      | error part =>
          rw [lowered] at mapped
          cases mapped
      | ok n =>
          rw [lowered] at mapped
          cases mapped

theorem parseInside_of_compile (failed : (compile source supply).result = .error (.parse e)) :
    parseInside source = .error e := by
  rw [compile] at failed
  cases parsed : parseInside source with
  | error e' =>
      rw [parsed] at failed
      cases failed
      rfl
  | ok program =>
      rw [parsed] at failed
      exact absurd failed (finish_ne_parse _ _)

theorem parse_of_parseInside_error (failed : parseInside source = .error e) :
    ∃ w, parse ("(" ++ source ++ ")") = .error w ∧ e.position = inside source w.position := by
  rw [parseInside] at failed
  split at failed
  · cases failed
  · next w parsed =>
      cases failed
      exact ⟨w, parsed, rfl⟩

/-- An error comes from the place where statements stop. -/
theorem statements_of_parse_error {text : String} {w : ParseError}
    (failed : parse text = .error w) :
    ∃ p rest, Grammar.statements text.toList = (p, rest) ∧ rest ≠ [] ∧
      w = ⟨Position.after (before text.toList rest)⟩ := by
  rw [parse] at failed
  split at failed
  · cases failed
  · next p rest left read =>
      cases failed
      exact ⟨p, rest, read, left, rfl⟩

/-- **A filter that cannot be read is reported at the place of the filter where reading
stopped.** -/
theorem place_of_parse_error (failed : (compile source supply).result = .error (.parse e)) :
    ∃ kept rest, Separates source e.position kept rest ∧
      ∃ w p taken left, parse ("(" ++ source ++ ")") = .error w ∧
        Trails ("(" ++ source ++ ")") w p taken left ∧
        (taken = "(" ++ kept ∨ taken = "" ∧ kept = "") := by
  obtain ⟨w, parsed, place⟩ := parse_of_parseInside_error (parseInside_of_compile failed)
  obtain ⟨p, rest, read, left, rfl⟩ := statements_of_parse_error parsed
  have trails := trails_of_statements read left
  have split := before_append read
  rw [toList_wrapped] at split parsed place read trails
  rcases before_wrapped split left with start | ⟨kept, rest', opened, parts⟩
  · refine ⟨"", source, ?_, _, p, _, _, parsed, trails, .inr ⟨?_, rfl⟩⟩
    · have here : e.position = Position.start := by
        rw [place, start]
        simp [inside, Position.start]
      rw [here]
      exact separates_start source
    · rw [start]
  · refine ⟨String.ofList kept, String.ofList rest', ?_, _, p, _, _, parsed, trails, .inl ?_⟩
    · rw [place, opened, inside_after_open parts]
      exact separates_after parts
    · rw [opened, ← List.singleton_append, String.ofList_append]

/-- A filter that ends the added parenthesis itself and goes on in a second line. -/
theorem place_of_parse_error_second_line :
    (compile "x => x.a === 'é')\n oops" .fresh).result = .error (.parse ⟨⟨24, 2, 6⟩⟩) ∧
      ∃ kept rest, Separates "x => x.a === 'é')\n oops" ⟨24, 2, 6⟩ kept rest := by
  have refused : parseInside "x => x.a === 'é')\n oops" = .error ⟨⟨24, 2, 6⟩⟩ := by
    decide +kernel
  have failed : (compile "x => x.a === 'é')\n oops" .fresh).result =
      .error (.parse ⟨⟨24, 2, 6⟩⟩) := by
    rw [compile, refused]
    rfl
  obtain ⟨kept, rest, separates, _⟩ := place_of_parse_error failed
  exact ⟨failed, kept, rest, separates⟩

end RowFilter
