import RowFilter.Proofs.Script.Literal
import RowFilter.Proofs.Text.Cutting
import Mathlib.Logic.Relation

/-!
# The units of a script

A script is passed over in units: a gap, a quoted text, a number, a name, or else a
single character.  Which unit a text begins with is determined, so from one text the
places that can be reached in this way are in a row (`Reaches`), and everything that the
grammar reads leads from one of them to another.

A text that is cut at such a place is cut through no unit.  Gaps, quoted texts, numbers
and names are then read from the beginning as they are read from the whole, unless they
begin with the rest (`same_of_passage`).
-/

set_option autoImplicit false

namespace RowFilter.Script

open Reader Lexeme Grammar

variable {α : Type} {r : List Char}

/-! ## Cuts at any character -/

/-- A text may be cut anywhere. -/
theorem suffixCut : Cut (fun s t => t <:+ s) (fun s t => t <:+ s) (· = []) where
  refl := List.suffix_refl
  trans first second := second.trans first
  reach := id
  suffix := id
  linear _ _ suffix := suffix
  spent suffix empty := by rwa [empty, List.suffix_nil] at suffix
  nil := rfl

/-! ### Characters and runs of them -/

/-- A character of the text is the same character whatever comes behind the cut. -/
theorem late_satisfying (accepts : Char → Bool) :
    Late (fun s t => t <:+ s) (fun s t => t <:+ s) (· = []) r (satisfying accepts) where
  path _ _ _ read := (leaves_satisfying accepts read).1
  takes _ _ _ read := (leaves_satisfying accepts read).2
  empty u spent := by rw [spent, satisfying_nil]
  same _ _ fresh := satisfying_same fresh
  beyond u c rest _ spent read := by
    rw [spent] at read
    exact (leaves_satisfying accepts read).2

/-- A run of characters that ends before the cut ends at the same place without the rest. -/
theorem total_run (accepts : Char → Bool) :
    Total (fun s t => t <:+ s) (fun s t => t <:+ s) r (run accepts) where
  path _ _ _ read := (leaves_run accepts read).1
  stays u taken v _ read := by
    rw [run_apply, Option.some.injEq, Prod.mk.injEq] at read
    obtain ⟨rfl, left⟩ := read
    have all : ∀ c ∈ (u ++ r).takeWhile accepts, accepts c = true :=
      List.all_eq_true.mp List.all_takeWhile
    have ends : ∀ c ∈ v.head?, accepts c = false := by
      intro c head
      have stopped := List.head?_dropWhile_not accepts (u ++ r)
      cases v with
      | nil => cases head
      | cons d v =>
          cases head
          rw [left] at stopped
          exact stopped
    have parts : u = (u ++ r).takeWhile accepts ++ v := by
      refine List.append_cancel_right (?_ : _ ++ r = _ ++ r)
      rw [List.append_assoc, ← left, List.takeWhile_append_dropWhile]
    calc run accepts u = run accepts ((u ++ r).takeWhile accepts ++ v) := by rw [← parts]
      _ = some ((u ++ r).takeWhile accepts, v) := run_append all ends
  refuses _ _ refused := by cases refused
  total _ refused := by cases refused

/-! ### Names and numbers -/

theorem solid_name : Solid (fun s t => t <:+ s) (fun s t => t <:+ s) (· = []) r name :=
  (late_satisfying _).solid.bind suffixCut fun _ => (total_run _).bind suffixCut fun _ =>
    .pure suffixCut _

theorem solid_digits : Solid (fun s t => t <:+ s) (fun s t => t <:+ s) (· = []) r digits :=
  (late_satisfying _).solid.bind suffixCut fun _ => (total_run _).bind suffixCut fun _ =>
    .pure suffixCut _

theorem solid_exponent : Solid (fun s t => t <:+ s) (fun s t => t <:+ s) (· = []) r exponent :=
  ((late_satisfying _).edge suffixCut).bind suffixCut fun _ =>
    ((late_satisfying _).optional suffixCut).bind suffixCut fun _ =>
    solid_digits.bind suffixCut fun _ => .pure suffixCut _

theorem late_char_suffix (c : Char) :
    Late (fun s t => t <:+ s) (fun s t => t <:+ s) (· = []) r (char c) :=
  (late_satisfying _).map suffixCut fun _ => ()

theorem solid_number : Solid (fun s t => t <:+ s) (fun s t => t <:+ s) (· = []) r number := by
  have fraction : Solid (fun s t => t <:+ s) (fun s t => t <:+ s) (· = []) r
      (do char '.'; digits) :=
    ((late_char_suffix '.').edge suffixCut).bind suffixCut fun _ => solid_digits
  exact solid_digits.bind suffixCut fun _ => (fraction.optional suffixCut).bind suffixCut fun _ =>
    (solid_exponent.optional suffixCut).bind suffixCut fun _ => .pure suffixCut _

/-! ### Quoted texts -/

/-- A quoted text ends at its own quote, so what is behind it plays no part. -/
theorem solid_quotedBy (quote : Char) :
    Solid (fun s t => t <:+ s) (fun s t => t <:+ s) (· = []) r (quotedBy quote) := by
  refine ((late_char_suffix quote).edge suffixCut).bind suffixCut fun _ => ?_
  exact {
    path := fun s a rest read => by
      obtain ⟨found, decoded, same⟩ := Option.map_eq_some_iff.mp read
      cases same
      exact Quoted.decodeUpTo_suffix decoded
    stays := fun u a v _ read => by
      obtain ⟨⟨content, rest⟩, decoded, same⟩ := Option.map_eq_some_iff.mp read
      cases same
      exact Option.map_eq_some_iff.mpr ⟨_, Quoted.decodeUpTo_of_append decoded, rfl⟩
    refuses := fun u _ refused => by
      rw [Option.map_eq_none_iff] at refused ⊢
      cases decoded : Quoted.decodeUpTo quote u with
      | none => rfl
      | some found =>
          rw [Quoted.decodeUpTo_of_some r decoded] at refused
          cases refused
    takes := fun s a rest read => by
      obtain ⟨found, decoded, same⟩ := Option.map_eq_some_iff.mp read
      cases same
      exact Quoted.decodeUpTo_length decoded
    empty := fun u spent => by rw [spent]; rfl }

theorem solid_quoted :
    Solid (fun s t => t <:+ s) (fun s t => t <:+ s) (· = []) r quoted :=
  (solid_quotedBy _).orElse (solid_quotedBy _)

/-! ### Gaps -/

/-- The end of a comment is found where more text stands behind it. -/
theorem afterClosingMark_of_some {u v : List Char} (r : List Char)
    (closed : afterClosingMark u = some v) : afterClosingMark (u ++ r) = some (v ++ r) := by
  fun_induction afterClosingMark u with
  | case1 => cases closed
  | case2 u =>
      cases closed
      rfl
  | case3 c u other ih =>
      rw [List.cons_append, afterClosingMark.eq_3]
      · exact ih closed
      · rintro rest rfl same
        cases u with
        | nil => cases closed
        | cons d u =>
            cases same
            exact other u rfl rfl

/-- A comment that ends before the rest ends there without the rest too. -/
theorem afterClosingMark_of_append {u v r : List Char}
    (closed : afterClosingMark (u ++ r) = some (v ++ r)) : afterClosingMark u = some v := by
  fun_induction afterClosingMark u with
  | case1 =>
      have shorter := afterClosingMark_length closed
      rw [List.nil_append, List.length_append] at shorter
      omega
  | case2 u =>
      rw [List.cons_append, List.cons_append, afterClosingMark.eq_2, Option.some.injEq,
        List.append_cancel_right_eq] at closed
      rw [closed]
  | case3 c u other ih =>
      refine ih ?_
      by_cases mark : ∃ rest, c = '*' ∧ u ++ r = '/' :: rest
      · -- The mark would end in the rest.
        obtain ⟨rest, rfl, same⟩ := mark
        cases u with
        | cons d u =>
            cases same
            exact (other u rfl rfl).elim
        | nil =>
            have shorter := congrArg List.length same
            rw [List.cons_append, same, afterClosingMark.eq_2, Option.some.injEq] at closed
            have longer := congrArg List.length closed
            rw [List.length_append] at longer
            rw [List.nil_append, List.length_cons] at shorter
            omega
      · rwa [List.cons_append, afterClosingMark.eq_3 _ _ fun rest star same =>
          mark ⟨rest, star, same⟩] at closed

/-- A comment ends at its mark or its line, and white space is a single character. -/
theorem solid_gap : Solid (fun s t => t <:+ s) (fun s t => t <:+ s) (· = []) r gap := by
  have nothing {w : String} (nonempty : w ≠ "") ⦃u : List Char⦄ (spent : u = []) :
      word w u = none := by
    subst spent
    refine word_eq_none fun rest same => nonempty ?_
    exact String.toList_eq_nil_iff.mp (List.append_eq_nil_iff.mp same.symm).1
  have opening {w : String} (nonempty : w ≠ "") :
      Solid (fun s t => t <:+ s) (fun s t => t <:+ s) (· = []) r (word w) :=
    solid_word nonempty (fun s => List.suffix_append _ s) (nothing nonempty)
  refine .orElse ?_ (.orElse ?_ ?_)
  · exact (late_satisfying _).solid.bind suffixCut fun _ =>
      .pure suffixCut _
  · exact (opening (by decide)).bind suffixCut fun _ =>
      (total_run _).bind suffixCut fun _ => .pure suffixCut _
  · have mark : Edge (fun s t => t <:+ s) (fun s t => t <:+ s) (· = []) r (word "/*") :=
      (token_word (Nat.le_refl _) (Nat.le_succ _)).edge suffixCut fun s found rest read => by
        rw [word_eq_some_iff.mp read]
        exact List.suffix_append _ rest
    refine mark.bind suffixCut fun _ => ?_
    exact {
      path := fun s found rest read => by
        obtain ⟨rest', closed, same⟩ := Option.map_eq_some_iff.mp read
        cases same
        exact afterClosingMark_suffix closed
      stays := fun u found v _ read => by
        obtain ⟨rest, closed, same⟩ := Option.map_eq_some_iff.mp read
        cases same
        exact Option.map_eq_some_iff.mpr ⟨_, afterClosingMark_of_append closed, rfl⟩
      refuses := fun u _ refused => by
        rw [Option.map_eq_none_iff] at refused ⊢
        cases closed : afterClosingMark u with
        | none => rfl
        | some v =>
            rw [afterClosingMark_of_some r closed] at refused
            cases refused
      takes := fun s found rest read => by
        obtain ⟨rest', closed, same⟩ := Option.map_eq_some_iff.mp read
        cases same
        exact afterClosingMark_length closed
      empty := fun u spent => by rw [spent]; rfl }

/-! ## Units -/

/-- A unit that opens and closes nothing. -/
def passage : Reader Unit :=
  gap <|> (do let _ ← quoted) <|> (do let _ ← number) <|> (do let _ ← name)

/-- One unit of a script. -/
def unit : Reader Unit :=
  passage <|> (do let _ ← satisfying fun _ => true)

/-- A place that is reached from a text by passing over units. -/
def Reaches : List Char → List Char → Prop :=
  Relation.ReflTransGen fun s t => unit s = some ((), t)

section

variable {s rest : List Char}

/-- A gap is passed over as one unit, for it is the first alternative. -/
theorem passage_of_gap {found : Unit} (read : gap s = some (found, rest)) :
    passage s = some ((), rest) :=
  orElse_of_some read

/-- A quoted text is passed over as one unit, for no gap begins with a quote. -/
theorem passage_of_quoted {v : Value} (read : quoted s = some (v, rest)) :
    passage s = some ((), rest) := by
  rw [passage, orElse_of_none (gap_of_quoted read), orElse_of_some]
  rw [bind_of_some read, pure_apply]

/-- A plain character is no quote. -/
theorem quoted_of_plain {c : Char} (s : List Char) (plain : isPlain c = true) :
    quoted (c :: s) = none := by
  simp only [isPlain, Bool.and_eq_true, bne_iff_ne] at plain
  exact quoted_cons_eq_none s plain.1.1.1.2 plain.1.1.2

/-- A name begins with a character that names may begin with. -/
theorem name_head {n : String} (read : name s = some (n, rest)) :
    ∃ c t, s = c :: t ∧ isNameStart c = true := by
  obtain ⟨c, t, first, _⟩ := bind_eq_some read
  obtain ⟨start, same⟩ := satisfying_eq_some first
  exact ⟨c, t, same, start⟩

theorem gap_of_number {v : Value} (read : number s = some (v, rest)) : gap s = none := by
  obtain ⟨c, t, rfl, digit⟩ := number_head read
  exact gap_of_plain t (plain_isDigit c digit)

theorem gap_of_name {n : String} (read : name s = some (n, rest)) : gap s = none := by
  obtain ⟨c, t, rfl, start⟩ := name_head read
  exact gap_of_plain t (plain_isNameStart c start)

/-- A number is passed over as one unit, for no gap and no quote begins with a digit. -/
theorem passage_of_number {v : Value} (read : number s = some (v, rest)) :
    passage s = some ((), rest) := by
  obtain ⟨c, t, rfl, digit⟩ := number_head read
  have plain := plain_isDigit c digit
  rw [passage, orElse_of_none (gap_of_plain t plain),
    orElse_of_none (bind_of_none (quoted_of_plain t plain)), orElse_of_some]
  rw [bind_of_some read, pure_apply]

/-- A name is passed over as one unit, for nothing before it in the choice begins like it. -/
theorem passage_of_name {n : String} (read : name s = some (n, rest)) :
    passage s = some ((), rest) := by
  obtain ⟨c, t, rfl, start⟩ := name_head read
  have plain := plain_isNameStart c start
  have digit : c.isDigit = false := by
    cases digit : c.isDigit with
    | false => rfl
    | true =>
        rw [isNameStart_of_isDigit digit] at start
        cases start
  rw [passage, orElse_of_none (gap_of_plain t plain),
    orElse_of_none (bind_of_none (quoted_of_plain t plain)),
    orElse_of_none (bind_of_none (number_cons_eq_none t digit)), bind_of_some read, pure_apply]

/-- A character that begins no longer unit. -/
def isSingle (c : Char) : Bool :=
  !isSpace c && c != '/' && c != '"' && c != '\x27' && !c.isDigit && !isNameStart c

theorem gap_of_isSingle {c : Char} (s : List Char) (single : isSingle c = true) :
    gap (c :: s) = none := by
  simp only [isSingle, Bool.and_eq_true, Bool.not_eq_true', bne_iff_ne] at single
  exact gap_cons_eq_none s single.1.1.1.1.1 single.1.1.1.1.2

/-- A single character begins none of the longer units. -/
theorem passage_of_isSingle {c : Char} (s : List Char) (single : isSingle c = true) :
    passage (c :: s) = none := by
  have noGap := gap_of_isSingle s single
  simp only [isSingle, Bool.and_eq_true, Bool.not_eq_true', bne_iff_ne] at single
  rw [passage, orElse_of_none noGap,
    orElse_of_none (bind_of_none (quoted_cons_eq_none s single.1.1.1.2 single.1.1.2)),
    orElse_of_none (bind_of_none (number_cons_eq_none s single.1.2))]
  exact bind_of_none (name_cons_eq_none s single.2)

/-- A slash that begins no comment is a unit by itself. -/
theorem passage_of_slash (noGap : gap ('/' :: s) = none) : passage ('/' :: s) = none := by
  rw [passage, orElse_of_none noGap,
    orElse_of_none (bind_of_none (quoted_cons_eq_none s (by decide) (by decide))),
    orElse_of_none (bind_of_none (number_cons_eq_none s rfl))]
  exact bind_of_none (name_cons_eq_none s rfl)

theorem unit_of_passage (read : passage s = some ((), rest)) : unit s = some ((), rest) :=
  orElse_of_some read

/-- Where no longer unit begins, a unit is one character. -/
theorem unit_cons {c : Char} (noPassage : passage (c :: s) = none) :
    unit (c :: s) = some ((), s) := by
  rw [unit, orElse_of_none noPassage]
  rfl

theorem solid_passage :
    Solid (fun s t => t <:+ s) (fun s t => t <:+ s) (· = []) r passage := by
  have passed {α : Type} {p : Reader α}
      (solid : Solid (fun s t => t <:+ s) (fun s t => t <:+ s) (· = []) r p) :
      Solid (fun s t => t <:+ s) (fun s t => t <:+ s) (· = []) r (do let _ ← p) :=
    solid.bind suffixCut fun _ => .pure suffixCut _
  exact solid_gap.orElse <| (passed solid_quoted).orElse <| (passed solid_number).orElse <|
    passed solid_name

/-- A unit that ends before the cut is the same unit without the rest. -/
theorem solid_unit : Solid (fun s t => t <:+ s) (fun s t => t <:+ s) (· = []) r unit :=
  solid_passage.orElse <| (late_satisfying _).solid.bind suffixCut fun _ => .pure suffixCut _

theorem passage_progresses : Progresses passage := (solid_passage (r := [])).takes

theorem unit_progresses : Progresses unit := (solid_unit (r := [])).takes

theorem unit_suffix {found : Unit} (read : unit s = some (found, rest)) : rest <:+ s :=
  (solid_unit (r := [])).path read

end

/-! ## Places between units -/

/-- White space and comments up to the end of a text. -/
def Blank (s : List Char) : Prop := skipGaps s = []

/-- A place that is reached is the end of the text. -/
theorem reaches_suffix {s t : List Char} (reached : Reaches s t) : t <:+ s := by
  induction reached with
  | refl => exact List.suffix_refl s
  | tail _ step ih => exact (unit_suffix step).trans ih

/-- A unit of white space and comments leaves white space and comments. -/
theorem unit_of_blank {s rest : List Char} (blank : Blank s) (step : unit s = some ((), rest)) :
    Blank rest := by
  cases read : gap s with
  | none =>
      rw [Blank, skipGaps_of_none read] at blank
      subst blank
      exact absurd (unit_progresses step) (Nat.not_lt_zero _)
  | some found =>
      rw [unit_of_passage (passage_of_gap read)] at step
      cases step
      rwa [Blank, skipGaps_of_some read] at blank

/-- Places are where scripts are cut. -/
theorem reachesCut : Cut Reaches Reaches Blank where
  refl _ := .refl
  trans first second := first.trans second
  reach := id
  suffix := reaches_suffix
  linear {s t u} first second suffix := by
    have deterministic : Relator.RightUnique fun s t => unit s = some ((), t) := by
      intro s t t' step step'
      rw [step] at step'
      cases step'
      rfl
    rcases Relation.ReflTransGen.total_of_right_unique deterministic first second with
      further | back
    · exact further
    · have same : t = u := (reaches_suffix back).eq_of_length_le suffix.length_le
      rw [same]
      exact .refl
  spent reached blank := by
    induction reached with
    | refl => exact blank
    | tail _ step ih => exact unit_of_blank ih step
  nil := rfl

/-- A text that is cut at a place between units is cut through none of them. -/
theorem same_of_passage {p : Reader α}
    (solid : Solid (fun s t => t <:+ s) (fun s t => t <:+ s) (· = []) r p)
    (passes : ∀ {s a rest}, p s = some (a, rest) → passage s = some ((), rest)) {u : List Char}
    (place : Reaches (u ++ r) r) (fresh : u ≠ []) : Same r p u := by
  have suffix : r <:+ u ++ r := List.suffix_append u r
  cases whole : p (u ++ r) with
  | none => exact .of_none whole (solid.refuses suffix whole)
  | some found =>
      obtain ⟨a, rest⟩ := found
      rcases place.cases_head with same | ⟨next, step, further⟩
      · have equal := congrArg List.length same
        rw [List.length_append] at equal
        exact absurd (List.length_eq_zero_iff.mp (by omega)) fresh
      · rw [unit_of_passage (passes whole)] at step
        cases step
        obtain ⟨v, rfl⟩ := reaches_suffix further
        exact .of_some whole (solid.stays suffix whole)

/-- A gap is cut nowhere, unless the rest begins with one. -/
theorem gap_same (ends : gap r = none) {u : List Char} (place : Reaches (u ++ r) r) :
    Same r gap u := by
  by_cases fresh : u = []
  · subst fresh
    exact .of_none ends rfl
  · exact same_of_passage solid_gap passage_of_gap place fresh

/-- The end of the gaps is a place between units. -/
theorem reaches_skipGaps (s : List Char) : Reaches s (skipGaps s) := by
  cases read : gap s with
  | none =>
      rw [skipGaps_of_none read]
      exact .refl
  | some found =>
      rw [skipGaps_of_some read]
      exact .head (unit_of_passage (passage_of_gap read)) (reaches_skipGaps found.2)
termination_by s.length
decreasing_by exact gap_progresses read

/-- The gaps before a cut are skipped as without the rest, unless the rest begins with one. -/
theorem skipGaps_same (ends : gap r = none) {u : List Char} (place : Reaches (u ++ r) r) :
    skipGaps (u ++ r) = skipGaps u ++ r :=
  skipGaps_append_of (P := fun u => Reaches (u ++ r) r) (fun _ => gap_same ends)
    (fun _ _ place read => reachesCut.place_of_path place
      (.single (unit_of_passage (passage_of_gap ((gap_same ends place).append_of_some read)))))
    place

theorem gaps_same (ends : gap r = none) {u : List Char} (place : Reaches (u ++ r) r) :
    Same r gaps u := by
  rw [Same, gaps_apply, gaps_apply, skipGaps_same ends place, Option.map_some]

theorem place_skipGaps (ends : gap r = none) {u : List Char} (place : Reaches (u ++ r) r) :
    Reaches (skipGaps u ++ r) r := by
  apply reachesCut.place_of_path place
  rw [← skipGaps_same ends place]
  exact reaches_skipGaps (u ++ r)

end RowFilter.Script
