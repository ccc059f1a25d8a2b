import RowFilter.Proofs.Script.Arrow
import RowFilter.Proofs.Wrapping

/-!
# The parentheses around a single parameter

A single parameter before an arrow needs no parentheses.  With or without them the text is the
same program, whatever its body, and it is compiled in the same way; the same holds after the
mark of an asynchronous function.

There is one name for which this fails.  The parameter may be called `async`, but without
parentheses the name is taken for the mark, and then the text is never a program
(`bare_parameter_iff_ne_async`).
-/

set_option autoImplicit false

namespace RowFilter

open Script Reader Lexeme Grammar

namespace Script

/-- Bodies keep to the search for the parenthesis that closes. -/
theorem closing_arrowBody {s rest : List Char} {b : Body}
    (read : arrowBody s = some (b, rest)) : closing 0 s = closing 0 rest := by
  have F := balancedFrame (closing 0 s)
  have bodies : Parallel true _ _ arrowBody arrowBody :=
    .orElse ((F.block 0).map _) ((F.expr 0).map _)
  obtain ⟨_, _, ⟨_, within⟩, _⟩ := bodies.reads ⟨rfl, rfl⟩ read
  exact within.symm

theorem Finishes.closing_eq_none {rest : List Char} (finishes : Finishes rest) :
    closing 0 rest = none := by
  rw [← closing_skipGaps]
  rcases finishes.cases with ended | ⟨follow, next, ended⟩
  · rw [ended, closing_nil]
  · rw [next, closing_plain follow rfl, ← closing_skipGaps, ended, closing_nil]

section Heads

variable {head t rest : List Char} {signature : Signature} {b : Body}
  (reads : ReadsHead head signature) (body : arrowBody (skipGaps t) = some (b, rest))
  (finishes : Finishes rest)
include reads body finishes

theorem alone_of_readsHead : alone (head ++ t) =
    if (skipGaps rest).isEmpty then some (.function signature b) else none := by
  have read := reads.function.mpr ⟨rfl, body⟩
  have whole := expr_of_primary (reads.mark t) read finishes.silent
  rw [alone_eq_bind, afterGaps_of_begins expr (reads.begins t), whole, Option.bind_some]

/-- What a function is read as in parentheses does not depend on its head: it is not read if
the added parenthesis is swallowed, or if a semicolon stands before it. -/
theorem expr_open_of_readsHead [Decidable (Arrives 0 t)] :
    expr ('(' :: (head ++ t ++ [')'])) =
      if Arrives 0 t ∧ (skipGaps rest).isEmpty then some (.function signature b, []) else none := by
  have arrives_iff : Arrives 0 (head ++ t) ↔ Arrives 0 t := by
    rw [Arrives, Arrives, List.append_assoc, reads.closing]
  by_cases arrives : Arrives 0 t
  · rw [expr_open_of_arrives (arrives_iff.mpr arrives), alone_of_readsHead reads body finishes]
    cases ended : (skipGaps rest).isEmpty <;> simp [arrives]
  · have unclosed : closing 0 (head ++ t) = none := by
      rw [reads.closing, ← closing_skipGaps, closing_arrowBody body, finishes.closing_eq_none]
    have swallowed := (closing_append _ unclosed).resolve_right (mt arrives_iff.mp arrives)
    rw [expr_open_of_none swallowed, if_neg fun both => arrives both.1]

end Heads

end Script

/-! ## Compiling -/

/-- **Whatever the heads of two functions, with one signature and one body they are compiled
in the same way.** -/
theorem compile_eq_of_readsHead {head head' t : List Char} {signature : Signature} {b : Body}
    (reads : ReadsHead head signature) (reads' : ReadsHead head' signature) (body : LastBody t b)
    {source source' : String} (text : source.toList = head ++ t)
    (text' : source'.toList = head' ++ t) (supply : NameSupply) :
    compile source supply = compile source' supply := by
  classical
  obtain ⟨rest, read, finishes⟩ := body
  have first := expr_open_of_readsHead reads read finishes
  have second := expr_open_of_readsHead reads' read finishes
  rw [← text] at first
  rw [← text'] at second
  have same : Compilation.parseInside source = Compilation.parseInside source' := by
    split at first
    · next closed =>
        rw [if_pos closed] at second
        rw [parseInside_of_some first, parseInside_of_some second]
    · next open_ =>
        rw [if_neg open_] at second
        rw [parseInside_of_none first, parseInside_of_none second]
  rw [compile, compile, same]

/-- A filter with the bare parameter `async` is refused at its beginning. -/
theorem compile_async (body : String) (supply : NameSupply) :
    compile ("async => " ++ body) supply =
      .failed (.parse ⟨Position.start⟩) supply none := by
  have text : ("async => " ++ body).toList ++ [')'] =
      "async".toList ++ arrowText (body.toList ++ [')']) := by
    simp [arrowText]
  have refused : Compilation.parseInside ("async => " ++ body) = .error ⟨Position.start⟩ := by
    apply parseInside_of_none
    rw [text, expr_open_async]
  rw [compile, refused]

/-! ## With and without parentheses -/

/-- The mark of an asynchronous function, if there is one. -/
def markText (async : Bool) : String := if async then "async " else ""

/-- A function with a single parameter in parentheses. -/
def enclosedText (async : Bool) (v body : String) : String :=
  markText async ++ "(" ++ v ++ ") => " ++ body

/-- A function with a single parameter without parentheses. -/
def bareText (async : Bool) (v body : String) : String :=
  markText async ++ v ++ " => " ++ body

theorem toList_markText (async : Bool) : (markText async).toList = asyncText async := by
  cases async <;> rfl

theorem toList_enclosedText (async : Bool) (v body : String) :
    (enclosedText async v body).toList =
      headText async ('(' :: (v.toList ++ [')'])) ++ body.toList := by
  simp [enclosedText, headText, toList_markText]

theorem toList_bareText (async : Bool) (v body : String) :
    (bareText async v body).toList = headText async v.toList ++ body.toList := by
  simp [bareText, headText, toList_markText]

section Parameter

variable {v : String} (named : isIdentifier v = true) (async : Bool)
include named

theorem readsHead_enclosed :
    ReadsHead (headText async ('(' :: (v.toList ++ [')']))) ⟨none, [v], true, async, false⟩ :=
  (readsParameter_parentheses named).readsHead fun _ _ => keyword_cons_eq_none _ rfl

theorem readsHead_bare {async : Bool} (understood : async = true ∨ v ≠ "async") :
    ReadsHead (headText async v.toList) ⟨none, [v], true, async, false⟩ := by
  refine (readsParameter_bare named).readsHead fun unmarked t => ?_
  have other := understood.resolve_left (by simp [unmarked])
  exact keyword_append_eq_none (isName_of_isIdentifier named) (boundary_blank t) rfl other

/-- **A single parameter needs no parentheses, unless it is called `async` and the function is
not marked.**  A function with a parameter in parentheses that is accepted is accepted with and
without the mark.  Without the parentheses it is the same program and compiled in the same way,
or else it is never accepted and never compiled. -/
theorem bare_parameter_iff_ne_async {body : String} {s : Signature} {b : Body}
    (accepted : parse (enclosedText async v body) = .ok [.expression (.function s b)])
    (marked : Bool) :
    parse (enclosedText marked v body) =
        .ok [.expression (.function { s with async := marked } b)] ∧
      (parse (bareText marked v body) =
          .ok [.expression (.function { s with async := marked } b)] ↔
        marked = true ∨ v ≠ "async") ∧
      ∀ supply,
        (marked = true ∨ v ≠ "async" →
          compile (bareText marked v body) supply = compile (enclosedText marked v body) supply) ∧
        (¬ (marked = true ∨ v ≠ "async") →
          compile (bareText marked v body) supply =
            .failed (.parse ⟨Position.start⟩) supply none) := by
  obtain ⟨rfl, last⟩ :=
    ((readsHead_enclosed named async).parse_iff (toList_enclosedText ..)).mp accepted
  have enclosed := readsHead_enclosed named marked
  refine ⟨(enclosed.parse_iff (toList_enclosedText ..)).mpr ⟨rfl, last⟩, ?_, fun supply => ?_⟩
  · constructor
    · intro read
      by_contra refused
      obtain ⟨unmarked, rfl⟩ := not_or.mp refused |>.imp eq_false_of_ne_true not_not.mp
      subst unmarked
      have failed : parse (bareText false "async" body) = .error ⟨⟨6, 1, 7⟩⟩ := parse_async body
      rw [failed] at read
      cases read
    · intro understood
      exact ((readsHead_bare named understood).parse_iff (toList_bareText ..)).mpr ⟨rfl, last⟩
  · constructor
    · intro understood
      exact compile_eq_of_readsHead (readsHead_bare named understood) enclosed last
        (toList_bareText ..) (toList_enclosedText ..) supply
    · intro refused
      obtain ⟨unmarked, rfl⟩ := not_or.mp refused |>.imp eq_false_of_ne_true not_not.mp
      subst unmarked
      exact compile_async body supply

end Parameter

section Samples

open Builder

/-- The function of the samples, as the texts below spell it. -/
def sampleFunction (v : String) (async : Bool) : Expr :=
  .function ⟨none, [v], true, async, false⟩
    (.expression (equals (.member (.identifier v) "a") (constant (.integer 1))))

/-- After the mark even the name `async` needs no parentheses. -/
theorem bare_parameter_iff_ne_async_marked :
    parse (enclosedText false "async" "async.a === 1;") =
        .ok [.expression (sampleFunction "async" false)] ∧
      parse (bareText true "async" "async.a === 1;") =
        .ok [.expression (sampleFunction "async" true)] := by
  have accepted : parse (enclosedText false "async" "async.a === 1;") =
      .ok [.expression (sampleFunction "async" false)] :=
    eq_ok_of_toOption (by decide +kernel)
  have named : isIdentifier "async" = true := by decide
  obtain ⟨_, bare, _⟩ := bare_parameter_iff_ne_async named false accepted true
  exact ⟨accepted, bare.mpr (.inl rfl)⟩

/-- With the parentheses the parameter may be called `async`. -/
theorem bare_parameter_async_refused :
    isIdentifier "async" = true ∧
      parse "(async) => async.a === 1" = .ok [.expression (sampleFunction "async" false)] ∧
      parse "async => async.a === 1" ≠ .ok [.expression (sampleFunction "async" false)] ∧
      (compile "(async) => async.a === 1" .fresh).result = .ok sampleCondition ∧
      (compile "async => async.a === 1" .fresh).result = .error (.parse ⟨Position.start⟩) := by
  have accepted : parse "(async) => async.a === 1" =
      .ok [.expression (sampleFunction "async" false)] :=
    eq_ok_of_toOption (by decide +kernel)
  have compiled : Compilation.parseInside "(async) => async.a === 1" =
      .ok [.expression (sampleFunction "async" false)] :=
    eq_ok_of_toOption (by decide +kernel)
  refine ⟨by decide, accepted, ?_, ?_, ?_⟩
  · rw [show parse "async => async.a === 1" = .error ⟨⟨6, 1, 7⟩⟩ from parse_async "async.a === 1"]
    exact fun same => by cases same
  · rw [compile, compiled]
    rfl
  · rw [show compile "async => async.a === 1" .fresh = _ from compile_async "async.a === 1" .fresh]
    rfl

end Samples

end RowFilter
