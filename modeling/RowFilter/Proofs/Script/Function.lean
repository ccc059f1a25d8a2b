import RowFilter.Proofs.Script.Atom
import RowFilter.Proofs.Script.Sequence

/-!
# Functions in their places

A function is written with the word `function` and a block, or with an arrow and a body of
either kind.  The parameters of either form are read back as a list, and a body with an
arrow is read as a block only if it begins with a brace.
-/

set_option autoImplicit false

namespace RowFilter.Script

open Reader Lexeme Grammar

/-! ## Parameters -/

theorem element_parameter {n : String} (named : isIdentifier n = true) :
    ReadsElement parameter n n := by
  refine ⟨fun _ => gap_name (isName_of_isIdentifier named) _, ?_⟩
  intro c t closer
  have boundary : Boundary (c :: t) := by
    rcases closer with rfl | rfl <;> exact boundary_cons t rfl
  have untyped : sign ':' (c :: t) = none := by
    rcases closer with rfl | rfl <;>
      exact sign_of_skipGaps (skipGaps_cons t rfl (by decide)) (by decide)
  refine ⟨c :: t, ?_, skipGaps_closer closer t⟩
  rw [parameter, bind_of_some (identifier_append named boundary),
    bind_of_some (optional_of_none (bind_of_none untyped))]
  rfl

/-- The type of a parameter is read and dropped. -/
theorem element_typed {n type : String} (named : isIdentifier n = true)
    (typed : isName type = true) : ReadsElement parameter (n ++ ": " ++ type) n := by
  have text (s : List Char) : (n ++ ": " ++ type).toList ++ s =
      n.toList ++ ':' :: ' ' :: (type.toList ++ s) := by simp
  refine ⟨fun _ => ?_, ?_⟩
  · rw [text]
    exact gap_name (isName_of_isIdentifier named) _
  · intro c t closer
    have boundary : Boundary (c :: t) := by
      rcases closer with rfl | rfl <;> exact boundary_cons t rfl
    have colon (s : List Char) : sign ':' (':' :: s) = some ((), s) :=
      sign_cons ':' s rfl (by decide)
    have read : afterGaps name (' ' :: (type.toList ++ c :: t)) = some (type, c :: t) := by
      rw [afterGaps_blank, afterGaps_apply,
        skipGaps_of_none (gap_name typed _), name_append typed boundary]
    refine ⟨c :: t, ?_, skipGaps_closer closer t⟩
    rw [text, parameter, bind_of_some (identifier_append named (boundary_cons _ rfl)),
      bind_of_some (optional_of_some ((bind_of_some (colon _)).trans read))]
    rfl

theorem listed_parameters {names : List String} (named : names.all isIdentifier = true)
    (rest : List Char) :
    listed parameter ('(' :: ((", ".intercalate names).toList ++ ')' :: rest)) =
      some (names, rest) := by
  have read := @listed_append _ _ parameter id id (equalFrame.parameter (d := 0))
    (fun rest => bind_of_none (identifier_cons_eq_none rest rfl)) names
    (fun n member => element_parameter (List.all_eq_true.mp named n member)) rest
  rwa [List.map_id] at read

theorem listed_typed {n type : String} (named : isIdentifier n = true)
    (typed : isName type = true) (rest : List Char) :
    listed parameter ('(' :: ((n ++ ": " ++ type).toList ++ ')' :: rest)) = some ([n], rest) := by
  have element : ∀ m ∈ [n], ReadsElement parameter (m ++ ": " ++ type) m := fun m member =>
    List.mem_singleton.mp member ▸ element_typed named typed
  have read := @listed_append _ _ parameter (· ++ ": " ++ type) id (equalFrame.parameter (d := 0))
    (fun rest => bind_of_none (identifier_cons_eq_none rest rfl)) [n] element rest
  rwa [List.map_singleton, String.intercalate_singleton] at read

/-! ## The mark of an asynchronous function -/

/-- The word that marks an asynchronous function, and the blank after it. -/
def asyncText (async : Bool) : List Char := if async then "async ".toList else []

theorem asyncMark_text (async : Bool) {s : List Char} (noGap : gap s = none)
    (noMark : async = false → keyword "async" s = none) :
    asyncMark (asyncText async ++ s) = some (async, s) := by
  cases async with
  | true =>
      have marked := asyncMark_async (boundary_blank s)
      rw [skipGaps_blank, skipGaps_of_none noGap] at marked
      exact marked
  | false => exact asyncMark_of_none (noMark rfl)

/-! ## Functions with an arrow -/

/-- What is read as the body of a function with an arrow. -/
def arrowBody : Reader Body := Body.block <$> block <|> Body.expression <$> expr

/-- After parameters and an arrow a body is read, and nothing else. -/
theorem arrowFunction_of_parameters {s marked middle t : List Char} {async : Bool}
    {names : List String} (mark : asyncMark s = some (async, marked))
    (parameters : arrowParameters marked = some (names, middle))
    (arrow : skipGaps middle = "=>".toList ++ t) :
    arrowFunction expr block s = (arrowBody (skipGaps t)).map fun found =>
      (.function ⟨none, names, true, async, false⟩ found.1, found.2) := by
  rw [arrowFunction, bind_of_some mark]
  apply (bind_of_some parameters).trans
  rw [bind_of_some (gaps_apply _), arrow, bind_of_some (word_append "=>" t),
    bind_of_some (gaps_apply _), bind_apply, Option.map_eq_bind]
  rfl

theorem skipGaps_arrow (t : List Char) :
    skipGaps (' ' :: '=' :: '>' :: t) = "=>".toList ++ t :=
  (skipGaps_blank _).trans (skipGaps_cons _ rfl (by decide))

/-- The text of a body is read back after an arrow. -/
structure ReadsBody (b : Body) : Prop where
  gap : ∀ {rest}, Boundary rest → gap (b.text.toList ++ rest) = none
  reads : ∀ {rest}, Ends rest → arrowBody (b.text.toList ++ rest) = some (b.reread, rest)

theorem readsBody_block {ss : List Statement} (reads : ∀ s ∈ ss, ReadsStatement s) :
    ReadsBody (.block ss) := by
  refine ⟨fun _ => ?_, fun _ => ?_⟩
  · rw [Body.text, toList_braced]
    exact gap_cons_eq_none _ rfl (by decide)
  · apply orElse_of_some
    rw [map_apply, Body.text, block_braced reads]
    rfl

theorem readsBody_expression {e : Expr} (reads : Reads e) : ReadsBody (.expression e) := by
  refine ⟨fun ends => (reads.begins ends).gap, fun {rest} ends => ?_⟩
  have noBlock : (Body.block <$> block) (e.text.toList ++ rest) = none := by
    rw [map_apply, (reads.begins ends.boundary).block]
    rfl
  rw [arrowBody, Body.text, orElse_of_none noBlock, map_apply, reads.whole ends]
  rfl

/-- The text of a function with an arrow. -/
theorem toList_arrow {s : Signature} (arrow : s.arrow = true) (b : Body) (rest : List Char) :
    (Expr.function s b).text.toList ++ rest =
      asyncText s.async ++ '(' :: ((", ".intercalate s.parameters).toList ++ ')' ::
        ' ' :: '=' :: '>' :: ' ' :: (b.text.toList ++ rest)) := by
  cases async : s.async <;> simp [Signature.text, asyncText, arrow, async]

theorem asyncMark_parenthesis (async : Bool) (t : List Char) :
    asyncMark (asyncText async ++ '(' :: t) = some (async, '(' :: t) :=
  asyncMark_text async (gap_cons_eq_none t rfl (by decide)) fun _ =>
    keyword_cons_eq_none t (by decide)

theorem functionLiteral_parenthesis (async : Bool) (t : List Char) :
    functionLiteral block (asyncText async ++ '(' :: t) = none := by
  rw [functionLiteral, bind_of_some (asyncMark_parenthesis async t)]
  exact bind_of_none (keyword_cons_eq_none t rfl)

/-- A function with an arrow is read back from any text of its parameters. -/
theorem primary_arrow_listing {s : Signature} {b : Body} {listing rest : List Char}
    (arrow : s.arrow = true) (regular : s.isRegular = true) (body : ReadsBody b)
    (parameters : ∀ t, listed parameter ('(' :: (listing ++ ')' :: t)) = some (s.parameters, t))
    (ends : Ends rest) :
    primary expr block (asyncText s.async ++ '(' :: (listing ++ ')' ::
      ' ' :: '=' :: '>' :: ' ' :: (b.text.toList ++ rest))) =
        some (.function s b.reread, rest) := by
  simp only [Signature.isRegular, arrow, Bool.not_true, Bool.false_or, Bool.and_eq_true,
    Option.isNone_iff_eq_none, Bool.not_eq_true'] at regular
  obtain ⟨_, anonymous, plain⟩ := regular
  have same : s = ⟨none, s.parameters, true, s.async, false⟩ := by
    rw [← anonymous, ← plain, ← arrow]
  have parameters (t : List Char) :
      arrowParameters ('(' :: (listing ++ ')' :: t)) = some (s.parameters, t) := by
    rw [arrowParameters, orElse_of_none (bind_of_none (identifier_cons_eq_none _ rfl)),
      parameters t]
  have afterArrow : skipGaps (' ' :: (b.text.toList ++ rest)) = b.text.toList ++ rest :=
    (skipGaps_blank _).trans (skipGaps_of_none (body.gap ends.boundary))
  have read := arrowFunction_of_parameters (asyncMark_parenthesis s.async _) (parameters _)
    (skipGaps_arrow (' ' :: (b.text.toList ++ rest)))
  rw [afterArrow, body.reads ends, Option.map_some, ← same] at read
  rw [primary, orElse_of_none (functionLiteral_parenthesis s.async _), orElse_of_some read]

/-- **The text of a function with an arrow is read back.** -/
theorem primary_arrow {s : Signature} {b : Body} (arrow : s.arrow = true)
    (regular : s.isRegular = true) (body : ReadsBody b) {rest : List Char} (ends : Ends rest) :
    primary expr block ((Expr.function s b).text.toList ++ rest) =
      some (.function s b.reread, rest) := by
  have named : s.parameters.all isIdentifier = true := by
    simp only [Signature.isRegular, Bool.and_eq_true] at regular
    exact regular.1.2
  rw [toList_arrow arrow]
  exact primary_arrow_listing arrow regular body (listed_parameters named) ends

/-! ## Functions with the word -/

/-- The name of a function and the blank before it. -/
def calledText (name : Option String) : List Char := name.elim [] fun n => ' ' :: n.toList

/-- The text of a function with a block. -/
theorem toList_function {s : Signature} (arrow : s.arrow = false) (ss : List Statement)
    (rest : List Char) :
    (Expr.function s (.block ss)).text.toList ++ rest =
      asyncText s.async ++ ("function".toList ++ ((if s.generator then ['*'] else []) ++
        (calledText s.name ++ '(' :: ((", ".intercalate s.parameters).toList ++ ')' ::
          ' ' :: ((braced (Statement.texts ss)).toList ++ rest))))) := by
  cases async : s.async <;> cases generator : s.generator <;> cases name : s.name <;>
    simp [Signature.text, asyncText, calledText, arrow, async, generator, name]

theorem sign_star (generator : Bool) {t : List Char} (noStar : sign '*' t = none) :
    optional (sign '*') ((if generator then ['*'] else []) ++ t) =
      some (if generator then some () else none, t) := by
  cases generator with
  | true => exact optional_of_some (sign_cons '*' t rfl (by decide))
  | false => exact optional_of_none noStar

theorem called_append {name : Option String} (named : name.all isIdentifier = true)
    (t : List Char) :
    optional (afterGaps identifier) (calledText name ++ '(' :: t) = some (name, '(' :: t) := by
  cases name with
  | none =>
      apply optional_of_none
      show afterGaps identifier ('(' :: t) = none
      rw [afterGaps_apply, skipGaps_cons t rfl (by decide), identifier_cons_eq_none t rfl]
  | some n =>
      apply optional_of_some
      have read := declared_append (by simpa using named : isIdentifier n = true)
        (boundary_cons t rfl : Boundary ('(' :: t))
      simpa [calledText] using read

theorem called_head {name : Option String} (named : name.all isIdentifier = true) (t : List Char) :
    sign '*' (calledText name ++ '(' :: t) = none ∧
      Boundary (calledText name ++ '(' :: t) := by
  cases name with
  | none => exact ⟨sign_of_skipGaps (skipGaps_cons t rfl (by decide)) (by decide),
      boundary_cons t rfl⟩
  | some n =>
      have named' := isName_of_isIdentifier (by simpa using named : isIdentifier n = true)
      obtain ⟨c, u, same, start, _⟩ := isName_eq_true named'
      have next : skipGaps (' ' :: (n.toList ++ '(' :: t)) = c :: (u ++ '(' :: t) := by
        rw [skipGaps_blank, skipGaps_of_none (gap_name named' _), same, List.cons_append]
      refine ⟨sign_of_skipGaps next ?_, boundary_blank _⟩
      rintro rfl
      cases start

theorem function_boundary {name : Option String} (named : name.all isIdentifier = true)
    (generator : Bool) (t : List Char) :
    Boundary ((if generator then ['*'] else []) ++ (calledText name ++ '(' :: t)) := by
  cases generator with
  | true => exact boundary_cons _ rfl
  | false => exact (called_head named t).2

/-- What is read after the word `function`. -/
theorem primary_word {s : Signature} {ss : List Statement} {t called listing body rest : List Char}
    (arrow : s.arrow = false) (boundary : Boundary t)
    (star : optional (sign '*') t = some (if s.generator then some () else none, called))
    (name : optional (afterGaps identifier) called = some (s.name, listing))
    (parameters : afterGaps (listed parameter) listing = some (s.parameters, body))
    (statements : afterGaps block body = some (ss, rest)) :
    primary expr block (asyncText s.async ++ ("function".toList ++ t)) =
      some (.function s (.block ss), rest) := by
  have mark : asyncMark (asyncText s.async ++ ("function".toList ++ t)) =
      some (s.async, "function".toList ++ t) :=
    asyncMark_text s.async (gap_name rfl _) fun _ =>
      keyword_append_eq_none (by decide) boundary (by decide) (by decide)
  have same : s = ⟨s.name, s.parameters, false, s.async,
      (if s.generator then some () else none : Option Unit).isSome⟩ := by
    rw [← arrow]
    cases s with
    | mk name parameters arrow async generator => cases generator <;> rfl
  apply orElse_of_some
  rw [functionLiteral, bind_of_some mark, bind_of_some (keyword_append "function" boundary),
    bind_of_some star, bind_of_some name, bind_of_some parameters, bind_of_some statements, ← same]
  rfl

theorem afterGaps_parameters {names : List String} (named : names.all isIdentifier = true)
    (rest : List Char) :
    afterGaps (listed parameter) ('(' :: ((", ".intercalate names).toList ++ ')' :: rest)) =
      some (names, rest) := by
  rw [afterGaps_apply, skipGaps_cons _ rfl (by decide), listed_parameters named rest]

/-- **The text of a function with a block is read back.** -/
theorem primary_function {s : Signature} {ss : List Statement} (arrow : s.arrow = false)
    (regular : s.isRegular = true) (reads : ∀ s ∈ ss, ReadsStatement s) (rest : List Char) :
    primary expr block ((Expr.function s (.block ss)).text.toList ++ rest) =
      some (.function s (.block (Statement.rereadAll ss)), rest) := by
  simp only [Signature.isRegular, arrow, Bool.not_false, Bool.true_or, Bool.and_true,
    Bool.and_eq_true] at regular
  obtain ⟨called, named⟩ := regular
  have body : afterGaps block (' ' :: ((braced (Statement.texts ss)).toList ++ rest)) =
      some (Statement.rereadAll ss, rest) := by
    have noGap : gap ((braced (Statement.texts ss)).toList ++ rest) = none := by
      rw [toList_braced]
      exact gap_cons_eq_none _ rfl (by decide)
    rw [afterGaps_blank, afterGaps_apply, skipGaps_of_none noGap, block_braced reads]
  rw [toList_function arrow]
  exact primary_word arrow (function_boundary called _ _)
    (sign_star s.generator (called_head called _).1) (called_append called _)
    (afterGaps_parameters named _) body

/-! ## Functions in all places -/

theorem begins_async (async : Bool) {s : List Char} (begins : Begins s) :
    Begins (asyncText async ++ s) := by
  cases async with
  | true =>
      show Begins ("async".toList ++ ' ' :: s)
      exact begins_name (by decide) (boundary_blank s) (by decide)
  | false => exact begins

theorem unaryMark_async (async : Bool) {s : List Char} (mark : unaryMark s = none) :
    unaryMark (asyncText async ++ s) = none := by
  cases async with
  | true => exact unaryMark_name (by decide : isName "async" = true) (' ' :: s)
  | false => exact mark

theorem Reads.arrow {s : Signature} {b : Body} (arrow : s.arrow = true)
    (regular : s.isRegular = true) (body : ReadsBody b) : Reads (.function s b) := by
  refine .of_whole ?_ rfl rfl rfl ?_
  · intro rest _
    rw [toList_arrow arrow]
    exact begins_async _ (begins_cons _ rfl)
  · intro rest ends
    refine expr_of_primary ?_ (primary_arrow arrow regular body ends) ends.toSilent
    rw [toList_arrow arrow]
    exact unaryMark_async _ (unaryMark_open _)

theorem Reads.function {s : Signature} {ss : List Statement} (arrow : s.arrow = false)
    (regular : s.isRegular = true) (reads : ∀ s ∈ ss, ReadsStatement s) :
    Reads (.function s (.block ss)) := by
  refine .of_whole ?_ rfl rfl rfl ?_
  · intro rest _
    rw [toList_function arrow]
    simp only [Signature.isRegular, Bool.and_eq_true] at regular
    exact begins_async _ (begins_name (by decide) (function_boundary regular.1.1 _ _) (by decide))
  · intro rest ends
    refine expr_of_primary ?_ (primary_function arrow regular reads rest) ends.toSilent
    rw [toList_function arrow]
    exact unaryMark_async _ (unaryMark_name rfl _)

end RowFilter.Script
