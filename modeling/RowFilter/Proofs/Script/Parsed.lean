import RowFilter.Proofs.Script.Equality
import RowFilter.Proofs.Script.Reparsing
import RowFilter.Proofs.Text.Yields

/-!
# What is read is regular

Whatever text a program has been read from, all nodes of the program are regular: names
stand where names must, no integer is below zero, no floating-point number has a sign or
is NaN, and functions have the form that the word or the arrow demands
(`regular_of_parse`).  It is an invariant of every rule of the grammar, from the parts of
the rule to what it returns.
-/

set_option autoImplicit false

namespace RowFilter.Script

open Reader Lexeme Grammar

/-! ## Names and literals -/

theorem yields_name : Yields (fun n => isName n = true) name := fun _ _ _ => name_eq_some

theorem yields_identifier : Yields (fun n => isIdentifier n = true) identifier := fun _ _ _ =>
  identifier_eq_some

/-- No number is rounded beyond infinity. -/
theorem nearestRank_le (d : Decimal) : d.nearestRank ≤ Binary64.infinityRank := by
  rw [Decimal.nearestRank]
  split
  · exact Nat.zero_le _
  · split
    · exact Nat.le_refl _
    · split
      · exact Nat.zero_le _
      · exact Nat.min_le_left _ _

theorem isWritable_nearest (d : Decimal) : (Value.float d.nearest).isWritable = true :=
  Value.isWritable_float (Binary64.isNaN_ofRank (nearestRank_le d))
    (Binary64.isNegative_ofRank (nearestRank_le d))

/-- The value of a numeral has no sign and is not NaN, so it is writable. -/
theorem isWritable_numberValue (whole : List Char) (fraction : Option (List Char))
    (power : Option Int) : (numberValue whole fraction power).isWritable = true := by
  cases fraction with
  | some t => exact isWritable_nearest _
  | none =>
      cases power with
      | some p => exact isWritable_nearest _
      | none =>
          rw [numberValue]
          split
          · next small =>
              apply decide_eq_true
              exact (Int64.ofNat_le_iff_le (by decide) small).mpr (Nat.zero_le _)
          · exact isWritable_nearest _

theorem yields_literal : Yields (fun v => v.isWritable = true) literal := by
  have word (w : String) {v : Value} (writable : v.isWritable = true) :
      Yields (fun v => v.isWritable = true) (wordFor w v) := .next fun _ => .pure writable
  have number : Yields (fun v => v.isWritable = true) number :=
    .next fun whole => .next fun fraction => .next fun power =>
      .pure (isWritable_numberValue whole fraction power)
  have quotedBy (quote : Char) : Yields (fun v => v.isWritable = true) (quotedBy quote) := by
    refine .next fun _ s v rest read => ?_
    obtain ⟨found, _, same⟩ := Option.map_eq_some_iff.mp read
    cases same
    rfl
  exact .orElse (word _ rfl) (.orElse (word _ rfl) (.orElse (word _ rfl)
    (.orElse number (.orElse (quotedBy _) (quotedBy _)))))

/-! ## Expressions -/

/-- The property of a list that its elements are regular expressions. -/
theorem everyAll_iff (es : List Expr) :
    Expr.everyAll (Expr.isRegularNode Value.isWritable) Statement.isRegularNode es = true ↔
      ∀ e ∈ es, e.isRegular = true := by
  induction es with
  | nil => simp [Expr.everyAll]
  | cons e es ih => rw [Expr.everyAll, Bool.and_eq_true, ih, List.forall_mem_cons]

theorem statements_everyAll_iff (ss : List Statement) :
    Statement.everyAll (Expr.isRegularNode Value.isWritable) Statement.isRegularNode ss = true ↔
      ∀ s ∈ ss, s.isRegular = true := by
  induction ss with
  | nil => simp [Statement.everyAll]
  | cons s ss ih => rw [Statement.everyAll, Bool.and_eq_true, ih, List.forall_mem_cons]

theorem yields_parameter : Yields (fun n => isIdentifier n = true) parameter :=
  yields_identifier.bind fun _ named => .next fun _ => .pure named

theorem yields_listed {α : Type} {P : α → Prop} {element : Reader α} (yields : Yields P element) :
    Yields (fun l => ∀ a ∈ l, P a) (listed element) :=
  .next fun _ => .next fun _ => yields.separated.bind fun _ all =>
    .next fun _ => .next fun _ => .pure all

theorem isRegular_function {s : Signature} {b : Body} (signature : s.isRegular = true)
    (form : (s.arrow || b.isBlock) = true) (body : b.isRegular = true) :
    (Expr.function s b).isRegular = true := by
  simp only [Expr.isRegular, Expr.every, Expr.isRegularNode, signature, form, Bool.true_and]
  exact body

/-- Operations of regular expressions are regular. -/
theorem isRegular_binary {l r : Expr} (left : l.isRegular = true) (op : BinaryOp)
    (right : r.isRegular = true) : (Expr.binary l op r).isRegular = true := by
  simp only [Expr.isRegular, Expr.every, Expr.isRegularNode, Bool.true_and, Bool.and_eq_true]
  exact ⟨left, right⟩

section Parts

variable {E : Reader Expr} {B : Reader (List Statement)}
  (exprs : Yields (fun e => e.isRegular = true) E)
  (blocks : Yields (fun ss => ∀ s ∈ ss, s.isRegular = true) B)

include blocks in
theorem yields_functionLiteral : Yields (fun e => e.isRegular = true) (functionLiteral B) := by
  have called : Yields (fun o => ∀ n ∈ o, isIdentifier n = true)
      (Reader.optional (afterGaps identifier)) := .optional (.next fun _ => yields_identifier)
  have parameters : Yields (fun ns => ∀ n ∈ ns, isIdentifier n = true)
      (afterGaps (listed parameter)) := .next fun _ => yields_listed yields_parameter
  have body : Yields (fun ss => ∀ s ∈ ss, s.isRegular = true) (afterGaps B) :=
    .next fun _ => blocks
  refine .next fun async => .next fun _ => .next fun star => called.bind fun name named =>
    parameters.bind fun names all => body.bind fun ss regular => .pure ?_
  refine isRegular_function ?_ rfl ((statements_everyAll_iff ss).mpr regular)
  simp only [Signature.isRegular, Bool.not_false, Bool.true_or, Bool.and_true, Bool.and_eq_true]
  exact ⟨by simpa [Option.all_eq_true] using named, List.all_eq_true.mpr all⟩

include exprs blocks in
theorem yields_arrowFunction : Yields (fun e => e.isRegular = true) (arrowFunction E B) := by
  have only : Yields (fun ns => ∀ n ∈ ns, isIdentifier n = true)
      (do let only ← identifier; return [only]) :=
    yields_identifier.bind fun n named => .pure (by simpa using named)
  have parameters : Yields (fun ns => ∀ n ∈ ns, isIdentifier n = true)
      ((do let only ← identifier; return [only]) <|> listed parameter) :=
    .orElse only (yields_listed yields_parameter)
  have body : Yields (fun b => b.isRegular = true) (Body.block <$> B <|> Body.expression <$> E) :=
    .orElse (.map fun _ ss _ read => (statements_everyAll_iff ss).mpr (blocks read))
      (.map fun _ _ _ read => exprs read)
  refine .next fun async => parameters.bind fun names all => .next fun _ => .next fun _ =>
    .next fun _ => body.bind fun b regular => .pure ?_
  refine isRegular_function ?_ rfl regular
  simp only [Signature.isRegular, Option.all_none, Option.isNone_none, Bool.not_false,
    Bool.and_true, Bool.or_true, Bool.true_and]
  exact List.all_eq_true.mpr all

include exprs blocks in
theorem yields_primary : Yields (fun e => e.isRegular = true) (primary E B) := by
  have parenthesized : Yields (fun e => e.isRegular = true) (parenthesized E) :=
    .next fun _ => (Yields.next fun _ => exprs).bind fun _ regular => .next fun _ => .pure regular
  exact .orElse (yields_functionLiteral blocks) <| .orElse (yields_arrowFunction exprs blocks) <|
    .orElse parenthesized <| .orElse (.map fun _ _ _ read => yields_literal read)
      (.map fun _ _ _ read => yields_identifier read)

/-- A step takes regular expressions to regular expressions. -/
def Preserves (step : Expr → Expr) : Prop := ∀ e, e.isRegular = true → (step e).isRegular = true

include exprs in
/-- An access makes a regular expression of a regular one. -/
theorem yields_access : Yields Preserves (access E) := by
  have member : Yields Preserves
      (do char '.'; let read ← afterGaps name; return (.member · read)) :=
    .next fun _ => (Yields.next fun _ => yields_name).bind fun n named => .pure fun e regular => by
      simp only [Expr.isRegular, Expr.every, Expr.isRegularNode, named, Bool.true_and]
      exact regular
  have index : Yields Preserves
      (do char '['; let key ← afterGaps E; sign ']'; return (.index · key)) :=
    .next fun _ => (Yields.next fun _ => exprs).bind fun k key => .next fun _ =>
      .pure fun e regular => by
        simp only [Expr.isRegular, Expr.every, Expr.isRegularNode, Bool.true_and, Bool.and_eq_true]
        exact ⟨regular, key⟩
  have call : Yields Preserves (do let arguments ← listed E; return (.call · arguments)) :=
    (yields_listed exprs).bind fun es all => .pure fun e regular => by
      simp only [Expr.isRegular, Expr.every, Expr.isRegularNode, Bool.true_and, Bool.and_eq_true]
      exact ⟨regular, (everyAll_iff es).mpr all⟩
  exact .next fun _ => .orElse member (.orElse index call)

include exprs blocks in
theorem yields_postfixed : Yields (fun e => e.isRegular = true) (postfixed E B) := by
  refine (yields_primary exprs blocks).bind fun first regular =>
    (yields_access exprs).many.bind fun steps all => .pure ?_
  induction steps generalizing first with
  | nil => exact regular
  | cons step steps ih =>
      obtain ⟨now, later⟩ := List.forall_mem_cons.mp all
      exact ih _ (now first regular) later

include exprs blocks in
theorem yields_unary : Yields (fun e => e.isRegular = true) (unary E B) := by
  refine .next fun ops => (yields_postfixed exprs blocks).bind fun operand regular => .pure ?_
  induction ops with
  | nil => exact regular
  | cons op ops ih =>
      simp only [List.foldr_cons, Expr.isRegular, Expr.every, Expr.isRegularNode, Bool.true_and]
      exact ih

theorem yields_ladder {operand : Reader Expr}
    (yields : Yields (fun e => e.isRegular = true) operand) (operators : List (Reader BinaryOp)) :
    Yields (fun e => e.isRegular = true) (ladder operand operators) := by
  induction operators with
  | nil => exact yields
  | cons operator tighter ih =>
      have step : Yields (fun found => found.2.isRegular = true)
          (continuation (ladder operand tighter) operator) :=
        .next fun op => (Yields.next fun _ => ih).bind fun _ regular => .pure regular
      refine ih.bind fun first regular => step.many.bind fun others all => .pure ?_
      induction others generalizing first with
      | nil => exact regular
      | cons other others ih' =>
          obtain ⟨now, later⟩ := List.forall_mem_cons.mp all
          exact ih' _ (isRegular_binary regular other.1 now) later

include exprs blocks in
/-- An expression is regular if the expressions and blocks in it are. -/
theorem yields_expression : Yields (fun e => e.isRegular = true) (expression E B) := by
  have part : Yields (fun e => e.isRegular = true) (afterGaps E) := .next fun _ => exprs
  have branches : Yields (fun found => found.1.isRegular = true ∧ found.2.isRegular = true)
      (branches E) :=
    .next fun _ => .next fun _ => part.bind fun _ consequent => .next fun _ =>
      part.bind fun _ alternate => .pure ⟨consequent, alternate⟩
  refine (yields_ladder (yields_unary exprs blocks) levels).bind fun test regular =>
    branches.optional.bind fun found both => ?_
  cases found with
  | none => exact .pure regular
  | some found =>
      obtain ⟨consequent, alternate⟩ := both found rfl
      refine .pure ?_
      simp only [Expr.isRegular, Expr.every, Expr.isRegularNode, Bool.true_and, Bool.and_eq_true]
      exact ⟨⟨regular, consequent⟩, alternate⟩

/-! ## Statements -/

include exprs blocks in
theorem yields_statementOf : Yields (fun s => s.isRegular = true) (statementOf E B) := by
  have part : Yields (fun e => e.isRegular = true) (afterGaps E) := .next fun _ => exprs
  have result : Yields (fun s => s.isRegular = true) (resultStatement E) := by
    refine .next fun _ => part.optional.bind fun argument regular => .next fun _ => .pure ?_
    cases argument with
    | none => rfl
    | some e =>
        simp only [Statement.isRegular, Statement.every, Statement.isRegularNode, Bool.true_and]
        exact regular e rfl
  have declaration : Yields (fun s => s.isRegular = true) (declaration E) := by
    have initial : Yields (fun o => ∀ e ∈ o, e.isRegular = true)
        (Reader.optional (do sign '='; afterGaps E)) := .optional (.next fun _ => part)
    refine .next fun kind => (Yields.next fun _ => yields_identifier).bind fun n named =>
      initial.bind fun initial regular => .next fun _ => .pure ?_
    cases initial with
    | none => exact named
    | some e =>
        simp only [Statement.isRegular, Statement.every, Statement.isRegularNode, named,
          Bool.true_and]
        exact regular e rfl
  have content : Yields (fun s => s.isRegular = true) (expressionStatement E) :=
    exprs.bind fun e regular => .next fun _ => .pure regular
  exact .orElse (.map fun _ ss _ read => (statements_everyAll_iff ss).mpr (blocks read)) <|
    .orElse result <| .orElse declaration <| .orElse (.next fun _ => .pure rfl) content

end Parts

theorem yields_spaced {p : Reader Statement} (yields : Yields (fun s => s.isRegular = true) p) :
    Yields (fun s => s.isRegular = true) (spaced p) :=
  yields.bind fun _ regular => .next fun _ => .pure regular

theorem yields_blockOf {p : Reader Statement} (yields : Yields (fun s => s.isRegular = true) p) :
    Yields (fun ss => ∀ s ∈ ss, s.isRegular = true) (blockOf p) :=
  .next fun _ => .next fun _ => (yields_spaced yields).many.bind fun _ all =>
    .next fun _ => .pure all

/-! ## Programs -/

/-- Whatever the bound, the expressions and the blocks that are read are regular. -/
theorem yields_within (n : Nat) :
    Yields (fun e => e.isRegular = true) (exprWithin n) ∧
      Yields (fun ss => ∀ s ∈ ss, s.isRegular = true) (blockWithin n) := by
  induction n with
  | zero => exact ⟨.refuse, .refuse⟩
  | succ n ih =>
      exact ⟨yields_expression ih.1 ih.2, yields_blockOf (yields_statementOf ih.1 ih.2)⟩

theorem yields_statement : Yields (fun s => s.isRegular = true) statement :=
  yields_statementOf (fun s _ _ read => (yields_within (s.length + 1)).1 read)
    fun s _ _ read => (yields_within (s.length + 1)).2 read

/-- **Every program that is read is regular.** -/
theorem regular_of_parse {source : String} {p : Program} (parsed : parse source = .ok p) :
    p.isRegular = true := by
  rw [parse] at parsed
  split at parsed
  · next read =>
      cases parsed
      obtain rfl : (repeated (spaced statement) (skipGaps source.toList)).1 = p :=
        congrArg Prod.fst read
      exact (statements_everyAll_iff _).mpr ((yields_spaced yields_statement).rounds _ _)
  · cases parsed

/-- **A program that has been read is read back from its text just when none of its
literals is an infinite number.** -/
theorem parse_text_iff_isFinite {source : String} {p : Program} (parsed : parse source = .ok p) :
    parse p.text = .ok p ↔ p.isFinite = true := by
  rw [parse_text_reread (regular_of_parse parsed), Except.ok.injEq]
  exact Statement.rereadAll_eq_iff p

/-- The program that the text `1e400` is. -/
def infiniteProgram : Program :=
  [.expression (.literal (.float (Binary64.ofRank Binary64.infinityRank)))]

theorem parse_infinite : parse "1e400" = .ok infiniteProgram :=
  eq_ok_of_toOption (by decide +kernel)

theorem parse_text_iff_isFinite_infinite : parse "1e400" = .ok infiniteProgram ∧
    (parse (Program.text infiniteProgram) = .ok infiniteProgram ↔
      Program.isFinite infiniteProgram = true) :=
  ⟨parse_infinite, parse_text_iff_isFinite parse_infinite⟩

/-- The infinite number is written as a word, and the word is read as an identifier. -/
theorem parse_text_ne_of_parse : parse "1e400" = .ok infiniteProgram ∧
    parse (Program.text infiniteProgram) = .ok [.expression (.identifier "inf")] ∧
    parse (Program.text infiniteProgram) ≠ .ok infiniteProgram := by
  have identifier : parse (Program.text infiniteProgram) =
      .ok [.expression (.identifier "inf")] := eq_ok_of_toOption (by decide +kernel)
  refine ⟨parse_infinite, identifier, fun same => ?_⟩
  rw [identifier] at same
  cases same

end RowFilter.Script
