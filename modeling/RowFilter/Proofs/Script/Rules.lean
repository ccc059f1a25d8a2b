import RowFilter.Proofs.Script.Parentheses

/-!
# Rules one at a time

What a rule of the grammar reads is computed here from what its parts read.  An
expression that is followed by nothing an operator, an access or a conditional could
begin with is what its operand is (`expr_of_unary`).  A text that begins with a
parenthesis is a function with an arrow, or an expression in parentheses, or it cannot
be read (`primary_open`).
-/

set_option autoImplicit false

namespace RowFilter.Script

open Reader Lexeme Grammar

/-! ## After an operand -/

/-- Nothing that goes on with an operand: no access, no operator and no branches. -/
structure Silent (rest : List Char) : Prop where
  access : access expr rest = none
  operators : ∀ operator ∈ levels, afterGaps operator rest = none
  branches : branches expr rest = none

/-- A level without its operator is its operand. -/
theorem chain_pass {operand : Reader Expr} {operator : Reader BinaryOp} {s rest : List Char}
    {e : Expr} (read : operand s = some (e, rest)) (silent : afterGaps operator rest = none) :
    chain operand operator s = some (e, rest) := by
  have none_left : continuation operand operator rest = none := bind_of_none silent
  rw [chain, bind_of_some read, bind_of_some (many_of_none none_left)]
  rfl

/-- Operators that cannot be read leave the operand as it is. -/
theorem ladder_pass {operand : Reader Expr} {operators : List (Reader BinaryOp)}
    {s rest : List Char} {e : Expr} (read : operand s = some (e, rest))
    (silent : ∀ operator ∈ operators, afterGaps operator rest = none) :
    ladder operand operators s = some (e, rest) := by
  induction operators with
  | nil => exact read
  | cons operator operators ih =>
      apply chain_pass
      · exact ih fun operator member => silent operator (List.mem_cons_of_mem _ member)
      · exact silent operator List.mem_cons_self

theorem expr_of_ladder {s rest : List Char} {e : Expr}
    (read : ladder (unary expr block) levels s = some (e, rest))
    (silent : branches expr rest = none) : expr s = some (e, rest) := by
  rw [expr_eq, expression, bind_of_some read, bind_of_some (optional_of_none silent)]
  rfl

theorem expr_of_unary {s rest : List Char} {e : Expr}
    (read : unary expr block s = some (e, rest)) (silent : Silent rest) :
    expr s = some (e, rest) :=
  expr_of_ladder (ladder_pass read silent.operators) silent.branches

theorem unary_of_postfixed {s rest : List Char} {e : Expr} (mark : unaryMark s = none)
    (read : postfixed expr block s = some (e, rest)) :
    unary expr block s = some (e, rest) := by
  rw [unary, bind_of_some (many_of_none mark), bind_of_some read]
  rfl

theorem postfixed_of_primary {s rest : List Char} {e : Expr}
    (read : primary expr block s = some (e, rest)) (silent : access expr rest = none) :
    postfixed expr block s = some (e, rest) := by
  rw [postfixed, bind_of_some read, bind_of_some (many_of_none silent)]
  rfl

/-- A primary expression is a whole expression where nothing goes on. -/
theorem expr_of_primary {s rest : List Char} {e : Expr} (mark : unaryMark s = none)
    (read : primary expr block s = some (e, rest)) (silent : Silent rest) :
    expr s = some (e, rest) :=
  expr_of_unary (unary_of_postfixed mark (postfixed_of_primary read silent.access)) silent

/-! ## Where an expression cannot begin -/

theorem ladder_of_none {operand : Reader Expr} {s : List Char} (refused : operand s = none) :
    ∀ operators : List (Reader BinaryOp), ladder operand operators s = none
  | [] => refused
  | _ :: operators => bind_of_none (ladder_of_none refused operators)

/-- No expression begins where no mark and no primary expression does. -/
theorem expr_of_none {s : List Char} (mark : unaryMark s = none)
    (refused : primary expr block s = none) : expr s = none := by
  have noUnary : unary expr block s = none := by
    rw [unary, bind_of_some (many_of_none mark)]
    exact bind_of_none (bind_of_none refused)
  rw [expr_eq]
  exact bind_of_none (ladder_of_none noUnary levels)

/-! ## By the first character -/

theorem keyword_eq_none {w : String} {s : List Char} (other : ∀ rest, s ≠ w.toList ++ rest) :
    keyword w s = none :=
  bind_of_none (word_eq_none other)

/-- A keyword is refused at its first letter. -/
theorem keyword_cons_eq_none {w : String} {c : Char} (s : List Char)
    (other : w.toList.head?.any (· != c) = true) : keyword w (c :: s) = none := by
  apply keyword_eq_none
  intro rest same
  cases first : w.toList with
  | nil => simp [first] at other
  | cons d tail =>
      rw [first, List.cons_append] at same
      simp [first, (List.cons.inj same).1] at other

theorem name_cons_eq_none {c : Char} (s : List Char) (start : isNameStart c = false) :
    name (c :: s) = none :=
  bind_of_none (by simp [start])

theorem identifier_cons_eq_none {c : Char} (s : List Char) (start : isNameStart c = false) :
    identifier (c :: s) = none :=
  bind_of_none (name_cons_eq_none s start)

theorem number_cons_eq_none {c : Char} (s : List Char) (digit : c.isDigit = false) :
    number (c :: s) = none :=
  bind_of_none (bind_of_none (by simp [digit]))

theorem asyncMark_of_none {s : List Char} (refused : keyword "async" s = none) :
    asyncMark s = some (false, s) := by
  have none_marked : optional (do keyword "async"; gaps) s = some (none, s) :=
    optional_of_none (bind_of_none refused)
  rw [asyncMark, bind_of_some none_marked]
  rfl

/-- The parameters before an arrow. -/
def arrowParameters : Reader (List String) :=
  (do let only ← identifier; return [only]) <|> listed parameter

/-- Where no arrow follows what may be parameters, there is no function with an arrow. -/
theorem arrowFunction_of_mark {s marked : List Char} {async : Bool}
    (mark : asyncMark s = some (async, marked))
    (noArrow : ∀ parameters rest, arrowParameters marked = some (parameters, rest) →
      word "=>" (skipGaps rest) = none) :
    arrowFunction expr block s = none := by
  rw [arrowFunction, bind_of_some mark]
  cases read : arrowParameters marked with
  | none => exact bind_of_none read
  | some found =>
      have arrow := noArrow found.1 found.2 read
      apply (bind_of_some read).trans
      rw [bind_of_some (gaps_apply found.2)]
      exact bind_of_none arrow

/-! ## Texts that begin with a parenthesis -/

section Parenthesis

variable {t : List Char}

theorem unaryMark_open (t : List Char) : unaryMark ('(' :: t) = none := rfl

theorem asyncMark_open (t : List Char) : asyncMark ('(' :: t) = some (false, '(' :: t) :=
  asyncMark_of_none (keyword_cons_eq_none t rfl)

theorem functionLiteral_open (t : List Char) : functionLiteral block ('(' :: t) = none := by
  rw [functionLiteral, bind_of_some (asyncMark_open t)]
  exact bind_of_none (keyword_cons_eq_none t rfl)

theorem literal_open (t : List Char) : literal ('(' :: t) = none := by
  have noWord {w : String} {v : Value} (other : w.toList.head?.any (· != '(') = true) :
      wordFor w v ('(' :: t) = none :=
    bind_of_none (keyword_cons_eq_none t other)
  rw [literal, orElse_of_none (noWord (by decide)),
    orElse_of_none (noWord rfl),
    orElse_of_none (noWord rfl),
    orElse_of_none (number_cons_eq_none t rfl), quoted_cons_eq_none t (by decide) (by decide)]

/-- Where no arrow follows a list of parameters, there is no function with an arrow. -/
theorem arrowFunction_open
    (noArrow : ∀ parameters rest, listed parameter ('(' :: t) = some (parameters, rest) →
      word "=>" (skipGaps rest) = none) :
    arrowFunction expr block ('(' :: t) = none := by
  apply arrowFunction_of_mark (asyncMark_open t)
  intro parameters rest read
  rw [arrowParameters, orElse_of_none (bind_of_none (identifier_cons_eq_none t rfl))] at read
  exact noArrow parameters rest read

/-- A text that begins with a parenthesis and is no function is an expression in
parentheses. -/
theorem primary_open (arrow : arrowFunction expr block ('(' :: t) = none) :
    primary expr block ('(' :: t) = parenthesized expr ('(' :: t) := by
  rw [primary, orElse_of_none (functionLiteral_open t), orElse_of_none arrow, orElse_apply]
  have none_else : (Expr.literal <$> literal <|> Expr.identifier <$> identifier : Reader Expr)
      ('(' :: t) = none := by
    simp [literal_open, identifier_cons_eq_none t (show isNameStart '(' = false from rfl)]
  rw [none_else, Option.or_none]

/-! ## Where a parenthesis is closed -/

theorem parenthesized_open (t : List Char) :
    parenthesized expr ('(' :: t) =
      (afterGaps expr t).bind fun found =>
        (sign ')' found.2).map fun closed => (found.1, closed.2) := by
  rw [parenthesized, bind_of_some (char_self _ _), bind_apply]
  apply Option.bind_congr
  intro found _
  rw [bind_apply]
  cases sign ')' found.2 <;> simp

/-- The closing parenthesis that is read is the one that the search finds. -/
theorem sign_closing {s rest : List Char} {found : Unit}
    (read : sign ')' s = some (found, rest)) : closing 0 s = some rest := by
  obtain ⟨_, middle, skipped, closed⟩ := bind_eq_some read
  cases skipped
  rw [← closing_skipGaps, char_eq_some closed, closing_zero]

/-- An expression in parentheses ends where the search does. -/
theorem parenthesized_closing {e : Expr} {rest : List Char}
    (read : parenthesized expr ('(' :: t) = some (e, rest)) : closing 0 t = some rest := by
  obtain ⟨_, _, opened, read⟩ := bind_eq_some read
  cases char_eq_some opened
  obtain ⟨_, middle, inner, read⟩ := bind_eq_some read
  obtain ⟨_, _, closed, last⟩ := bind_eq_some read
  cases last
  have F := balancedFrame (closing 0 t)
  obtain ⟨_, _, ⟨_, within⟩, _⟩ := (F.afterGaps (F.expr 0)).reads ⟨rfl, rfl⟩ inner
  rw [← within, sign_closing closed]

/-- A list in parentheses ends where the search does. -/
theorem listed_closing {α : Type} {element : Reader α}
    (parallel : ∀ found, Parallel true (fun s t => s = t ∧ closing 0 s = found)
      (fun s t => s = t ∧ closing 0 s = found) element element)
    {elements : List α} {rest : List Char}
    (read : listed element ('(' :: t) = some (elements, rest)) : closing 0 t = some rest := by
  obtain ⟨_, _, opened, read⟩ := bind_eq_some read
  cases char_eq_some opened
  obtain ⟨_, begins, skipped, read⟩ := bind_eq_some read
  obtain ⟨_, middle, listing, read⟩ := bind_eq_some read
  obtain ⟨_, ends, comma, read⟩ := bind_eq_some read
  obtain ⟨_, _, closed, last⟩ := bind_eq_some read
  cases last
  have F := balancedFrame (closing 0 t)
  obtain ⟨_, _, ⟨_, within⟩, _⟩ := (F.gaps (d := 0)).reads ⟨rfl, rfl⟩ skipped
  obtain ⟨_, _, ⟨_, within⟩, _⟩ := ((parallel _).separated
    ((F.sign rfl).bind fun _ => F.gaps).loosen).reads ⟨rfl, within⟩ listing
  obtain ⟨_, _, ⟨_, within⟩, _⟩ := (F.sign rfl).optional.reads ⟨rfl, within⟩ comma
  rw [← within, sign_closing closed]

theorem parameters_closing {parameters : List String} {rest : List Char}
    (read : listed parameter ('(' :: t) = some (parameters, rest)) : closing 0 t = some rest :=
  listed_closing (fun found => (balancedFrame found).parameter) read

end Parenthesis

/-! ## The end of a text -/

theorem silent_nil : Silent [] where
  access := rfl
  operators operator member := by
    simp only [levels, List.mem_cons, List.not_mem_nil, or_false] at member
    rcases member with rfl | rfl | rfl | rfl | rfl | rfl | rfl | rfl | rfl | rfl <;> rfl
  branches := rfl

end RowFilter.Script
