import RowFilter.Proofs.Ledger
import RowFilter.Proofs.Script.Parsed
import RowFilter.Proofs.Wrapping

/-!
# Filters that are built

A filter can be assembled from columns, constants and the operations on them without any
text.  It can then be compiled as the tree that it is, and it can be compiled from the text
of this tree.

Both ways agree as long as the script language has a literal for every constant in the
filter (`agrees_iff_hasLiteral`).  It has none for numbers with a sign, for NaN and for
infinite numbers: what is written for these is read back as an operation or as a name.
-/

set_option autoImplicit false

namespace RowFilter

open Script Sql Builder

/-! ## Built conditions -/

/-- The operations that join two expressions. -/
def combinators : List (Expr → Expr → Expr) :=
  [equals, notEquals, greater, greaterOrEqual, less, lessOrEqual, both, either]

/-- What is built from columns and constants. -/
inductive Built : Expr → Prop
  | field {name : String} : isName name = true → Built (field name)
  | constant (value : Value) : Built (constant value)
  | combine {f : Expr → Expr → Expr} {left right : Expr} :
      f ∈ combinators → Built left → Built right → Built (f left right)

/-- Compiling a filter as a tree and compiling its text give the same. -/
def Agrees (f : Expr) (supply : NameSupply) : Prop :=
  (compile f.text supply).result = (compileExpr f supply).result ∧
    (compile f.text supply).supply = (compileExpr f supply).supply

/-- The script language has a literal for the value. -/
def Value.HasLiteral (v : Value) : Prop := v.isWritable = true ∧ v.isInfinite = false

instance (v : Value) : Decidable v.HasLiteral := inferInstanceAs (Decidable (_ ∧ _))

/-! ## Trees of comparisons and connectives -/

/-- Operators that a predicate may have anywhere. -/
def isJoining : BinaryOp → Bool
  | .compare _ | .connect .and | .connect .or => true
  | _ => false

/-- Columns and constants that are joined by such operators. -/
inductive Joined : Expr → Prop
  | field {name : String} : isName name = true → Joined (field name)
  | constant (value : Value) : Joined (constant value)
  | binary {left right : Expr} {op : BinaryOp} :
      isJoining op = true → Joined left → Joined right → Joined (.binary left op right)

theorem combinator_eq {f : Expr → Expr → Expr} (member : f ∈ combinators) :
    ∃ op, isJoining op = true ∧ f = fun left right => .binary left op right := by
  simp only [combinators, List.mem_cons, List.not_mem_nil, or_false] at member
  rcases member with rfl | rfl | rfl | rfl | rfl | rfl | rfl | rfl <;> exact ⟨_, rfl, rfl⟩

theorem Built.joined {e : Expr} (built : Built e) : Joined e := by
  induction built with
  | field named => exact .field named
  | constant value => exact .constant value
  | combine member _ _ ih ih' =>
      obtain ⟨op, joining, rfl⟩ := combinator_eq member
      exact .binary joining ih ih'

namespace Joined

variable {e : Expr}

theorem isRegular (joined : Joined e) :
    (∀ v ∈ e.constants, v.isWritable = true) → e.isRegular = true := by
  induction joined with
  | @field name named =>
      intro _
      have isRow : isIdentifier row = true := by decide
      simp only [Builder.field, Expr.isRegular, Expr.every, Expr.isRegularNode, named, isRow,
        Bool.and_self]
  | constant value => exact fun writable => writable value List.mem_cons_self
  | binary _ _ _ ih ih' =>
      intro writable
      obtain ⟨left, right⟩ := List.forall_mem_append.mp writable
      exact isRegular_binary (ih left) _ (ih' right)

theorem constants_reread (joined : Joined e) :
    e.reread.constants = e.constants.filter (!·.isInfinite) := by
  induction joined with
  | field named => rfl
  | constant value =>
      cases infinite : value.isInfinite <;>
        simp [Builder.constant, Expr.reread, Expr.constants, infinite]
  | binary _ _ _ ih ih' =>
      rw [Expr.reread, Expr.constants, Expr.constants, ih, ih', List.filter_append]

theorem reread_eq (joined : Joined e) :
    (∀ v ∈ e.constants, v.isInfinite = false) → e.reread = e := by
  induction joined with
  | field named => exact fun _ => rfl
  | constant value =>
      intro finite
      simp [Builder.constant, Expr.reread, finite value List.mem_cons_self]
  | binary _ _ _ ih ih' =>
      intro finite
      obtain ⟨left, right⟩ := List.forall_mem_append.mp finite
      rw [Expr.reread, ih left, ih' right]

/-- Everything in such a tree has a counterpart. -/
theorem exists_lowered (joined : Joined e) : ∀ ledger : Lowering.Ledger,
    ∃ n next, (Lowering.condition e).run ledger = (.ok n, next) := by
  induction joined with
  | field named => exact fun ledger => ⟨_, _, rfl⟩
  | constant value => exact fun ledger => ⟨_, _, rfl⟩
  | @binary left right op joining _ _ ih ih' =>
      intro ledger
      obtain ⟨l, middle, done⟩ := ih ledger
      obtain ⟨r, next, done'⟩ := ih' middle
      match op, joining with
      | .compare c, _ =>
          exact ⟨_, _, Lowering.run_both done done' fun l r =>
            .comparison l (Lowering.comparator c) r⟩
      | .connect .and, _ =>
          exact ⟨_, _, Lowering.run_both done done' fun l r => .combine l .and r⟩
      | .connect .or, _ =>
          exact ⟨_, _, Lowering.run_both done done' fun l r => .combine l .or r⟩

end Joined

/-! ## Texts of regular trees -/

theorem parseInside_text {e : Expr} (regular : e.isRegular = true) :
    Compilation.parseInside e.text = .ok [.expression e.reread] := by
  have reads := e.reads regular
  have closer : Script.Ends [')'] := ends_cons [] rfl
  exact parseInside_of_some (expr_of_primary (unaryMark_open _)
    (primary_parentheses (reads.begins closer.boundary) (reads.whole closer) rfl) silent_nil)

theorem agrees_of_reread {f : Expr} (regular : f.isRegular = true) (same : f.reread = f)
    (supply : NameSupply) : Agrees f supply := by
  have read := parseInside_text regular
  rw [same] at read
  rw [Agrees, compile_of_parseInside read]
  exact ⟨rfl, rfl⟩

/-! ## What a text can bind -/

theorem Script.Expr.isWritable_constants : ∀ {e : Expr}, e.isRegular = true →
    ∀ v ∈ e.constants, v.isWritable = true
  | .literal v, regular => fun w member => List.mem_singleton.mp member ▸ regular
  | .binary left _ right, regular => by
      simp only [Expr.isRegular, Expr.every, Bool.and_eq_true] at regular
      exact List.forall_mem_append.mpr
        ⟨Expr.isWritable_constants regular.1.2, Expr.isWritable_constants regular.2⟩
  | .identifier _, _ | .member _ _, _ | .index _ _, _ | .call _ _, _ | .unary _ _, _
  | .conditional _ _ _, _ | .function _ _, _ => fun _ member => absurd member List.not_mem_nil

namespace FilterFunction

theorem condition_eq {e found : Expr} (isCondition : condition e = .ok found) : found = e := by
  rw [condition.eq_def] at isCondition
  split at isCondition <;> cases isCondition <;> rfl

theorem condition_eq_error {e : Expr} (notBinary : e.kind ≠ .binary)
    (notLogical : e.kind ≠ .logical) : condition e = .error (.notCondition e.kind) := by
  rw [condition]
  · rintro left c right rfl
    exact notBinary rfl
  · rintro left c right rfl
    exact notLogical rfl

/-- The condition of a function stands in its body. -/
theorem isRegular_returned {b : Body} {found : Expr} (isReturned : returned b = .ok found)
    (regular : b.isRegular = true) : found.isRegular = true := by
  rw [returned.eq_def] at isReturned
  split at isReturned
  · rw [condition_eq isReturned]
    exact regular
  · rw [condition_eq isReturned]
    simpa [Body.every, Statement.everyAll, Statement.every, Statement.isRegularNode] using regular
  · cases isReturned
  · cases isReturned
  · cases isReturned

theorem isRegular_ofFunction {s : Signature} {b : Body} {found : Expr}
    (isFound : ofFunction s b = .ok found) (regular : b.isRegular = true) :
    found.isRegular = true := by
  rw [ofFunction] at isFound
  split at isFound
  · cases isFound
  · split at isFound
    · cases isFound
    · exact isRegular_returned isFound regular

theorem isRegular_ofExpr {e found : Expr} (isFound : ofExpr e = .ok found)
    (regular : e.isRegular = true) : found.isRegular = true := by
  cases e
  case function s b =>
    simp only [Expr.isRegular, Expr.every, Bool.and_eq_true] at regular
    exact isRegular_ofFunction isFound regular.2
  all_goals cases isFound

theorem isRegular_ofProgram {p : Program} {found : Expr} (isFound : ofProgram p = .ok found)
    (regular : p.isRegular = true) : found.isRegular = true := by
  rw [ofProgram.eq_def] at isFound
  split at isFound
  · refine isRegular_ofExpr isFound ?_
    simpa [Program.isRegular, Statement.everyAll, Statement.every, Statement.isRegularNode]
      using regular
  · cases isFound
  · cases isFound

end FilterFunction

/-- **A condition that is compiled from a text binds only values that a text can hold.** -/
theorem isWritable_of_compile {source : String} {supply : NameSupply} {n : Condition}
    (done : (compile source supply).result = .ok n) :
    ∀ v ∈ n.bindings.map Binding.value, v.isWritable = true := by
  rw [compile] at done
  split at done
  · cases done
  · next p read =>
      obtain ⟨e, isFound, lowered⟩ := Compilation.eq_ok_of_finish done
      rw [Lowering.values_of_lower lowered]
      exact Expr.isWritable_constants
        (FilterFunction.isRegular_ofProgram isFound (regular_of_parse (parse_of_parseInside read)))

/-! ## Constants without a literal -/

theorem toInt_neg_of_neg {n : Int64} (negative : n < 0) (other : n ≠ Int64.minValue) :
    (-n).toInt = -n.toInt := by
  have below : n.toInt < 0 := Int64.lt_iff_toInt_lt.mp negative
  have above : n.toInt ≠ -2 ^ 63 := fun same => other (Int64.toInt_inj.mp same)
  have least := n.le_toInt
  rw [Int64.toInt_neg]
  apply Int.bmod_eq_of_le <;> omega

theorem repr_toInt_of_neg {n : Int64} (negative : n < 0) (other : n ≠ Int64.minValue) :
    n.toInt.repr = "-" ++ (-n).toInt.repr := by
  have below : n.toInt < 0 := Int64.lt_iff_toInt_lt.mp negative
  rw [toInt_neg_of_neg negative other]
  obtain ⟨m, same⟩ := Int.eq_negSucc_of_lt_zero below
  rw [same]
  rfl

theorem floatText_of_isNegative {x : Float} (number : x.isNaN = false) (finite : x.isInf = false)
    (negative : Binary64.isNegative x = true) :
    floatText x = "-" ++ floatText (Binary64.ofRank (Binary64.rank x)) := by
  have least := Binary64.rank_lt_infinityRank number finite
  have le := Nat.le_of_lt least
  simp only [floatText, number, finite, Bool.false_eq_true, if_false, Decimal.Layout.finite,
    negative, if_true, Binary64.isNaN_ofRank le, Binary64.isInf_ofRank least,
    Binary64.isNegative_ofRank le, Binary64.rank_ofRank le]

/-- A regular tree that is read back as a name or as an operation on one operand. -/
structure NoLiteral (e : Expr) : Prop where
  regular : e.isRegular = true
  kind : e.reread.kind = .identifier ∨ e.reread.kind = .unary

theorem noLiteral_negate {e : Expr} (regular : e.isRegular = true) :
    NoLiteral (.unary .negate e) where
  regular := by simpa [Expr.every, Expr.isRegularNode] using regular
  kind := .inr rfl

theorem exists_noLiteral_float {x : Float} (missing : ¬(Value.float x).HasLiteral) :
    ∃ e, NoLiteral e ∧ e.text = floatText x := by
  cases number : x.isNaN with
  | true => exact ⟨.identifier "NaN", ⟨by decide, .inl rfl⟩, by rw [floatText, if_pos number]; rfl⟩
  | false =>
      cases negative : Binary64.isNegative x with
      | true =>
          cases infinite : x.isInf with
          | true =>
              refine ⟨.unary .negate (.identifier "inf"), noLiteral_negate (by decide), ?_⟩
              simp only [floatText, number, infinite, negative, Bool.false_eq_true, if_false,
                if_true]
              rfl
          | false =>
              have le := Nat.le_of_lt (Binary64.rank_lt_infinityRank number infinite)
              have magnitude := Value.isWritable_float (Binary64.isNaN_ofRank le)
                (Binary64.isNegative_ofRank le)
              exact ⟨_, noLiteral_negate (e := .literal (.float _)) magnitude,
                (floatText_of_isNegative number infinite negative).symm⟩
      | false =>
          -- Without a sign only an infinite number has no literal, and its text is a name.
          have writable := Value.isWritable_float number negative
          have infinite : (Value.float x).isInfinite = true :=
            Bool.not_eq_false _ ▸ fun finite => missing ⟨writable, finite⟩
          refine ⟨.literal (.float x), ⟨writable, .inl ?_⟩, rfl⟩
          rw [Expr.reread, if_pos infinite]
          rfl

/-- **What is written for a constant without a literal is also the text of another tree.**
This does not hold of the least integer, whose magnitude is no integer. -/
theorem exists_noLiteral {v : Value} (least : v ≠ .integer Int64.minValue)
    (missing : ¬v.HasLiteral) : ∃ e, NoLiteral e ∧ e.text = literalText v := by
  cases v with
  | integer n =>
      have negative : n < 0 := by
        rw [← Int64.not_le]
        exact fun positive => missing ⟨decide_eq_true positive, rfl⟩
      have other : n ≠ Int64.minValue := fun same => least (congrArg Value.integer same)
      refine ⟨.unary .negate (.literal (.integer (-n))), noLiteral_negate ?_,
        (repr_toInt_of_neg negative other).symm⟩
      have below : n.toInt < 0 := Int64.lt_iff_toInt_lt.mp negative
      refine decide_eq_true (Int64.le_iff_toInt_le.mpr ?_)
      rw [toInt_neg_of_neg negative other]
      exact Int.le_of_lt (Int.neg_pos_of_neg below)
  | float x => exact exists_noLiteral_float missing
  | null | boolean _ | text _ => exact absurd ⟨rfl, rfl⟩ missing

/-! ## Both ways of compiling -/

theorem isRegular_arrow {e : Expr} (regular : e.isRegular = true) : (arrow e).isRegular = true :=
  isRegular_function (by decide) rfl regular

theorem result_of_kind {e : Expr} (supply : NameSupply) (notBinary : e.kind ≠ .binary)
    (notLogical : e.kind ≠ .logical) :
    (compileExpr (arrow e) supply).result = .error (.misfit (.notCondition e.kind)) := by
  have noCondition : FilterFunction.ofExpr (arrow e) = .error (.notCondition e.kind) :=
    FilterFunction.condition_eq_error notBinary notLogical
  rw [compileExpr, noCondition]
  rfl

theorem result_of_lowered {e : Expr} {supply : NameSupply} {n : Condition}
    (isCondition : FilterFunction.condition e = .ok e)
    (lowered : (Lowering.lower e supply).1 = .ok n) :
    (compileExpr (arrow e) supply).result = .ok n := by
  have isFound : FilterFunction.ofExpr (arrow e) = .ok e := isCondition
  rw [compileExpr, isFound]
  show (Lowering.lower e supply).1.mapError CompileError.unsupported = .ok n
  rw [lowered]
  rfl

theorem condition_of_isJoining {left right : Expr} {op : BinaryOp} (joining : isJoining op = true) :
    FilterFunction.condition (.binary left op right) = .ok (.binary left op right) := by
  cases op with
  | compute => cases joining
  | compare | connect => rfl

theorem values_of_compileExpr {e : Expr} {supply : NameSupply} {n : Condition}
    (done : (compileExpr (arrow e) supply).result = .ok n) :
    n.bindings.map Binding.value = e.constants := by
  obtain ⟨found, isFound, lowered⟩ := Compilation.eq_ok_of_finish done
  obtain rfl := FilterFunction.condition_eq isFound
  exact Lowering.values_of_lower lowered

/-- A constant without a literal is read as a name or as an operation. -/
theorem exists_read_of_constant {v : Value} (missing : ¬v.HasLiteral) :
    ∃ e, Compilation.parseInside (arrow (constant v)).text = .ok [.expression (arrow e)] ∧
      (e.kind = .identifier ∨ e.kind = .unary) := by
  by_cases least : v = .integer Int64.minValue
  · -- The digits after the sign are too many for an integer and are read as another number.
    subst least
    exact ⟨.unary .negate (.literal (.float (Binary64.ofRank (1086 * Binary64.binade)))),
      eq_ok_of_toOption (by decide +kernel), .inr rfl⟩
  · obtain ⟨e, other, text⟩ := exists_noLiteral least missing
    have same : (arrow (constant v)).text = (arrow e).text :=
      congrArg ((Signature.text ⟨none, [row], true, false, false⟩ ++ " ") ++ ·) text.symm
    rw [same]
    exact ⟨e.reread, parseInside_text (isRegular_arrow other.regular), other.kind⟩

/-- A constant is no condition in any case, but the two ways name different things. -/
theorem result_ne_of_constant {v : Value} (missing : ¬v.HasLiteral) (supply : NameSupply) :
    (compile (arrow (constant v)).text supply).result ≠
      (compileExpr (arrow (constant v)) supply).result := by
  obtain ⟨e, read, kind⟩ := exists_read_of_constant missing
  rw [compile_of_parseInside read]
  show (compileExpr (arrow e) supply).result ≠ _
  rw [result_of_kind supply (e := constant v) nofun nofun]
  rcases kind with kind | kind <;>
    · rw [result_of_kind supply (by rw [kind]; decide) (by rw [kind]; decide), kind]
      nofun

/-- If both ways lead to one condition, all constants have literals. -/
theorem Joined.hasLiteral_of_compile {e : Expr} (joined : Joined e) {supply : NameSupply}
    {n : Condition} (done : (compileExpr (arrow e) supply).result = .ok n)
    (done' : (compile (arrow e).text supply).result = .ok n) :
    ∀ v ∈ e.constants, v.HasLiteral := by
  -- The condition binds the constants of the tree, and it binds what has been read.
  have writable : ∀ v ∈ e.constants, v.isWritable = true :=
    values_of_compileExpr done ▸ isWritable_of_compile done'
  -- So the tree is regular, and what has been read is known but for infinite numbers.
  rw [compile_of_parseInside (parseInside_text (isRegular_arrow (joined.isRegular writable)))]
    at done'
  have kept : e.constants.filter (!·.isInfinite) = e.constants := by
    rw [← joined.constants_reread, ← values_of_compileExpr done]
    exact (values_of_compileExpr (e := e.reread) done').symm
  intro v member
  exact ⟨writable v member, by simpa using List.filter_eq_self.mp kept v member⟩

/-- **A filter that is built is compiled in both ways alike exactly if each of its constants
has a literal.** -/
theorem agrees_iff_hasLiteral {body : Expr} (built : Built body) (supply : NameSupply) :
    Agrees (arrow body) supply ↔ ∀ v ∈ body.constants, v.HasLiteral := by
  have joined := built.joined
  constructor
  · intro agrees
    cases built.joined with
    | field named => exact fun _ member => absurd member List.not_mem_nil
    | constant v =>
        by_contra missing
        refine result_ne_of_constant (fun has => missing ?_) supply agrees.1
        exact fun w member => List.mem_singleton.mp member ▸ has
    | @binary left right op joining first second =>
        obtain ⟨n, next, lowered⟩ := joined.exists_lowered ⟨supply, []⟩
        have done := result_of_lowered (condition_of_isJoining joining) (congrArg Prod.fst lowered)
        exact joined.hasLiteral_of_compile done (agrees.1.trans done)
  · intro has
    have same : (arrow body).reread = arrow body :=
      congrArg arrow (joined.reread_eq fun v member => (has v member).2)
    exact agrees_of_reread (isRegular_arrow (joined.isRegular fun v member => (has v member).1))
      same supply

section Samples

/-- A condition with constants that have literals. -/
def sampleBody : Expr :=
  either (equals (field "a") (constant (.integer 1)))
    (both (equals (field "b") (constant (.integer 2))) (equals (field "c") (constant .null)))

theorem built_equals {name : String} (named : isName name = true) (v : Value) :
    Built (equals (field name) (constant v)) :=
  .combine (by simp [combinators]) (.field named) (.constant v)

theorem built_sampleBody : Built sampleBody :=
  .combine (by simp [combinators]) (built_equals (by decide) _)
    (.combine (by simp [combinators]) (built_equals (by decide) _) (built_equals (by decide) _))

theorem agrees_sampleBody : Built sampleBody ∧
    (∀ v ∈ sampleBody.constants, v.HasLiteral) ∧ Agrees (arrow sampleBody) .fresh := by
  have has : ∀ v ∈ sampleBody.constants, v.HasLiteral := by decide
  exact ⟨built_sampleBody, has, (agrees_iff_hasLiteral built_sampleBody .fresh).mpr has⟩

/-- A negative number is written as an operation, which has no counterpart. -/
theorem not_agrees_negative :
    let body := equals (field "a") (constant (.integer (-5)))
    Built body ∧ (arrow body).text = "(x) => x.a === -5" ∧
      (compile (arrow body).text .fresh).result = .error (.unsupported (.expression .unary)) ∧
      (compileExpr (arrow body) .fresh).result =
        .ok (.comparison (.field (.plain "a")) .equal (.placeholder ⟨"@p0", .integer (-5)⟩)) ∧
      ¬Agrees (arrow body) .fresh := by
  have text : (arrow (equals (field "a") (constant (.integer (-5))))).text =
      "(x) => x.a === -5" := by decide +kernel
  have read : Compilation.parseInside "(x) => x.a === -5" = .ok
      [.expression (arrow (equals (field "a") (.unary .negate (constant (.integer 5)))))] :=
    eq_ok_of_toOption (by decide +kernel)
  have refused : (compile "(x) => x.a === -5" .fresh).result =
      .error (.unsupported (.expression .unary)) := by
    rw [compile_of_parseInside read]
    rfl
  refine ⟨built_equals (by decide) _, text, text ▸ refused, rfl, fun agrees => ?_⟩
  have same := agrees.1
  rw [text, refused] at same
  cases same

end Samples

end RowFilter
