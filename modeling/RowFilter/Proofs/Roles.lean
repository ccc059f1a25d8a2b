import RowFilter.Proofs.Building
import RowFilter.Proofs.Lowering
import RowFilter.Proofs.Preorder

/-!
# Conditions and operands

In a predicate an expression has one of two roles.  What AND and OR join are conditions, and
what a comparison has on its sides are operands, that is columns and constants.  Lowering
knows no roles: it makes a condition of anything that has a counterpart, wherever it stands.
Only the root of a filter is examined for its role.

So a filter that is compiled may join columns or compare comparisons.  Its condition is a
boolean expression of SQL exactly if the roles are kept at every node (`Expr.keepsRoles`),
which is to say that the filter is a predicate (`compile_isBoolean_iff_keepsRoles`).
-/

set_option autoImplicit false

namespace RowFilter

open Script Sql Lowering

/-! ## Roles -/

/-- A column or a placeholder. -/
def Sql.Condition.isOperand : Condition → Bool
  | .field _ | .placeholder _ => true
  | _ => false

/-- AND and OR over comparisons between columns and placeholders. -/
inductive Sql.Condition.IsBoolean : Condition → Prop
  | comparison {left right : Condition} (c : Comparator) : left.isOperand = true →
      right.isOperand = true → IsBoolean (.comparison left c right)
  | combine {left right : Condition} (c : Sql.Connective) : IsBoolean left →
      IsBoolean right → IsBoolean (.compound [left, .connective c, right])

/-- Whether each comparison is between operands and each connective between other
expressions. -/
def Script.Expr.keepsRoles : Expr → Bool
  | .binary left (.compare _) right => left.isOperand && right.isOperand
  | .binary left (.connect _) right =>
      !left.isOperand && !right.isOperand && left.keepsRoles && right.keepsRoles
  | _ => true

/-! ## Predicates -/

theorem Script.Expr.IsPredicate.isOperand {e : Expr} (predicate : e.IsPredicate) :
    e.isOperand = false := by
  cases predicate <;> rfl

theorem Script.Expr.IsPredicate.keepsRoles {e : Expr} (predicate : e.IsPredicate) :
    e.keepsRoles = true := by
  induction predicate with
  | comparison operand operand' => simp [Expr.keepsRoles, operand, operand']
  | both first second ih ih' | either first second ih ih' =>
      simp [Expr.keepsRoles, first.isOperand, second.isOperand, ih, ih']

namespace Lowering

/-- An expression with a counterpart that is no operand and keeps the roles is a predicate. -/
theorem Supported.isPredicate {e : Expr} (supported : Supported e) :
    e.isOperand = false → e.keepsRoles = true → e.IsPredicate := by
  induction supported with
  | literal | member => exact fun root => by cases root
  | comparison _ _ _ _ _ =>
      intro _ keeps
      simp only [Expr.keepsRoles, Bool.and_eq_true] at keeps
      exact .comparison keeps.1 keeps.2
  | both _ _ ih ih' =>
      intro _ keeps
      simp only [Expr.keepsRoles, Bool.and_eq_true, Bool.not_eq_true'] at keeps
      obtain ⟨⟨⟨root, root'⟩, left⟩, right⟩ := keeps
      exact .both (ih root left) (ih' root' right)
  | either _ _ ih ih' =>
      intro _ keeps
      simp only [Expr.keepsRoles, Bool.and_eq_true, Bool.not_eq_true'] at keeps
      obtain ⟨⟨⟨root, root'⟩, left⟩, right⟩ := keeps
      exact .either (ih root left) (ih' root' right)

/-! ## Conditions of predicates -/

theorem Mirrors.isOperand_eq {e : Expr} {n : Condition} (mirrors : Mirrors e n) :
    n.isOperand = e.isOperand := by
  cases mirrors <;> rfl

/-- A condition is boolean if it has the shape of a predicate. -/
theorem Mirrors.isBoolean_iff {e : Expr} {n : Condition} (mirrors : Mirrors e n) :
    n.IsBoolean ↔ e.IsPredicate := by
  induction mirrors with
  | literal | member =>
      constructor
      · rintro ⟨⟩
      · rintro ⟨⟩
  | comparison _ left right _ _ =>
      constructor
      · rintro (⟨_, operand, operand'⟩ | _)
        exact .comparison (left.isOperand_eq ▸ operand) (right.isOperand_eq ▸ operand')
      · rintro (⟨operand, operand'⟩ | _ | _)
        exact .comparison _ (left.isOperand_eq ▸ operand) (right.isOperand_eq ▸ operand')
  | both _ _ ih ih' =>
      constructor
      · intro boolean
        cases boolean with
        | combine c left right => exact .both (ih.mp left) (ih'.mp right)
      · rintro (_ | ⟨left, right⟩ | _)
        exact .combine .and (ih.mpr left) (ih'.mpr right)
  | either _ _ ih ih' =>
      constructor
      · intro boolean
        cases boolean with
        | combine c left right => exact .either (ih.mp left) (ih'.mp right)
      · rintro (_ | _ | ⟨left, right⟩)
        exact .combine .or (ih.mpr left) (ih'.mpr right)

end Lowering

/-! ## The root of a filter -/

namespace FilterFunction

theorem isOperand_of_condition {e found : Expr} (isCondition : condition e = .ok found) :
    found.isOperand = false := by
  rw [condition.eq_def] at isCondition
  split at isCondition <;> cases isCondition <;> rfl

theorem isOperand_of_returned {b : Body} {found : Expr} (isReturned : returned b = .ok found) :
    found.isOperand = false := by
  rw [returned.eq_def] at isReturned
  split at isReturned
  · exact isOperand_of_condition isReturned
  · exact isOperand_of_condition isReturned
  all_goals cases isReturned

theorem isOperand_of_ofExpr {e found : Expr} (isFound : ofExpr e = .ok found) :
    found.isOperand = false := by
  cases e
  case function s b =>
    rw [ofExpr, ofFunction] at isFound
    split at isFound
    · cases isFound
    · split at isFound
      · cases isFound
      · exact isOperand_of_returned isFound
  all_goals cases isFound

theorem isOperand_of_ofProgram {p : Program} {found : Expr} (isFound : ofProgram p = .ok found) :
    found.isOperand = false := by
  rw [ofProgram.eq_def] at isFound
  split at isFound
  · exact isOperand_of_ofExpr isFound
  all_goals cases isFound

end FilterFunction

/-! ## What is compiled -/

/-- What is known of the body of a filter that is compiled and of its condition. -/
structure Compiled (e : Expr) (n : Condition) : Prop where
  supported : Supported e
  root : e.isOperand = false
  predicate : e.IsPredicate ↔ e.keepsRoles = true
  boolean : n.IsBoolean ↔ e.keepsRoles = true
  /-- The text of a boolean expression can be read as SQL. -/
  readable : n.IsBoolean → (∀ b ∈ n.bindings, IsWord b.name) → ∀ v, (truth v n.text).isSome

theorem compiled_of_finish {found : Except FilterFunction.Misfit Expr} {supply : NameSupply}
    {program : Option Program} {n : Condition}
    (done : (Compilation.finish found supply program).result = .ok n)
    (root : ∀ e, found = .ok e → e.isOperand = false) : ∃ e, found = .ok e ∧ Compiled e n := by
  obtain ⟨e, isFound, lowered⟩ := Compilation.eq_ok_of_finish done
  rcases lower_cases e supply with ⟨part, _, failed⟩ | ⟨clear, n', lowered', mirrors, _⟩
  · rw [failed] at lowered
    cases lowered
  · rw [lowered'] at lowered
    cases lowered
    have supported := supported_of_clear e clear
    have predicate : e.IsPredicate ↔ e.keepsRoles = true :=
      ⟨fun predicate => predicate.keepsRoles, supported.isPredicate (root e isFound)⟩
    refine ⟨e, isFound, supported, root e isFound, predicate,
      mirrors.isBoolean_iff.trans predicate, fun boolean named v => ?_⟩
    obtain ⟨m, next, groups, done, arranged, _⟩ :=
      exists_arranged (mirrors.isBoolean_iff.mp boolean) ⟨supply, []⟩
    obtain rfl : n = m := by
      have same := lowered'.symm.trans done
      cases same
      rfl
    rw [truth_text named arranged.readable arranged.spelled]
    rfl

/-- **What is compiled is a boolean expression of SQL exactly if the roles are kept.**  The
root of a filter is examined, so that it is no operand.  Inside, whatever has a counterpart
is compiled, and it makes a predicate and a boolean expression just if each comparison is
between operands and each connective between other expressions. -/
theorem compile_isBoolean_iff_keepsRoles (supply : NameSupply) (n : Condition) :
    (∀ source, (compile source supply).result = .ok n →
      ∃ program e, Compilation.parseInside source = .ok program ∧
        FilterFunction.ofProgram program = .ok e ∧ Compiled e n) ∧
    (∀ f, (compileExpr f supply).result = .ok n →
      ∃ e, FilterFunction.ofExpr f = .ok e ∧ Compiled e n) := by
  constructor
  · intro source done
    rw [compile] at done
    split at done
    · cases done
    · next program read =>
        obtain ⟨e, isFound, compiled⟩ :=
          compiled_of_finish done fun e => FilterFunction.isOperand_of_ofProgram
        exact ⟨program, e, read, isFound, compiled⟩
  · intro f done
    exact compiled_of_finish done fun e => FilterFunction.isOperand_of_ofExpr

section Samples

open Builder

/-- A filter that keeps the roles. -/
theorem compile_isBoolean_of_comparisons :
    ∃ n, (compile "x => x.a === 1 && x.b < 2" .fresh).result = .ok n ∧ n.IsBoolean ∧
      ∀ v, (truth v n.text).isSome := by
  let body := both (equals (field "a") (constant (.integer 1)))
    (less (field "b") (constant (.integer 2)))
  have read : Compilation.parseInside "x => x.a === 1 && x.b < 2" =
      .ok [.expression (arrow body)] := eq_ok_of_toOption (by decide +kernel)
  let n : Condition := .combine
    (.comparison (.field (.plain "a")) .equal (.placeholder ⟨"@p0", .integer 1⟩)) .and
    (.comparison (.field (.plain "b")) .less (.placeholder ⟨"@p1", .integer 2⟩))
  have done : (compile "x => x.a === 1 && x.b < 2" .fresh).result = .ok n := by
    rw [compile, read]
    rfl
  obtain ⟨program, e, read', isFound, compiled⟩ :=
    (compile_isBoolean_iff_keepsRoles .fresh n).1 _ done
  cases read.symm.trans read'
  cases isFound
  have boolean : n.IsBoolean := compiled.boolean.mpr rfl
  exact ⟨n, done, boolean, compiled.readable boolean (by decide)⟩

/-- Columns are joined, and comparisons are compared. -/
theorem compile_breaks_roles :
    (∃ program body n, Compilation.parseInside "x => x.a && x.b" = .ok program ∧
      FilterFunction.ofProgram program = .ok body ∧ ¬body.IsPredicate ∧
      (compile "x => x.a && x.b" .fresh).result = .ok n ∧ n.text = "[a] AND [b]" ∧
      ¬n.IsBoolean ∧ ∀ v, truth v n.text = none) ∧
    ∃ n, (compile "x => (x.a == 1) == (x.b == 2)" .fresh).result = .ok n ∧
      n.text = "[a] = @p0 = [b] = @p1" ∧ ¬n.IsBoolean ∧ ∀ v, truth v n.text = none := by
  have unread {text : String} (refused : (tokens text.toList).bind alternatives = none)
      (v : Nat → Bool) : truth v text = none := by
    have whole : truth v text = ((tokens text.toList).bind alternatives).bind
        fun read => some (anyAll v (numbered 0 read)) := (Option.bind_assoc _ _ _).symm
    rw [whole, refused]
    rfl
  have read : Compilation.parseInside "x => x.a && x.b" =
      .ok [.expression (arrow (both (field "a") (field "b")))] :=
    eq_ok_of_toOption (by decide +kernel)
  have read' : Compilation.parseInside "x => (x.a == 1) == (x.b == 2)" =
      .ok [.expression (arrow
        (.binary (.binary (field "a") (.compare .equal) (constant (.integer 1))) (.compare .equal)
          (.binary (field "b") (.compare .equal) (constant (.integer 2)))))] :=
    eq_ok_of_toOption (by decide +kernel)
  refine ⟨⟨_, both (field "a") (field "b"), .combine (.field (.plain "a")) .and
    (.field (.plain "b")), read, rfl, ?_, ?_, ?_, ?_, unread (by decide +kernel)⟩,
    .comparison
      (.comparison (.field (.plain "a")) .equal (.placeholder ⟨"@p0", .integer 1⟩)) .equal
      (.comparison (.field (.plain "b")) .equal (.placeholder ⟨"@p1", .integer 2⟩)),
    ?_, ?_, ?_, unread (by decide +kernel)⟩
  · rintro (_ | ⟨column, _⟩ | _)
    cases column
  · rw [compile, read]
    rfl
  · decide +kernel
  · rintro (_ | ⟨_, column, _⟩)
    cases column
  · rw [compile, read']
    rfl
  · decide +kernel
  · rintro (⟨_, column, _⟩ | _)
    cases column

end Samples

end RowFilter
