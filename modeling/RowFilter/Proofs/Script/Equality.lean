import RowFilter.Script.Tree

/-!
# Equality of trees

Equality of trees can be decided, so that what the reader makes of a given text can be
evaluated and compared with the tree that is expected.
-/

set_option autoImplicit false

namespace RowFilter.Script

mutual
/-- Equality of expressions, constructor by constructor. -/
def Expr.decEq : (e f : Expr) → Decidable (e = f)
  | .identifier m, f => by
      cases f
      case identifier n => exact decidable_of_iff (m = n) (by simp)
      all_goals exact .isFalse nofun
  | .literal v, f => by
      cases f
      case literal w => exact decidable_of_iff (v = w) (by simp)
      all_goals exact .isFalse nofun
  | .member e m, f => by
      cases f
      case member f n =>
        have := Expr.decEq e f
        exact decidable_of_iff (e = f ∧ m = n) (by simp)
      all_goals exact .isFalse nofun
  | .index e k, f => by
      cases f
      case index f l =>
        have := Expr.decEq e f
        have := Expr.decEq k l
        exact decidable_of_iff (e = f ∧ k = l) (by simp)
      all_goals exact .isFalse nofun
  | .call e as, f => by
      cases f
      case call f bs =>
        have := Expr.decEq e f
        have := Expr.decEqAll as bs
        exact decidable_of_iff (e = f ∧ as = bs) (by simp)
      all_goals exact .isFalse nofun
  | .unary op e, f => by
      cases f
      case unary op' f =>
        have := Expr.decEq e f
        exact decidable_of_iff (op = op' ∧ e = f) (by simp)
      all_goals exact .isFalse nofun
  | .binary a op b, f => by
      cases f
      case binary c op' d =>
        have := Expr.decEq a c
        have := Expr.decEq b d
        exact decidable_of_iff (a = c ∧ op = op' ∧ b = d) (by simp)
      all_goals exact .isFalse nofun
  | .conditional a b c, f => by
      cases f
      case conditional a' b' c' =>
        have := Expr.decEq a a'
        have := Expr.decEq b b'
        have := Expr.decEq c c'
        exact decidable_of_iff (a = a' ∧ b = b' ∧ c = c') (by simp)
      all_goals exact .isFalse nofun
  | .function s b, f => by
      cases f
      case function t c =>
        have := Body.decEq b c
        exact decidable_of_iff (s = t ∧ b = c) (by simp)
      all_goals exact .isFalse nofun

/-- Equality of lists of expressions. -/
def Expr.decEqAll : (es fs : List Expr) → Decidable (es = fs)
  | [], [] => .isTrue rfl
  | [], _ :: _ => .isFalse nofun
  | _ :: _, [] => .isFalse nofun
  | e :: es, f :: fs =>
      have := Expr.decEq e f
      have := Expr.decEqAll es fs
      decidable_of_iff (e = f ∧ es = fs) (by simp)

/-- Equality of bodies. -/
def Body.decEq : (b c : Body) → Decidable (b = c)
  | .block ss, .block ts =>
      have := Statement.decEqAll ss ts
      decidable_of_iff (ss = ts) (by simp)
  | .expression e, .expression f =>
      have := Expr.decEq e f
      decidable_of_iff (e = f) (by simp)
  | .block _, .expression _ => .isFalse nofun
  | .expression _, .block _ => .isFalse nofun

/-- Equality of statements. -/
def Statement.decEq : (s t : Statement) → Decidable (s = t)
  | .expression e, t => by
      cases t
      case expression f =>
        have := Expr.decEq e f
        exact decidable_of_iff (e = f) (by simp)
      all_goals exact .isFalse nofun
  | .result e, t => by
      cases t
      case result f =>
        have := Expr.decEqOption e f
        exact decidable_of_iff (e = f) (by simp)
      all_goals exact .isFalse nofun
  | .declaration k n e, t => by
      cases t
      case declaration l m f =>
        have := Expr.decEqOption e f
        exact decidable_of_iff (k = l ∧ n = m ∧ e = f) (by simp)
      all_goals exact .isFalse nofun
  | .block ss, t => by
      cases t
      case block ts =>
        have := Statement.decEqAll ss ts
        exact decidable_of_iff (ss = ts) (by simp)
      all_goals exact .isFalse nofun
  | .empty, t => by
      cases t
      case empty => exact .isTrue rfl
      all_goals exact .isFalse nofun

/-- Equality of expressions that may be absent. -/
def Expr.decEqOption : (e f : Option Expr) → Decidable (e = f)
  | none, none => .isTrue rfl
  | none, some _ => .isFalse nofun
  | some _, none => .isFalse nofun
  | some e, some f =>
      have := Expr.decEq e f
      decidable_of_iff (e = f) (by simp)

/-- Equality of sequences of statements. -/
def Statement.decEqAll : (ss ts : List Statement) → Decidable (ss = ts)
  | [], [] => .isTrue rfl
  | [], _ :: _ => .isFalse nofun
  | _ :: _, [] => .isFalse nofun
  | s :: ss, t :: ts =>
      have := Statement.decEq s t
      have := Statement.decEqAll ss ts
      decidable_of_iff (s = t ∧ ss = ts) (by simp)
end

instance : DecidableEq Expr := Expr.decEq
instance : DecidableEq Statement := Statement.decEq

/-- A result that has been evaluated. -/
theorem eq_ok_of_toOption {ε α : Type} {result : Except ε α} {a : α}
    (evaluated : result.toOption = some a) : result = .ok a := by
  cases result with
  | error _ => cases evaluated
  | ok _ => cases evaluated; rfl

end RowFilter.Script
