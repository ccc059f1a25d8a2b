import RowFilter.Compilation
import RowFilter.Proofs.Placeholder

/-!
# What a compilation binds

Lowering an expression binds values to the names of a supply as it goes, and it keeps these
bindings when it fails.  `Binds` says which bindings a walk has made: they have been added
to the ledger in order, under names that the supply has handed out.

A walk that succeeds has bound exactly the constants of the expression, from left to right,
and the bindings of its condition are those it has made (`walks_condition`).  A compilation
adds nothing to that (`accounts_compile`, `accounts_compileExpr`).
-/

set_option autoImplicit false

namespace RowFilter

open Script Sql

/-- The literals of an expression from left to right, leaving aside those inside the object
of a member. -/
def Script.Expr.constants : Expr → List Value
  | .literal v => [v]
  | .binary left _ right => left.constants ++ right.constants
  | _ => []

namespace Lowering

/-! ## Running binders -/

theorem run_bind_of_ok {α β : Type} {m : Binder α} {f : α → Binder β} {ledger next : Ledger}
    {a : α} (done : m.run ledger = (.ok a, next)) :
    (m >>= f).run ledger = (f a).run next := by
  rw [ExceptT.run_bind]
  simp only [bind, StateT.bind, done]

theorem run_bind_of_error {α β : Type} {m : Binder α} {f : α → Binder β} {ledger next : Ledger}
    {part : Unsupported} (failed : m.run ledger = (.error part, next)) :
    (m >>= f).run ledger = (.error part, next) := by
  rw [ExceptT.run_bind]
  simp only [bind, StateT.bind, failed]
  rfl

theorem run_pure {α : Type} (a : α) (ledger : Ledger) :
    (pure a : Binder α).run ledger = (.ok a, ledger) := rfl

theorem run_placeholder (value : Value) (ledger : Ledger) :
    (placeholder value).run ledger =
      (.ok (.placeholder (ledger.bind value).1), (ledger.bind value).2) := rfl

/-- Two lowered operands and what is made of them. -/
theorem run_both {left right : Expr} {l r : Condition} {ledger next last : Ledger}
    (first : (condition left).run ledger = (.ok l, next))
    (second : (condition right).run next = (.ok r, last))
    (make : Condition → Condition → Condition) :
    (do let l ← condition left
        let r ← condition right
        return make l r : Binder Condition).run ledger = (.ok (make l r), last) := by
  rw [run_bind_of_ok first, run_bind_of_ok second, run_pure]

/-! ## Bindings in a ledger -/

/-- The second ledger is the first one with the given bindings, under names that its supply
has handed out. -/
structure Binds (ledger : Ledger) (made : List Binding) (next : Ledger) : Prop where
  bound : next.bound = ledger.bound ++ made
  handsOut : ledger.supply.HandsOut (made.map Binding.name) next.supply

theorem Binds.none (ledger : Ledger) : Binds ledger [] ledger :=
  ⟨(List.append_nil _).symm, .none _⟩

theorem Binds.one (value : Value) (ledger : Ledger) :
    Binds ledger [(ledger.bind value).1] (ledger.bind value).2 :=
  ⟨rfl, .one ledger.supply ledger.supply.lead⟩

theorem Binds.trans {ledger middle next : Ledger} {made more : List Binding}
    (first : Binds ledger made middle) (second : Binds middle more next) :
    Binds ledger (made ++ more) next where
  bound := by rw [second.bound, first.bound, List.append_assoc]
  handsOut := List.map_append ▸ first.handsOut.append second.handsOut

/-! ## Walks -/

theorem bindings_combine (l : Condition) (c : Sql.Connective) (r : Condition) :
    (Condition.combine l c r).bindings = l.bindings ++ r.bindings := by
  simp [Condition.combine, Condition.bindings, Condition.bindingsOf]

/-- A condition with the bindings that have been made, which bind the given values. -/
structure Carries (made : List Binding) (values : List Value) (n : Condition) : Prop where
  bindings : n.bindings = made
  values : made.map Binding.value = values

/-- A walk that makes bindings, even if it fails.  If it succeeds, they are those of its
condition and bind the given values. -/
def Walks (walk : Binder Condition) (values : List Value) : Prop :=
  ∀ ledger, ∃ made, Binds ledger made (walk.run ledger).2 ∧
    ∀ n, (walk.run ledger).1 = .ok n → Carries made values n

theorem walks_throw (part : Unsupported) (values : List Value) : Walks (throw part) values :=
  fun ledger => ⟨[], .none ledger, fun _ done => by cases done⟩

theorem walks_field (f : Field) : Walks (pure (.field f)) [] := by
  refine fun ledger => ⟨[], .none ledger, fun n done => ?_⟩
  cases done
  exact ⟨rfl, rfl⟩

theorem walks_placeholder (value : Value) : Walks (placeholder value) [value] := by
  refine fun ledger => ⟨_, .one value ledger, fun n done => ?_⟩
  cases done
  exact ⟨rfl, rfl⟩

/-- Two walks in turn, and a condition made of what they give. -/
theorem Walks.both {left right : Binder Condition} {values values' : List Value}
    (first : Walks left values) (second : Walks right values')
    (make : Condition → Condition → Condition)
    (bindings : ∀ l r, (make l r).bindings = l.bindings ++ r.bindings) :
    Walks (do let l ← left; let r ← right; return make l r) (values ++ values') := by
  intro ledger
  obtain ⟨made, binds, carries⟩ := first ledger
  rcases walked : left.run ledger with ⟨_ | l, middle⟩
  · rw [run_bind_of_error walked]
    rw [walked] at binds
    exact ⟨made, binds, fun n done => by cases done⟩
  · obtain ⟨more, binds', carries'⟩ := second middle
    rw [run_bind_of_ok walked]
    rw [walked] at binds carries
    rcases walked' : right.run middle with ⟨_ | r, next⟩
    · rw [run_bind_of_error walked']
      rw [walked'] at binds'
      exact ⟨made ++ more, binds.trans binds', fun n done => by cases done⟩
    · rw [run_bind_of_ok walked', run_pure]
      rw [walked'] at binds' carries'
      have left := carries l rfl
      have right := carries' r rfl
      refine ⟨made ++ more, binds.trans binds', fun n done => ?_⟩
      cases done
      exact ⟨by rw [bindings, left.bindings, right.bindings],
        by rw [List.map_append, left.values, right.values]⟩

/-- **Lowering an expression binds its constants, as far as it gets.** -/
theorem walks_condition : ∀ e : Expr, Walks (condition e) e.constants
  | .literal v => walks_placeholder v
  | .member _ name => walks_field (.plain name)
  | .binary left (.compare c) right =>
      (walks_condition left).both (walks_condition right)
        (fun l r => .comparison l (comparator c) r) fun _ _ => rfl
  | .binary left (.connect .and) right =>
      (walks_condition left).both (walks_condition right)
        (fun l r => .combine l .and r) fun l r => bindings_combine l .and r
  | .binary left (.connect .or) right =>
      (walks_condition left).both (walks_condition right)
        (fun l r => .combine l .or r) fun l r => bindings_combine l .or r
  | .binary _ (.compute _) _ | .binary _ (.connect .coalesce) _ => walks_throw _ _
  | .index _ _ | .identifier _ | .call _ _ | .unary _ _ | .conditional _ _ _
  | .function _ _ => walks_throw _ _

/-- The condition of an expression binds its constants. -/
theorem values_of_lower {e : Expr} {supply : NameSupply} {n : Condition}
    (lowered : (lower e supply).1 = .ok n) : n.bindings.map Binding.value = e.constants := by
  obtain ⟨made, _, carries⟩ := walks_condition e ⟨supply, []⟩
  have carried := carries n lowered
  rw [carried.bindings, carried.values]

end Lowering

/-! ## Compilations -/

/-- What a compilation has bound, and which supply it leaves. -/
structure Compilation.Accounts (c : Compilation) (supply : NameSupply) : Prop where
  handsOut : supply.HandsOut (c.bound.map Binding.name) c.supply
  bindings : ∀ n, c.result = .ok n → n.bindings = c.bound

namespace Compilation

variable {supply : NameSupply} {program : Option Program}

/-- A compilation succeeds where a condition has been found and lowered. -/
theorem eq_ok_of_finish {found : Except FilterFunction.Misfit Expr} {n : Condition}
    (done : (finish found supply program).result = .ok n) :
    ∃ e, found = .ok e ∧ (Lowering.lower e supply).1 = .ok n := by
  cases found with
  | error misfit => cases done
  | ok e =>
      change (Lowering.lower e supply).1.mapError CompileError.unsupported = .ok n at done
      refine ⟨e, rfl, ?_⟩
      cases lowered : (Lowering.lower e supply).1 with
      | error part =>
          rw [lowered] at done
          cases done
      | ok n' =>
          rw [lowered] at done
          cases done
          rfl

theorem accounts_failed (error : CompileError) :
    (failed error supply program).Accounts supply :=
  ⟨.none supply, fun _ done => by cases done⟩

theorem accounts_finish (found : Except FilterFunction.Misfit Expr) :
    (finish found supply program).Accounts supply := by
  cases found with
  | error misfit => exact accounts_failed (.misfit misfit)
  | ok e =>
      obtain ⟨made, binds, carries⟩ := Lowering.walks_condition e ⟨supply, []⟩
      have bound : (Lowering.lower e supply).2.bound = made := binds.bound
      refine ⟨?_, fun n done => ?_⟩
      · show supply.HandsOut ((Lowering.lower e supply).2.bound.map Binding.name) _
        rw [bound]
        exact binds.handsOut
      · obtain ⟨_, same, lowered⟩ := eq_ok_of_finish done
        cases same
        exact (carries n lowered).bindings.trans bound.symm

end Compilation

/-- **A compilation takes its names from the supply, and the bindings of its condition are
those it has made.** -/
theorem accounts_compile (source : String) (supply : NameSupply) :
    (compile source supply).Accounts supply := by
  rw [compile]
  split
  · exact Compilation.accounts_failed _
  · exact Compilation.accounts_finish _

theorem accounts_compileExpr (e : Expr) (supply : NameSupply) :
    (compileExpr e supply).Accounts supply :=
  Compilation.accounts_finish _

end RowFilter
