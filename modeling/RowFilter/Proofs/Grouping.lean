import RowFilter.Compilation
import RowFilter.Proofs.Sql.Reading

/-!
# Grouping

A filter groups its comparisons by the parentheses in its text.  The condition it is
compiled to has no parentheses, so a reader of SQL groups the same comparisons by the
precedence of AND over OR.  Both readings number the comparisons alike, from left to
right, and can be compared under truth values for them.

What the SQL text means is computed from the filter itself (`Expr.alternatives`): OR
puts the alternatives of two conditions side by side, and AND joins the last
alternative of the left condition with the first of the right one.  The two readings
agree under all truth values exactly when no AND of the filter has an OR for an operand
(`anyAll_alternatives_iff`).  Where one has, some alternative of the SQL text lies
within one operand of an AND; if just its comparisons are true, the SQL condition is,
and the filter is not.
-/

set_option autoImplicit false

namespace RowFilter.Script

open Sql (anyAll fuse numbered)

/-! ## Predicates -/

/-- A named member or a literal. -/
def Expr.isOperand : Expr → Bool
  | .member _ _ | .literal _ => true
  | _ => false

/-- A tree of AND and OR over comparisons between operands. -/
inductive Expr.IsPredicate : Expr → Prop where
  | comparison {left : Expr} {c : Comparison} {right : Expr} :
      left.isOperand = true → right.isOperand = true → IsPredicate (.binary left (.compare c) right)
  | both {left right : Expr} :
      IsPredicate left → IsPredicate right → IsPredicate (.binary left (.connect .and) right)
  | either {left right : Expr} :
      IsPredicate left → IsPredicate right → IsPredicate (.binary left (.connect .or) right)

/-- How many comparisons a predicate has. -/
def Expr.comparisons : Expr → Nat
  | .binary left (.connect _) right => left.comparisons + right.comparisons
  | _ => 1

/-- The truth of a predicate under the grouping of the filter, where `v n` is the truth
of its first comparison, `v (n + 1)` that of the second, and so on. -/
def Expr.holds (v : Nat → Bool) : Nat → Expr → Bool
  | n, .binary left (.connect .and) right =>
      left.holds v n && right.holds v (n + left.comparisons)
  | n, .binary left (.connect .or) right =>
      left.holds v n || right.holds v (n + left.comparisons)
  | n, _ => v n

/-- An OR. -/
def Expr.isEither : Expr → Bool
  | .binary _ (.connect .or) _ => true
  | _ => false

/-- No AND has an OR for an operand. -/
def Expr.keepsGrouping : Expr → Bool
  | .binary left (.connect .and) right =>
      !left.isEither && !right.isEither && left.keepsGrouping && right.keepsGrouping
  | .binary left (.connect .or) right => left.keepsGrouping && right.keepsGrouping
  | _ => true

/-! ## The alternatives of the text -/

/-- The alternatives of the text of a predicate, its comparisons numbered from `n`. -/
def Expr.alternatives : Nat → Expr → List (List Nat)
  | n, .binary left (.connect .and) right =>
      fuse (left.alternatives n) (right.alternatives (n + left.comparisons))
  | n, .binary left (.connect .or) right =>
      left.alternatives n ++ right.alternatives (n + left.comparisons)
  | n, _ => [[n]]

theorem Expr.alternatives_ne_nil {e : Expr} (predicate : e.IsPredicate) :
    ∀ n, e.alternatives n ≠ [] := by
  induction predicate with
  | comparison _ _ => exact fun n => List.cons_ne_nil _ _
  | both _ _ ihLeft ihRight => exact fun n => Sql.fuse_ne_nil (ihLeft n)
  | either _ _ ihLeft ihRight => exact fun n => by simp [alternatives, ihLeft n]

theorem Expr.length_alternatives_pos {e : Expr} (predicate : e.IsPredicate) (n : Nat) :
    0 < (e.alternatives n).length :=
  List.length_pos_iff.mpr (alternatives_ne_nil predicate n)

/-- Every alternative has comparisons, and their numbers are those of the predicate. -/
theorem Expr.mem_alternatives {e : Expr} (predicate : e.IsPredicate) :
    ∀ {n group}, group ∈ e.alternatives n →
      group ≠ [] ∧ ∀ i ∈ group, n ≤ i ∧ i < n + e.comparisons := by
  induction predicate with
  | comparison _ _ =>
      intro n group member
      obtain rfl := List.mem_singleton.mp member
      simp [comparisons]
  | both _ _ ihLeft ihRight =>
      intro n group member
      simp only [comparisons]
      rcases Sql.mem_fuse member with here | there | ⟨last, among, first, among', rfl⟩
      · obtain ⟨nonempty, range⟩ := ihLeft here
        exact ⟨nonempty, fun i among => ⟨(range i among).1, by have := (range i among).2; omega⟩⟩
      · obtain ⟨nonempty, range⟩ := ihRight there
        exact ⟨nonempty, fun i among => by have := range i among; omega⟩
      · obtain ⟨nonempty, range⟩ := ihLeft among
        refine ⟨by simp [nonempty], fun i here => ?_⟩
        rcases List.mem_append.mp here with left | right
        · have := range i left
          omega
        · have := (ihRight among').2 i right
          omega
  | either _ _ ihLeft ihRight =>
      intro n group member
      simp only [comparisons]
      rcases List.mem_append.mp member with here | there
      · obtain ⟨nonempty, range⟩ := ihLeft here
        exact ⟨nonempty, fun i among => by have := range i among; omega⟩
      · obtain ⟨nonempty, range⟩ := ihRight there
        exact ⟨nonempty, fun i among => by have := range i among; omega⟩

/-! ## Truth depends on the comparisons alone -/

/-- Truth values that agree on the `k` numbers from `n` on. -/
def Agree (n k : Nat) (v w : Nat → Bool) : Prop := ∀ i, n ≤ i → i < n + k → v i = w i

theorem Agree.holds_eq {e : Expr} (predicate : e.IsPredicate) {v w : Nat → Bool} :
    ∀ {n}, Agree n e.comparisons v w → e.holds v n = e.holds w n := by
  induction predicate with
  | comparison _ _ =>
      intro n agree
      exact agree n (Nat.le_refl n) (by simp [Expr.comparisons])
  | both _ _ ihLeft ihRight =>
      intro n agree
      simp only [Expr.comparisons] at agree
      rw [Expr.holds, Expr.holds, ihLeft fun i low high => agree i low (by omega),
        ihRight fun i low high => agree i (by omega) (by omega)]
  | either _ _ ihLeft ihRight =>
      intro n agree
      simp only [Expr.comparisons] at agree
      rw [Expr.holds, Expr.holds, ihLeft fun i low high => agree i low (by omega),
        ihRight fun i low high => agree i (by omega) (by omega)]

theorem Agree.anyAll_eq {e : Expr} (predicate : e.IsPredicate) {v w : Nat → Bool} {n : Nat}
    (agree : Agree n e.comparisons v w) :
    anyAll v (e.alternatives n) = anyAll w (e.alternatives n) := by
  have same : ∀ group ∈ e.alternatives n, group.all v = group.all w := by
    intro group member
    rw [Bool.eq_iff_iff, List.all_eq_true, List.all_eq_true]
    apply forall₂_congr
    intro i among
    obtain ⟨low, high⟩ := (Expr.mem_alternatives predicate member).2 i among
    rw [agree i low high]
  rw [anyAll, anyAll, Bool.eq_iff_iff, List.any_eq_true, List.any_eq_true]
  refine exists_congr fun group => and_congr_right fun member => ?_
  rw [same group member]

/-- A predicate is false if all its comparisons are. -/
theorem Expr.holds_of_all_false {e : Expr} (predicate : e.IsPredicate) {v : Nat → Bool} :
    ∀ {n}, Agree n e.comparisons v (fun _ => false) → e.holds v n = false := by
  intro n agree
  rw [agree.holds_eq predicate]
  clear agree
  induction predicate generalizing n with
  | comparison _ _ => rfl
  | both _ _ ihLeft ihRight => rw [holds, ihLeft, Bool.false_and]
  | either _ _ ihLeft ihRight => rw [holds, ihLeft, ihRight, Bool.or_false]

theorem Expr.anyAll_of_all_false {e : Expr} (predicate : e.IsPredicate) {v : Nat → Bool}
    {n : Nat} (agree : Agree n e.comparisons v (fun _ => false)) :
    anyAll v (e.alternatives n) = false := by
  rw [agree.anyAll_eq predicate, anyAll, List.any_eq_false]
  intro group member
  obtain ⟨i, among⟩ := List.exists_mem_of_ne_nil _ (mem_alternatives predicate member).1
  simp only [List.all_eq_true, Bool.false_eq_true, imp_false]
  exact fun none => none i among

/-! ## Where the readings agree -/

/-- A predicate without an OR has one alternative, and no other predicate has. -/
theorem Expr.length_alternatives_eq_one_iff {e : Expr} (predicate : e.IsPredicate) :
    ∀ n, (e.alternatives n).length = 1 ↔ (e.keepsGrouping = true ∧ e.isEither = false) := by
  induction predicate with
  | comparison _ _ => simp [alternatives, keepsGrouping, isEither]
  | @both left right predicate predicate' ihLeft ihRight =>
      intro n
      have length := Sql.length_fuse (alternatives_ne_nil predicate n)
        (alternatives_ne_nil predicate' (n + left.comparisons))
      have positive := length_alternatives_pos predicate n
      have positive' := length_alternatives_pos predicate' (n + left.comparisons)
      have one := ihLeft n
      have one' := ihRight (n + left.comparisons)
      rw [alternatives, show ∀ a b : Nat, a = 1 ↔ a + 1 = 2 from fun a _ => by omega, length]
      · simp only [keepsGrouping, isEither, Bool.and_eq_true, Bool.not_eq_true', and_true]
        constructor
        · intro two
          have first := one.mp (by omega)
          have second := one'.mp (by omega)
          exact ⟨⟨⟨first.2, second.2⟩, first.1⟩, second.1⟩
        · rintro ⟨⟨⟨notEither, notEither'⟩, keeps⟩, keeps'⟩
          have first := one.mpr ⟨keeps, notEither⟩
          have second := one'.mpr ⟨keeps', notEither'⟩
          omega
      · exact 0
  | @either left right predicate predicate' ihLeft ihRight =>
      intro n
      have positive := length_alternatives_pos predicate n
      have positive' := length_alternatives_pos predicate' (n + left.comparisons)
      simp only [alternatives, List.length_append, isEither, Bool.true_eq_false, and_false,
        iff_false]
      omega

/-- Where no AND has an OR for an operand, the two readings agree. -/
theorem Expr.anyAll_alternatives_of_keepsGrouping {e : Expr} (predicate : e.IsPredicate)
    (v : Nat → Bool) : ∀ n, e.keepsGrouping = true → anyAll v (e.alternatives n) = e.holds v n := by
  induction predicate with
  | comparison _ _ => simp [alternatives, anyAll, holds]
  | @both left right predicate predicate' ihLeft ihRight =>
      intro n keeps
      simp only [keepsGrouping, Bool.and_eq_true, Bool.not_eq_true'] at keeps
      obtain ⟨⟨⟨notEither, notEither'⟩, keeps⟩, keeps'⟩ := keeps
      obtain ⟨group, only⟩ := List.length_eq_one_iff.mp
        ((length_alternatives_eq_one_iff predicate n).mpr ⟨keeps, notEither⟩)
      obtain ⟨group', only'⟩ := List.length_eq_one_iff.mp
        ((length_alternatives_eq_one_iff predicate' (n + left.comparisons)).mpr
          ⟨keeps', notEither'⟩)
      have agrees := ihLeft n keeps
      have agrees' := ihRight (n + left.comparisons) keeps'
      rw [only] at agrees
      rw [only'] at agrees'
      rw [alternatives, only, only', holds, ← agrees, ← agrees']
      simp [anyAll, fuse, List.all_append]
  | @either left right _ _ ihLeft ihRight =>
      intro n keeps
      simp only [keepsGrouping, Bool.and_eq_true] at keeps
      rw [alternatives, holds, ← ihLeft n keeps.1, ← ihRight (n + left.comparisons) keeps.2]
      simp [anyAll, List.any_append]

/-! ## Where the readings differ -/

/-- The truth values under which just the comparisons of one group are true. -/
def only (group : List Nat) (i : Nat) : Bool := decide (i ∈ group)

theorem anyAll_only {group : List Nat} {groups : List (List Nat)} (member : group ∈ groups) :
    anyAll (only group) groups = true :=
  List.any_eq_true.mpr ⟨group, member, List.all_eq_true.mpr fun i among => by simp [only, among]⟩

theorem agree_only {group : List Nat} {n k : Nat} (apart : ∀ i ∈ group, i < n ∨ n + k ≤ i) :
    Agree n k (only group) (fun _ => false) := by
  intro i low high
  have absent : i ∉ group := fun among => by have := apart i among; omega
  simp [only, absent]

theorem exists_cons_cons_of_two_le {α : Type} {l : List α} (several : 2 ≤ l.length) :
    ∃ first second rest, l = first :: second :: rest := by
  match l, several with
  | first :: second :: rest, _ => exact ⟨first, second, rest, rfl⟩

/-- An AND of which an operand has two alternatives is misread: the left operand has an
alternative that AND does not join with another, or the right one has. -/
theorem Expr.exists_differ_of_both {left right : Expr} (predicate : left.IsPredicate)
    (predicate' : right.IsPredicate) {n : Nat}
    (several : 2 ≤ (left.alternatives n).length ∨
      2 ≤ (right.alternatives (n + left.comparisons)).length) :
    ∃ v, anyAll v (alternatives n (.binary left (.connect .and) right)) ≠
      holds v n (.binary left (.connect .and) right) := by
  rcases several with several | several
  · obtain ⟨group, next, groups, same⟩ := exists_cons_cons_of_two_le several
    have range := (mem_alternatives predicate (n := n) (by rw [same]; exact List.mem_cons_self)).2
    have stays : group ∈ alternatives n (.binary left (.connect .and) right) := by
      rw [alternatives, same, Sql.fuse_cons_cons]
      exact List.mem_cons_self
    refine ⟨only group, ?_⟩
    rw [anyAll_only stays, holds, holds_of_all_false predicate' (agree_only fun i among =>
      .inl (range i among).2), Bool.and_false]
    exact Bool.noConfusion
  · obtain ⟨first, group, groups, same⟩ := exists_cons_cons_of_two_le several
    have range := (mem_alternatives predicate' (n := n + left.comparisons)
      (by rw [same]; exact List.mem_cons_of_mem _ List.mem_cons_self)).2
    have stays : group ∈ alternatives n (.binary left (.connect .and) right) := by
      rw [alternatives, same]
      exact Sql.mem_fuse_of_mem_tail List.mem_cons_self
    refine ⟨only group, ?_⟩
    rw [anyAll_only stays, holds, holds_of_all_false predicate (agree_only fun i among =>
      .inr (range i among).1), Bool.false_and]
    exact Bool.noConfusion

/-- The given truth values for the comparisons before a number, and falsity from there on. -/
def keepBelow (bound : Nat) (v : Nat → Bool) (i : Nat) : Bool := decide (i < bound) && v i

/-- The given truth values for the comparisons from a number on, and falsity before. -/
def keepFrom (bound : Nat) (v : Nat → Bool) (i : Nat) : Bool := decide (bound ≤ i) && v i

theorem agree_keepBelow (n k : Nat) (v : Nat → Bool) : Agree n k (keepBelow (n + k) v) v := by
  intro i _ high
  simp [keepBelow, high]

theorem agree_keepBelow_false (n k : Nat) (v : Nat → Bool) :
    Agree n k (keepBelow n v) (fun _ => false) := by
  intro i low _
  simp [keepBelow, Nat.not_lt.mpr low]

theorem agree_keepFrom (n k : Nat) (v : Nat → Bool) : Agree n k (keepFrom n v) v := by
  intro i low _
  simp [keepFrom, low]

theorem agree_keepFrom_false (n k : Nat) (v : Nat → Bool) :
    Agree n k (keepFrom (n + k) v) (fun _ => false) := by
  intro i _ high
  simp [keepFrom, Nat.not_le.mpr high]

/-- An OR of which an operand is misread is misread: the other operand is made false. -/
theorem Expr.exists_differ_of_either {left right : Expr} (predicate : left.IsPredicate)
    (predicate' : right.IsPredicate) {n : Nat}
    (differs : (∃ v, anyAll v (left.alternatives n) ≠ left.holds v n) ∨
      ∃ v, anyAll v (right.alternatives (n + left.comparisons)) ≠
        right.holds v (n + left.comparisons)) :
    ∃ v, anyAll v (alternatives n (.binary left (.connect .or) right)) ≠
      holds v n (.binary left (.connect .or) right) := by
  rcases differs with ⟨v, differ⟩ | ⟨v, differ⟩
  · have here := agree_keepBelow n left.comparisons v
    have there := agree_keepBelow_false (n + left.comparisons) right.comparisons v
    refine ⟨keepBelow (n + left.comparisons) v, fun same => differ ?_⟩
    rw [alternatives, holds, holds_of_all_false predicate' there, here.holds_eq predicate,
      anyAll, List.any_append, ← anyAll, ← anyAll, here.anyAll_eq predicate,
      anyAll_of_all_false predicate' there, Bool.or_false, Bool.or_false] at same
    exact same
  · have here := agree_keepFrom_false n left.comparisons v
    have there := agree_keepFrom (n + left.comparisons) right.comparisons v
    refine ⟨keepFrom (n + left.comparisons) v, fun same => differ ?_⟩
    rw [alternatives, holds, holds_of_all_false predicate here, there.holds_eq predicate',
      anyAll, List.any_append, ← anyAll, ← anyAll, there.anyAll_eq predicate',
      anyAll_of_all_false predicate here, Bool.false_or, Bool.false_or] at same
    exact same

/-- Where some AND has an OR for an operand, the two readings differ. -/
theorem Expr.exists_differ {e : Expr} (predicate : e.IsPredicate) :
    ∀ n, e.keepsGrouping = false → ∃ v, anyAll v (e.alternatives n) ≠ e.holds v n := by
  induction predicate with
  | comparison _ _ => exact fun _ breaks => by cases breaks
  | @both left right predicate predicate' ihLeft ihRight =>
      intro n breaks
      apply exists_differ_of_both predicate predicate'
      have positive := length_alternatives_pos predicate n
      have positive' := length_alternatives_pos predicate' (n + left.comparisons)
      have one := length_alternatives_eq_one_iff predicate n
      have one' := length_alternatives_eq_one_iff predicate' (n + left.comparisons)
      by_cases single : (left.alternatives n).length = 1
      · obtain ⟨keeps, notEither⟩ := one.mp single
        by_cases single' : (right.alternatives (n + left.comparisons)).length = 1
        · obtain ⟨keeps', notEither'⟩ := one'.mp single'
          simp [keepsGrouping, keeps, keeps', notEither, notEither'] at breaks
        · exact .inr (by omega)
      · exact .inl (by omega)
  | @either left right predicate predicate' ihLeft ihRight =>
      intro n breaks
      rw [keepsGrouping, Bool.and_eq_false_iff] at breaks
      exact exists_differ_of_either predicate predicate'
        (breaks.imp (ihLeft n) (ihRight (n + left.comparisons)))

/-- The two readings agree under all truth values exactly when no AND has an OR for an
operand. -/
theorem Expr.anyAll_alternatives_iff {e : Expr} (predicate : e.IsPredicate) (n : Nat) :
    (∀ v, anyAll v (e.alternatives n) = e.holds v n) ↔ e.keepsGrouping = true := by
  constructor
  · intro agrees
    cases keeps : e.keepsGrouping with
    | true => rfl
    | false =>
        obtain ⟨v, differ⟩ := exists_differ predicate n keeps
        exact absurd (agrees v) differ
  · exact fun keeps v => anyAll_alternatives_of_keepsGrouping predicate v n keeps

end RowFilter.Script
