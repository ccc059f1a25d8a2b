import RowFilter.Proofs.Ledger
import RowFilter.Proofs.Script.Equality
import RowFilter.Script.Builder

/-!
# Lowering in pre-order

Lowering looks at an operation before its operands, and at the left operand before the
right one.  It goes into the operands of comparisons and of the connectives "and" and "or"
only.  `Expr.preorder` lists the nodes of an expression in that order, and `refusal` says
what stands in the way of a single node.

If nothing stands in the way of any of them, the expression is lowered to a condition of the
same shape, and its constants are bound to the next names in order
(`run_of_clear`).  Otherwise lowering ends at the first node that is refused, and
just the constants before that node have been bound (`run_of_firstRefusal`).
-/

set_option autoImplicit false

namespace RowFilter

open Script Sql

/-! ## Values bound one after another -/

namespace NameSupply

theorem bindAll_append (values values' : List Value) (supply : NameSupply) :
    supply.bindAll (values ++ values') =
      ((supply.bindAll values).1 ++ ((supply.bindAll values).2.bindAll values').1,
        ((supply.bindAll values).2.bindAll values').2) := by
  induction values generalizing supply with
  | nil => rfl
  | cons value values ih => simp only [List.cons_append, bindAll, ih]

/-- As many names are gone as values have been bound. -/
theorem bindAll_snd (values : List Value) (supply : NameSupply) :
    (supply.bindAll values).2 = ⟨supply.lead, supply.reserved + values.length⟩ := by
  induction values generalizing supply with
  | nil => rfl
  | cons value values ih =>
      rw [List.length_cons, Nat.add_comm values.length 1, ← Nat.add_assoc]
      exact ih (supply.bind value).2

/-- The values are bound to names with consecutive numbers. -/
theorem bindAll_fst (values : List Value) (supply : NameSupply) :
    (supply.bindAll values).1 =
      values.mapIdx fun i value => ⟨numbered supply.lead (supply.reserved + i), value⟩ := by
  induction values generalizing supply with
  | nil => rfl
  | cons value values ih =>
      have others : ((supply.bind value).2.bindAll values).1 =
          values.mapIdx fun i value =>
            ⟨numbered supply.lead (supply.reserved + (i + 1)), value⟩ := by
        rw [ih]
        refine congrArg (List.mapIdx · values) (funext fun i => funext fun value => ?_)
        rw [Nat.add_comm i 1, ← Nat.add_assoc]
        rfl
      rw [List.mapIdx_cons, ← others]
      rfl

end NameSupply

/-! ## Nodes in order -/

namespace Lowering

/-- What an operator makes of the conditions of its operands, if it has a counterpart. -/
def joined : BinaryOp → Option (Condition → Condition → Condition)
  | .compare c => some fun l r => .comparison l (comparator c) r
  | .connect .and => some fun l r => .combine l .and r
  | .connect .or => some fun l r => .combine l .or r
  | .compute _ | .connect .coalesce => none

/-- What stands in the way of lowering a node, leaving its operands aside. -/
def refusal : Expr → Option Unsupported
  | .literal _ | .member _ _ => none
  | .index _ _ => some .computedMember
  | .binary _ op _ => if (joined op).isSome then none else some (.operator op)
  | e => some (.expression e.kind)

end Lowering

open Lowering in
/-- The nodes that lowering may come to, in order: an operation before its operands, and
what is left before what is right. -/
def Script.Expr.preorder : Expr → List Expr
  | .binary left op right =>
      .binary left op right ::
        if (joined op).isSome then left.preorder ++ right.preorder else []
  | e => [e]

/-- The value of a node that is a literal. -/
def Script.Expr.value? : Expr → Option Value
  | .literal v => some v
  | _ => none

/-- The values of the literals among nodes, in order. -/
def valuesOf (nodes : List Expr) : List Value := nodes.filterMap Expr.value?

theorem valuesOf_append (nodes others : List Expr) :
    valuesOf (nodes ++ others) = valuesOf nodes ++ valuesOf others := List.filterMap_append

namespace Lowering

/-! ## Expressions with a counterpart -/

/-- Expressions that have a counterpart in SQL: literals, named members of anything, and what
comparisons and the connectives "and" and "or" make of such expressions. -/
inductive Supported : Expr → Prop
  | literal (v : Value) : Supported (.literal v)
  | member (object : Expr) (name : String) : Supported (.member object name)
  | comparison {left right : Expr} (c : Comparison) :
      Supported left → Supported right → Supported (.binary left (.compare c) right)
  | both {left right : Expr} :
      Supported left → Supported right → Supported (.binary left (.connect .and) right)
  | either {left right : Expr} :
      Supported left → Supported right → Supported (.binary left (.connect .or) right)

/-- The comparator of SQL for each comparison.  There is one equality in SQL, and it is the
counterpart of both equalities of scripts. -/
inductive Counterpart : Comparison → Comparator → Prop
  | equal : Counterpart .equal .equal
  | strictlyEqual : Counterpart .strictlyEqual .equal
  | unequal : Counterpart .unequal .unequal
  | strictlyUnequal : Counterpart .strictlyUnequal .unequal
  | less : Counterpart .less .less
  | lessOrEqual : Counterpart .lessOrEqual .lessOrEqual
  | greater : Counterpart .greater .greater
  | greaterOrEqual : Counterpart .greaterOrEqual .greaterOrEqual

/-- A condition has the shape of an expression: a column without a table for each member, a
placeholder that is bound to its value for each literal, and the operations between them. -/
inductive Mirrors : Expr → Condition → Prop
  | literal (v : Value) (name : String) : Mirrors (.literal v) (.placeholder ⟨name, v⟩)
  | member (object : Expr) (name : String) :
      Mirrors (.member object name) (.field ⟨name, none⟩)
  | comparison {left right : Expr} {l r : Condition} {c : Comparison} {d : Comparator} :
      Counterpart c d → Mirrors left l → Mirrors right r →
        Mirrors (.binary left (.compare c) right) (.comparison l d r)
  | both {left right : Expr} {l r : Condition} : Mirrors left l → Mirrors right r →
      Mirrors (.binary left (.connect .and) right) (.compound [l, .connective .and, r])
  | either {left right : Expr} {l r : Condition} : Mirrors left l → Mirrors right r →
      Mirrors (.binary left (.connect .or) right) (.compound [l, .connective .or, r])

/-! ## Operators with a counterpart -/

section Joined

variable {op : BinaryOp} {make : Condition → Condition → Condition} {left right : Expr}

theorem condition_of_joined (join : joined op = some make) :
    condition (.binary left op right) = do
      let l ← condition left
      let r ← condition right
      return make l r := by
  match op, join with
  | .compare _, rfl | .connect .and, rfl | .connect .or, rfl => rfl

theorem condition_of_not_joined (join : joined op = none) :
    condition (.binary left op right) = throw (.operator op) := by
  match op, join with
  | .compute _, _ | .connect .coalesce, _ => rfl

theorem bindings_of_joined (join : joined op = some make) (l r : Condition) :
    (make l r).bindings = l.bindings ++ r.bindings := by
  match op, join with
  | .compare _, rfl => rfl
  | .connect .and, rfl => exact bindings_combine l .and r
  | .connect .or, rfl => exact bindings_combine l .or r

/-- The walk gives every comparison its counterpart. -/
theorem counterpart_comparator (c : Comparison) : Counterpart c (comparator c) := by
  cases c <;> constructor

theorem Mirrors.of_joined (join : joined op = some make) {l r : Condition}
    (first : Mirrors left l) (second : Mirrors right r) :
    Mirrors (.binary left op right) (make l r) := by
  match op, join with
  | .compare c, rfl => exact .comparison (counterpart_comparator c) first second
  | .connect .and, rfl => exact .both first second
  | .connect .or, rfl => exact .either first second

theorem Supported.of_joined (join : joined op = some make) (first : Supported left)
    (second : Supported right) : Supported (.binary left op right) := by
  match op, join with
  | .compare c, _ => exact .comparison c first second
  | .connect .and, _ => exact .both first second
  | .connect .or, _ => exact .either first second

theorem preorder_of_joined (join : joined op = some make) :
    (Expr.binary left op right).preorder =
      .binary left op right :: (left.preorder ++ right.preorder) := by
  rw [Expr.preorder, join, Option.isSome_some, if_pos rfl]

theorem preorder_of_not_joined (join : joined op = none) :
    (Expr.binary left op right).preorder = [.binary left op right] := by
  rw [Expr.preorder, join]
  rfl

theorem refusal_of_joined (join : joined op = some make) :
    refusal (.binary left op right) = none := by
  rw [refusal, join]
  rfl

theorem refusal_of_not_joined (join : joined op = none) :
    refusal (.binary left op right) = some (.operator op) := by
  rw [refusal, join]
  rfl

end Joined

/-! ## Where nothing is refused -/

/-- Nothing stands in the way of any of the nodes. -/
def Clear (nodes : List Expr) : Prop := ∀ node ∈ nodes, refusal node = none

theorem clear_append {nodes others : List Expr} :
    Clear (nodes ++ others) ↔ Clear nodes ∧ Clear others := List.forall_mem_append

/-- Bind values to the next names, in order. -/
def Ledger.bindAll (values : List Value) (ledger : Ledger) : Ledger :=
  ⟨(ledger.supply.bindAll values).2, ledger.bound ++ (ledger.supply.bindAll values).1⟩

theorem Ledger.bindAll_append (values values' : List Value) (ledger : Ledger) :
    ledger.bindAll (values ++ values') = (ledger.bindAll values).bindAll values' := by
  simp only [bindAll, NameSupply.bindAll_append, List.append_assoc]

theorem Ledger.bindAll_nil (ledger : Ledger) : ledger.bindAll [] = ledger := by
  rw [bindAll, NameSupply.bindAll, List.append_nil]

/-- Where nothing in an operation is refused, its operator has a counterpart, and nothing in
its operands is refused. -/
theorem joined_of_clear {left right : Expr} {op : BinaryOp}
    (clear : Clear (Expr.binary left op right).preorder) :
    ∃ make, joined op = some make ∧ Clear left.preorder ∧ Clear right.preorder := by
  cases join : joined op with
  | none =>
      rw [preorder_of_not_joined join] at clear
      have refused := clear _ List.mem_cons_self
      rw [refusal_of_not_joined join] at refused
      cases refused
  | some make =>
      rw [preorder_of_joined join] at clear
      exact ⟨make, rfl, clear_append.mp (List.forall_mem_cons.mp clear).2⟩

/-- Nodes that are not refused have a counterpart. -/
theorem supported_of_clear : ∀ e : Expr, Clear e.preorder → Supported e
  | .literal v, _ => .literal v
  | .member object name, _ => .member object name
  | .binary left op right, clear => by
      obtain ⟨make, join, first, second⟩ := joined_of_clear clear
      exact .of_joined join (supported_of_clear left first) (supported_of_clear right second)
  | .identifier _, clear | .index _ _, clear | .call _ _, clear | .unary _ _, clear
  | .conditional _ _ _, clear | .function _ _, clear => by
      cases clear _ List.mem_cons_self

theorem Supported.clear {e : Expr} (supported : Supported e) : Clear e.preorder := by
  have operation {left right : Expr} {op : BinaryOp} {make : Condition → Condition → Condition}
      (join : joined op = some make) (first : Clear left.preorder)
      (second : Clear right.preorder) : Clear (Expr.binary left op right).preorder := by
    rw [preorder_of_joined join]
    exact List.forall_mem_cons.mpr ⟨refusal_of_joined join, clear_append.mpr ⟨first, second⟩⟩
  induction supported with
  | literal | member => exact List.forall_mem_singleton.mpr rfl
  | comparison _ _ _ ih ih' | both _ _ ih ih' | either _ _ ih ih' => exact operation rfl ih ih'

/-- Where nothing is refused, the literals that lowering comes to are the constants. -/
theorem valuesOf_preorder : ∀ e : Expr, Clear e.preorder → valuesOf e.preorder = e.constants
  | .literal _, _ | .member _ _, _ => rfl
  | .binary left op right, clear => by
      obtain ⟨make, join, first, second⟩ := joined_of_clear clear
      rw [preorder_of_joined join, Expr.constants, ← valuesOf_preorder left first,
        ← valuesOf_preorder right second, ← valuesOf_append]
      rfl
  | .identifier _, clear | .index _ _, clear | .call _ _, clear | .unary _ _, clear
  | .conditional _ _ _, clear | .function _ _, clear => by
      cases clear _ List.mem_cons_self

/-- **An expression of which no node is refused is lowered, and its constants are bound in
order.** -/
theorem run_of_clear : ∀ (e : Expr) (ledger : Ledger), Clear e.preorder →
    ∃ n, (condition e).run ledger = (.ok n, ledger.bindAll e.constants) ∧ Mirrors e n ∧
      n.bindings = (ledger.supply.bindAll e.constants).1
  | .literal v, ledger, _ => ⟨_, rfl, .literal v _, rfl⟩
  | .member object name, ledger, _ =>
      ⟨_, congrArg (Prod.mk _) ledger.bindAll_nil.symm, .member object name, rfl⟩
  | .binary left op right, ledger, clear => by
      obtain ⟨make, join, first, second⟩ := joined_of_clear clear
      obtain ⟨l, run, mirrors, bindings⟩ := run_of_clear left ledger first
      obtain ⟨r, run', mirrors', bindings'⟩ :=
        run_of_clear right (ledger.bindAll left.constants) second
      refine ⟨make l r, ?_, mirrors.of_joined join mirrors', ?_⟩
      · rw [condition_of_joined join, run_both run run' make, Expr.constants,
          Ledger.bindAll_append]
      · rw [bindings_of_joined join, bindings, bindings', Expr.constants,
          NameSupply.bindAll_append]
        rfl
  | .identifier _, _, clear | .index _ _, _, clear | .call _ _, _, clear | .unary _ _, _, clear
  | .conditional _ _ _, _, clear | .function _ _, _, clear => by
      cases clear _ List.mem_cons_self

/-! ## Where something is refused -/

/-- What is in the way of the first node that is refused. -/
def firstRefusal (nodes : List Expr) : Option Unsupported := nodes.findSome? refusal

/-- The nodes before the first one that is refused. -/
def reached (nodes : List Expr) : List Expr := nodes.takeWhile fun node => (refusal node).isNone

theorem clear_iff {nodes : List Expr} : Clear nodes ↔ firstRefusal nodes = none :=
  List.findSome?_eq_none_iff.symm

theorem firstRefusal_append (nodes others : List Expr) :
    firstRefusal (nodes ++ others) = (firstRefusal nodes).or (firstRefusal others) :=
  List.findSome?_append

/-- A node that is not refused is passed over. -/
theorem firstRefusal_cons {node : Expr} (passes : refusal node = none) (nodes : List Expr) :
    firstRefusal (node :: nodes) = firstRefusal nodes :=
  List.findSome?_cons_of_isNone (Option.isNone_iff_eq_none.mpr passes)

theorem reached_cons {node : Expr} (passes : refusal node = none) (nodes : List Expr) :
    reached (node :: nodes) = node :: reached nodes :=
  List.takeWhile_cons_of_pos (Option.isNone_iff_eq_none.mpr passes)

theorem reached_append_of_clear {nodes : List Expr} (clear : Clear nodes) (others : List Expr) :
    reached (nodes ++ others) = nodes ++ reached others :=
  List.takeWhile_append_of_pos fun node member =>
    Option.isNone_iff_eq_none.mpr (clear node member)

/-- Nodes after the first one that is refused are not reached. -/
theorem reached_append_of_refused {part : Unsupported} :
    ∀ {nodes : List Expr}, firstRefusal nodes = some part → ∀ others : List Expr,
      reached (nodes ++ others) = reached nodes
  | node :: nodes, refused, others => by
      cases first : refusal node with
      | some _ => simp [reached, first]
      | none =>
          rw [firstRefusal_cons first] at refused
          rw [List.cons_append, reached_cons first, reached_cons first,
            reached_append_of_refused refused others]

/-- **Lowering ends at the first node that is refused, and the literals before it have been
bound in order.** -/
theorem run_of_firstRefusal : ∀ (e : Expr) (ledger : Ledger) {part : Unsupported},
    firstRefusal e.preorder = some part →
      (condition e).run ledger =
        (.error part, ledger.bindAll (valuesOf (reached e.preorder)))
  | .binary left op right, ledger, part, refused => by
      cases join : joined op with
      | none =>
          have itself : refusal (.binary left op right) = some (.operator op) :=
            refusal_of_not_joined join
          rw [preorder_of_not_joined join] at refused ⊢
          obtain rfl : .operator op = part := by simpa [firstRefusal, itself] using refused
          have nothing : reached [.binary left op right] = [] := by simp [reached, itself]
          rw [condition_of_not_joined join, nothing, valuesOf, List.filterMap_nil,
            Ledger.bindAll_nil]
          rfl
      | some make =>
          have itself : refusal (.binary left op right) = none := refusal_of_joined join
          rw [preorder_of_joined join, firstRefusal_cons itself, firstRefusal_append] at refused
          have values (nodes : List Expr) :
              valuesOf (.binary left op right :: nodes) = valuesOf nodes := rfl
          rw [preorder_of_joined join, reached_cons itself, values, condition_of_joined join]
          cases first : firstRefusal left.preorder with
          | some part' =>
              obtain rfl : part' = part := by simpa [first] using refused
              rw [run_bind_of_error (run_of_firstRefusal left ledger first),
                reached_append_of_refused first]
          | none =>
              -- The left operand is lowered, so the refusal is one in the right operand.
              have second : firstRefusal right.preorder = some part := by
                simpa [first] using refused
              have clear := clear_iff.mpr first
              obtain ⟨l, run, _⟩ := run_of_clear left ledger clear
              rw [run_bind_of_ok run, run_bind_of_error (run_of_firstRefusal right _ second),
                reached_append_of_clear clear, valuesOf_append, valuesOf_preorder left clear,
                Ledger.bindAll_append]
  | .literal _, _, _, refused | .member _ _, _, _, refused => by cases refused
  | .identifier _, ledger, _, refused | .index _ _, ledger, _, refused
  | .call _ _, ledger, _, refused | .unary _ _, ledger, _, refused
  | .conditional _ _ _, ledger, _, refused | .function _ _, ledger, _, refused => by
      cases refused
      exact congrArg (Prod.mk _) ledger.bindAll_nil.symm

/-- The nodes up to the first one that is refused. -/
theorem split_of_firstRefusal {part : Unsupported} :
    ∀ {nodes : List Expr}, firstRefusal nodes = some part →
      ∃ node after, nodes = reached nodes ++ node :: after ∧ Clear (reached nodes) ∧
        refusal node = some part
  | node :: nodes, refused => by
      cases first : refusal node with
      | some _ =>
          have same : refusal node = some part := by simpa [firstRefusal, first] using refused
          have nothing : reached (node :: nodes) = [] := by simp [reached, first]
          rw [nothing]
          exact ⟨node, nodes, rfl, fun _ member => absurd member List.not_mem_nil, same⟩
      | none =>
          rw [firstRefusal_cons first] at refused
          obtain ⟨last, after, split, clear, same⟩ := split_of_firstRefusal refused
          rw [reached_cons first]
          exact ⟨last, after, congrArg (node :: ·) split, List.forall_mem_cons.mpr ⟨first, clear⟩,
            same⟩

/-! ## Exact results -/

/-- Lowering an expression ends at the first node that is refused, or at its end. -/
theorem lower_cases (e : Expr) (supply : NameSupply) :
    (∃ part, firstRefusal e.preorder = some part ∧
      lower e supply = (.error part, Ledger.bindAll (valuesOf (reached e.preorder)) ⟨supply, []⟩)) ∨
    Clear e.preorder ∧ ∃ n, lower e supply = (.ok n, Ledger.bindAll e.constants ⟨supply, []⟩) ∧
      Mirrors e n ∧ n.bindings = (supply.bindAll e.constants).1 := by
  cases refused : firstRefusal e.preorder with
  | some part => exact .inl ⟨part, rfl, run_of_firstRefusal e ⟨supply, []⟩ refused⟩
  | none =>
      have clear := clear_iff.mpr refused
      exact .inr ⟨clear, run_of_clear e ⟨supply, []⟩ clear⟩

/-- **Just the supported expressions are lowered.**  The condition has the shape of the
expression, its placeholders are bound to the constants of the expression in order, under
names with consecutive numbers, and these names are gone from the supply. -/
theorem lower_eq_ok_iff_supported (e : Expr) (supply : NameSupply) :
    ((∃ n, (lower e supply).1 = .ok n) ↔ Supported e) ∧
      ∀ n, (lower e supply).1 = .ok n → Mirrors e n ∧
        n.bindings = (e.constants.mapIdx fun i v =>
          ⟨supply.lead ++ "p" ++ (supply.reserved + i).repr, v⟩) ∧
        (lower e supply).2.supply = ⟨supply.lead, supply.reserved + e.constants.length⟩ := by
  rcases lower_cases e supply with ⟨part, refused, failed⟩ | ⟨clear, n, lowered, mirrors, bindings⟩
  · rw [failed]
    refine ⟨⟨fun ⟨_, done⟩ => (by cases done), fun supported => ?_⟩, fun _ done => by cases done⟩
    rw [clear_iff.mp supported.clear] at refused
    cases refused
  · rw [lowered]
    refine ⟨⟨fun _ => supported_of_clear e clear, fun _ => ⟨n, rfl⟩⟩, fun n' done => ?_⟩
    cases done
    exact ⟨mirrors, bindings.trans (NameSupply.bindAll_fst _ _), NameSupply.bindAll_snd _ _⟩

section Samples

/-- A condition with a literal inside the object of a member, which is not bound. -/
def memberSample : Expr :=
  .binary
    (.binary (.member (.literal (.integer 5)) "a") (.compare .strictlyEqual)
      (.literal (.text "u")))
    (.connect .and)
    (.binary
      (.binary (.literal .null) (.compare .lessOrEqual) (.literal (.boolean true)))
      (.connect .or)
      (.binary (.member (.identifier "x") "b") (.compare .unequal) (.member (.literal .null) "c")))

theorem lower_memberSample : ∃ n, (lower memberSample ⟨"q", 3⟩).1 = .ok n ∧
    Mirrors memberSample n ∧
    n.text = "[a] = qp3 AND qp4 <= qp5 OR [b] != [c]" ∧
    n.bindings = [⟨"qp3", .text "u"⟩, ⟨"qp4", .null⟩, ⟨"qp5", .boolean true⟩] ∧
    (lower memberSample ⟨"q", 3⟩).2.supply = ⟨"q", 6⟩ := by
  have supported : Supported memberSample :=
    .both (.comparison _ (.member _ _) (.literal _))
      (.either (.comparison _ (.literal _) (.literal _))
        (.comparison _ (.member _ _) (.member _ _)))
  obtain ⟨exact, result⟩ := lower_eq_ok_iff_supported memberSample ⟨"q", 3⟩
  obtain ⟨n, done⟩ := exact.mpr supported
  obtain ⟨mirrors, bindings, supply⟩ := result n done
  have text : n.text = "[a] = qp3 AND qp4 <= qp5 OR [b] != [c]" := by
    cases done
    decide +kernel
  exact ⟨n, done, mirrors, text, bindings, supply⟩

end Samples

/-- A compilation that fails before lowering leaves the supply as it was. -/
theorem supply_of_finish {found : Except FilterFunction.Misfit Expr} {supply : NameSupply}
    {program : Option Program} {error : CompileError}
    (failed : (Compilation.finish found supply program).result = .error error)
    (early : ∀ part, error ≠ .unsupported part) :
    (Compilation.finish found supply program).supply = supply := by
  cases found with
  | error misfit => rfl
  | ok e =>
      rcases lower_cases e supply with ⟨part, _, failed'⟩ | ⟨_, n, lowered, _⟩
      · rw [Compilation.finish, failed'] at failed
        exact absurd (Except.error.inj failed).symm (early part)
      · rw [Compilation.finish, lowered] at failed
        cases failed

/-- **A refused expression is refused for the first node, in order, that is refused.**  Just the
literals before that node have used up names.  A text that cannot be read, or that is no
filter function, uses up none. -/
theorem lower_error_and_supply :
    (∀ (e : Expr) (supply : NameSupply) (part : Unsupported),
      (lower e supply).1 = .error part →
        ∃ before node after, e.preorder = before ++ node :: after ∧
          (∀ earlier ∈ before, refusal earlier = none) ∧ refusal node = some part ∧
          (lower e supply).2.supply =
            ⟨supply.lead, supply.reserved + (valuesOf before).length⟩) ∧
    ∀ (source : String) (supply : NameSupply) (error : CompileError),
      (compile source supply).result = .error error →
      (∀ part, error ≠ .unsupported part) → (compile source supply).supply = supply := by
  refine ⟨fun e supply part failed => ?_, fun source supply error failed early => ?_⟩
  · rcases lower_cases e supply with ⟨part', refused, failed'⟩ | ⟨_, n, lowered, _⟩
    · rw [failed'] at failed ⊢
      cases failed
      obtain ⟨node, after, split, clear, same⟩ := split_of_firstRefusal refused
      exact ⟨_, node, after, split, clear, same, NameSupply.bindAll_snd _ _⟩
    · rw [lowered] at failed
      cases failed
  · rw [compile] at failed ⊢
    split at failed
    · rfl
    · exact supply_of_finish failed early

section Samples

/-- Three literals, then an operator without a counterpart, then a member without one. -/
def refusedSample : Expr :=
  .binary memberSample (.connect .or)
    (.binary (.literal (.integer 1)) (.connect .coalesce)
      (.index (.identifier "x") (.literal (.integer 2))))

theorem lower_refusedSample :
    (∃ before node after, refusedSample.preorder = before ++ node :: after ∧
      (∀ earlier ∈ before, refusal earlier = none) ∧
      refusal node = some (.operator (.connect .coalesce)) ∧
      (lower refusedSample ⟨"@", 7⟩).2.supply = ⟨"@", 7 + (valuesOf before).length⟩) ∧
    (compile "x => x.a" ⟨"@", 7⟩).supply = ⟨"@", 7⟩ := by
  have read : Compilation.parseInside "x => x.a" =
      .ok [.expression (Builder.arrow (Builder.field "a"))] :=
    eq_ok_of_toOption (by decide +kernel)
  have misfit : (compile "x => x.a" ⟨"@", 7⟩).result =
      .error (.misfit (.notCondition .member)) := by
    rw [compile, read]
    rfl
  obtain ⟨lowering, compiling⟩ := lower_error_and_supply
  exact ⟨lowering refusedSample ⟨"@", 7⟩ _ rfl,
    compiling _ _ _ misfit fun part same => by cases same⟩

end Samples

end Lowering
end RowFilter
