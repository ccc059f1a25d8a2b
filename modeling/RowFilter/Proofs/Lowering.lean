import RowFilter.Proofs.Grouping
import RowFilter.Proofs.Ledger
import RowFilter.Proofs.Script.Equality
import RowFilter.Script.Builder

/-!
# Lowering predicates

A predicate is always lowered.  Its comparisons become tests between columns and
placeholders, and its connectives become the words between them.  So the text of the
condition can be read as SQL, and its alternatives are those that `Expr.alternatives`
computes from the predicate (`exists_lowered`).

The condition therefore means the same as the predicate exactly when the predicate keeps its
grouping: `Lowering.lower_truth_iff_keepsGrouping` states it of the walk, and
`compile_truth_iff_keepsGrouping` of compiling a filter.
-/

set_option autoImplicit false

namespace RowFilter

open Script Sql

/-! ## Placeholders are operands -/

/-- No name of a supply is the spelling of a comparator or a connective. -/
theorem NameSupply.isOperand_numbered (lead : String) (n : Nat) :
    Token.isOperand (.word (numbered lead n)) = true := by
  have mark : 'p' ∈ (numbered lead n).toList := by simp [numbered]
  have unmarked : ∀ w ∈ operatorWords, 'p' ∉ w.toList := by decide
  exact decide_eq_true fun member => unmarked _ member mark

namespace Lowering

/-! ## What a predicate is lowered to -/

/-- A ledger whose names are words. -/
def Clean (ledger : Ledger) : Prop := ∀ c ∈ ledger.supply.lead.toList, isWordChar c = true

/-- The walk leaves words for names, in the condition and in the ledger, if the ledger had
words for names. -/
def KeepsClean (ledger : Ledger) (n : Condition) (next : Ledger) : Prop :=
  Clean ledger → (∀ b ∈ n.bindings, IsWord b.name) ∧ Clean next

theorem KeepsClean.both {ledger middle next : Ledger} {l r n : Condition}
    (first : KeepsClean ledger l middle) (second : KeepsClean middle r next)
    (bindings : n.bindings = l.bindings ++ r.bindings) : KeepsClean ledger n next := by
  intro clean
  obtain ⟨named, clean⟩ := first clean
  obtain ⟨named', clean⟩ := second clean
  refine ⟨fun b member => ?_, clean⟩
  rw [bindings] at member
  rcases List.mem_append.mp member with here | there
  · exact named b here
  · exact named' b there

/-- An operand is lowered to a condition of one token. -/
theorem exists_operand {e : Expr} (operand : e.isOperand = true) (ledger : Ledger) :
    ∃ n next token, (condition e).run ledger = (.ok n, next) ∧ n.tokens = [token] ∧
      token.isOperand = true ∧ KeepsClean ledger n next := by
  match e, operand with
  | .member object name, _ =>
      exact ⟨.field (.plain name), ledger, .identifier name, rfl, rfl, rfl,
        fun clean => ⟨fun b member => (by cases member), clean⟩⟩
  | .literal value, _ =>
      refine ⟨_, _, .word (ledger.supply.bind value).1.name, run_placeholder value ledger, rfl,
        NameSupply.isOperand_numbered _ _, fun clean => ⟨fun b member => ?_, clean⟩⟩
      obtain rfl := List.mem_singleton.mp member
      exact NameSupply.isWord_numbered clean _

/-- A condition whose tokens spell the alternatives of a predicate. -/
structure Arranged (e : Expr) (n : Condition) (groups : List (List Test)) : Prop where
  readable : Readable groups
  spelled : n.tokens = disjunction groups
  numbers : ∀ k, numbered k groups = e.alternatives k
  total : groups.flatten.length = e.comparisons

/-- The condition that a predicate has been lowered to with words for names, and its
alternatives. -/
structure Lowered (e : Expr) (n : Condition) (groups : List (List Test)) : Prop
    extends Arranged e n groups where
  named : ∀ b ∈ n.bindings, IsWord b.name

theorem tokens_combine (l : Condition) (c : Sql.Connective) (r : Condition) :
    (Condition.combine l c r).tokens = l.tokens ++ c.token :: r.tokens := by
  simp [Condition.combine, Condition.tokens, Condition.tokensOf]

theorem Arranged.both {left right : Expr} {l r : Condition} {groups groups' : List (List Test)}
    (first : Arranged left l groups) (second : Arranged right r groups') :
    Arranged (.binary left (.connect .and) right) (.combine l .and r) (fuse groups groups') where
  readable := first.readable.fuse second.readable
  spelled := by
    rw [tokens_combine, first.spelled, second.spelled,
      disjunction_fuse first.readable second.readable]
    rfl
  numbers k := by
    rw [numbered_fuse, first.numbers, first.total, second.numbers, Expr.alternatives]
  total := by
    rw [flatten_fuse, List.length_append, first.total, second.total, Expr.comparisons]

theorem Arranged.either {left right : Expr} {l r : Condition} {groups groups' : List (List Test)}
    (first : Arranged left l groups) (second : Arranged right r groups') :
    Arranged (.binary left (.connect .or) right) (.combine l .or r) (groups ++ groups') where
  readable := first.readable.append second.readable
  spelled := by
    rw [tokens_combine, first.spelled, second.spelled,
      disjunction_append first.readable second.readable]
    rfl
  numbers k := by
    rw [numbered_append, first.numbers, first.total, second.numbers, Expr.alternatives]
  total := by
    rw [List.flatten_append, List.length_append, first.total, second.total, Expr.comparisons]

/-- A test by itself is a condition with one alternative. -/
theorem arranged_comparison {left right : Expr} {c : Comparison} {l r : Condition} {t u : Token}
    (first : l.tokens = [t]) (second : r.tokens = [u]) (operand : t.isOperand = true)
    (operand' : u.isOperand = true) :
    Arranged (.binary left (.compare c) right) (.comparison l (comparator c) r)
      [[⟨t, comparator c, u⟩]] where
  readable := by
    refine ⟨List.cons_ne_nil _ _, by simp, fun tests member test among => ?_⟩
    obtain rfl := List.mem_singleton.mp member
    obtain rfl := List.mem_singleton.mp among
    exact ⟨operand, operand'⟩
  spelled := by
    simp [Condition.tokens, first, second, disjunction, conjunction, Test.tokens]
  numbers k := by simp [numbered, Expr.alternatives]
  total := by simp [Expr.comparisons]

/-- **A predicate is lowered to a condition with the alternatives of the predicate.** -/
theorem exists_arranged {e : Expr} (predicate : e.IsPredicate) :
    ∀ ledger : Ledger, ∃ n next groups, (condition e).run ledger = (.ok n, next) ∧
      Arranged e n groups ∧ KeepsClean ledger n next := by
  induction predicate with
  | @comparison left c right operand operand' =>
      intro ledger
      obtain ⟨l, next, t, done, tokens, isOperand, keeps⟩ := exists_operand operand ledger
      obtain ⟨r, last, u, done', tokens', isOperand', keeps'⟩ := exists_operand operand' next
      exact ⟨_, last, _, run_both done done' fun l r => .comparison l (comparator c) r,
        arranged_comparison tokens tokens' isOperand isOperand', keeps.both keeps' rfl⟩
  | both _ _ ih ih' =>
      intro ledger
      obtain ⟨l, next, groups, done, arranged, keeps⟩ := ih ledger
      obtain ⟨r, last, groups', done', arranged', keeps'⟩ := ih' next
      exact ⟨_, last, _, run_both done done' fun l r => .combine l .and r,
        arranged.both arranged', keeps.both keeps' (bindings_combine l .and r)⟩
  | either _ _ ih ih' =>
      intro ledger
      obtain ⟨l, next, groups, done, arranged, keeps⟩ := ih ledger
      obtain ⟨r, last, groups', done', arranged', keeps'⟩ := ih' next
      exact ⟨_, last, _, run_both done done' fun l r => .combine l .or r,
        arranged.either arranged', keeps.both keeps' (bindings_combine l .or r)⟩

/-- With words for names the text can be read as well. -/
theorem exists_lowered {e : Expr} (predicate : e.IsPredicate) {ledger : Ledger}
    (clean : Clean ledger) : ∃ n next groups,
      (condition e).run ledger = (.ok n, next) ∧ Clean next ∧ Lowered e n groups := by
  obtain ⟨n, next, groups, done, arranged, keeps⟩ := exists_arranged predicate ledger
  obtain ⟨named, clean⟩ := keeps clean
  exact ⟨n, next, groups, done, clean, arranged, named⟩

/-- The truth of the SQL text of a lowered predicate. -/
theorem Lowered.truth_text {e : Expr} {n : Condition} {groups : List (List Test)}
    (lowered : Lowered e n groups) (v : Nat → Bool) :
    truth v n.text = some (anyAll v (e.alternatives 0)) := by
  rw [Sql.truth_text lowered.named lowered.readable lowered.spelled, lowered.numbers]

/-- **The groupings that survive lowering.**  A predicate is lowered, and the tokens of the
condition can be read as SQL.  They have the truth value of the predicate under all truth
values of the comparisons exactly when no AND of the predicate has an OR for an operand.
The same holds of the text if names begin with characters of words. -/
theorem lower_truth_iff_keepsGrouping {e : Expr} (predicate : e.IsPredicate)
    (supply : NameSupply) :
    ∃ n, (lower e supply).1 = .ok n ∧
      ((∀ v, (truthOf v n.tokens).isSome) ∧
        ((∀ v, truthOf v n.tokens = some (e.holds v 0)) ↔ e.keepsGrouping = true)) ∧
      ((∀ c ∈ supply.lead.toList, isWordChar c = true) → (∀ v, (truth v n.text).isSome) ∧
        ((∀ v, truth v n.text = some (e.holds v 0)) ↔ e.keepsGrouping = true)) := by
  obtain ⟨n, next, groups, done, arranged, keeps⟩ := exists_arranged predicate ⟨supply, []⟩
  have value (v : Nat → Bool) : truthOf v n.tokens = some (anyAll v (e.alternatives 0)) := by
    rw [arranged.spelled, truthOf_disjunction arranged.readable, arranged.numbers]
  have readable (v : Nat → Bool) : (truthOf v n.tokens).isSome := by
    rw [value]
    rfl
  have agrees : (∀ v, truthOf v n.tokens = some (e.holds v 0)) ↔ e.keepsGrouping = true := by
    rw [← Expr.anyAll_alternatives_iff predicate 0]
    simp only [value, Option.some.injEq]
  refine ⟨n, congrArg Prod.fst done, ⟨readable, agrees⟩, fun clean => ?_⟩
  have text (v : Nat → Bool) := truth_eq_truthOf (keeps clean).1 v
  simp only [text]
  exact ⟨readable, agrees⟩

end Lowering

/-! ## Compiling a filter with a predicate -/

open Lowering in
/-- **A filter whose condition is a predicate is compiled, and the text of the result can
be read as SQL.  It has the truth value of the filter under all truth values of the
comparisons exactly when no AND of the predicate has an OR for an operand.** -/
theorem compile_truth_iff_keepsGrouping {source : String} {program : Program} {body : Expr}
    (read : Compilation.parseInside source = .ok program)
    (shape : FilterFunction.ofProgram program = .ok body) (predicate : body.IsPredicate) :
    ∃ n, (compile source .fresh).result = .ok n ∧ (∀ v, (truth v n.text).isSome) ∧
      ((∀ v, truth v n.text = some (body.holds v 0)) ↔ body.keepsGrouping = true) := by
  have clean : Clean ⟨NameSupply.fresh, []⟩ := by
    intro c member
    obtain rfl : c = '@' := by simpa [NameSupply.fresh, NameSupply.ofLead,
      NameSupply.defaultLead] using member
    rfl
  obtain ⟨n, last, groups, done, _, lowered⟩ := exists_lowered predicate clean
  have compiled : (compile source .fresh).result = .ok n := by
    have lower : Lowering.lower body .fresh = (.ok n, last) := done
    rw [compile, read]
    simp only [Compilation.finish, shape, lower]
    rfl
  refine ⟨n, compiled, fun v => by rw [lowered.truth_text]; rfl, ?_⟩
  rw [← Expr.anyAll_alternatives_iff predicate 0]
  simp only [lowered.truth_text, Option.some.injEq]

section Samples

open Builder

/-- The comparison of a column with a number. -/
def sample (name : String) (n : Int64) : Expr := equals (field name) (constant (.integer n))

theorem sample_isPredicate (name : String) (n : Int64) : (sample name n).IsPredicate :=
  .comparison rfl rfl

/-- The predicate `(x.a === 1 || x.b === 2) && x.c === 3`. -/
def sampleMisread : Expr := both (either (sample "a" 1) (sample "b" 2)) (sample "c" 3)

theorem lower_truth_of_or_in_and :
    ∃ n, (Lowering.lower sampleMisread .fresh).1 = .ok n ∧ (∀ v, (truth v n.text).isSome) ∧
      ¬∀ v, truth v n.text = some (sampleMisread.holds v 0) := by
  have predicate : sampleMisread.IsPredicate :=
    .both (.either (sample_isPredicate _ _) (sample_isPredicate _ _)) (sample_isPredicate _ _)
  obtain ⟨n, lowered, _, text⟩ := Lowering.lower_truth_iff_keepsGrouping predicate .fresh
  obtain ⟨readable, agrees⟩ := text (List.forall_mem_singleton.mpr rfl)
  refine ⟨n, lowered, readable, fun same => ?_⟩
  have keeps : sampleMisread.keepsGrouping = true := agrees.mp same
  cases keeps

/-- An AND inside an OR keeps its place in the text. -/
theorem compile_truth_of_and_in_or :
    ∃ n, (compile "x => x.a === 1 && x.b === 2 || x.c === 3" .fresh).result = .ok n ∧
      ∀ v, truth v n.text = some (v 0 && v 1 || v 2) := by
  have read : Compilation.parseInside "x => x.a === 1 && x.b === 2 || x.c === 3" =
      .ok [.expression (arrow (either (both (sample "a" 1) (sample "b" 2)) (sample "c" 3)))] :=
    eq_ok_of_toOption (by decide +kernel)
  obtain ⟨n, compiled, _, agrees⟩ := compile_truth_iff_keepsGrouping read rfl
    (.either (.both (sample_isPredicate _ _) (sample_isPredicate _ _)) (sample_isPredicate _ _))
  exact ⟨n, compiled, agrees.mpr rfl⟩

/-- An OR inside an AND does not: if just the first comparison is true, the condition is
true and the filter is not. -/
theorem compile_misreads_or_in_and :
    ∃ program body n,
      Compilation.parseInside "x => (x.a === 1 || x.b === 2) && x.c === 3" = .ok program ∧
      FilterFunction.ofProgram program = .ok body ∧ body.IsPredicate ∧
      (compile "x => (x.a === 1 || x.b === 2) && x.c === 3" .fresh).result = .ok n ∧
      truth (· == 0) n.text = some true ∧ body.holds (· == 0) 0 = false := by
  have read : Compilation.parseInside "x => (x.a === 1 || x.b === 2) && x.c === 3" =
      .ok [.expression (arrow (both (either (sample "a" 1) (sample "b" 2)) (sample "c" 3)))] :=
    eq_ok_of_toOption (by decide +kernel)
  refine ⟨_, both (either (sample "a" 1) (sample "b" 2)) (sample "c" 3), _, read, rfl,
    .both (.either (sample_isPredicate _ _) (sample_isPredicate _ _)) (sample_isPredicate _ _),
    by rw [compile, read]; rfl, ?_, rfl⟩
  decide +kernel

end Samples

end RowFilter
