import RowFilter.Proofs.Script.Equality
import RowFilter.Proofs.Script.Precedence
import RowFilter.Proofs.Script.Sequence
import RowFilter.Script.Source

/-!
# Chains of operators

A program that is the sparing text of an operator tree is that tree
(`Expr.parse_sparing`).  What that means for texts without parentheses is spelled out for
two kinds of chains.

In operands with binary operators between them the tree is the grouped one: each operator
has on its left something as tight and on its right something tighter.  A chain has just one
grouping, and it is found by putting the operands in one after another: an operation goes
as far down on the right as there are looser operators (`Expr.attach`).

In tests with question marks and colons after them the tree nests to the right.
-/

set_option autoImplicit false

namespace RowFilter.Script

open Reader Lexeme Grammar

/-! ## Programs of one expression -/

/-- A text that is read as an expression in every context is parsed as a program of it. -/
theorem ReadsSparing.parse {e : Expr} (reads : ReadsSparing e) :
    parse e.sparing = .ok [.expression e] := by
  have begins : Begins (spread e.tokens []) := reads.begins ends_nil.boundary
  have text : e.sparing.toList = spread e.tokens [] := (List.append_nil _).symm
  have ending : terminator [] = some ((), []) := rfl
  have content : statement (spread e.tokens []) = some (.expression e, []) := by
    rw [statement_of_begins begins, expressionStatement, bind_of_some (reads.whole ends_nil),
      bind_of_some ending]
    rfl
  have read : spaced statement (spread e.tokens []) = some (.expression e, []) :=
    bind_of_some content
  have last : spaced statement [] = none := rfl
  rw [Script.parse, Grammar.statements, text, begins.skipGaps,
    repeated_of_some spaced_progresses read, repeated_of_none last]

/-! ## Groupings -/

/-- Whether each operator between operands has something as tight on its left and something
tighter on its right. -/
def Expr.isGrouped : Expr → Bool
  | .binary l op r =>
      decide (op.tightness ≤ l.tightness) && decide (op.tightness < r.tightness) &&
        l.isGrouped && r.isGrouped
  | _ => true

/-- An operator and the operand after it. -/
abbrev Link : Type := BinaryOp × Expr

/-- The operands from left to right, with the operators between them. -/
def Expr.operands : Expr → Expr × List Link
  | .binary l op r => (l.operands.1, l.operands.2 ++ (op, r.operands.1) :: r.operands.2)
  | e => (e, [])

/-- The tokens of operands with operators between them. -/
def chainTokens (first : Expr) (links : List Link) : List String :=
  first.tokens ++ links.flatMap fun (op, e) => op.token :: e.tokens

theorem chainTokens_append (first : Expr) (links links' : List Link) :
    chainTokens first (links ++ links') =
      chainTokens first links ++ links'.flatMap fun (op, e) => op.token :: e.tokens := by
  simp [chainTokens]

/-- A grouping needs no parentheses. -/
theorem Expr.tokens_of_isGrouped {e : Expr} (grouped : e.isGrouped = true) :
    e.tokens = chainTokens e.operands.1 e.operands.2 := by
  induction e using Expr.operands.induct with
  | case1 l op r left right =>
      simp only [Expr.isGrouped, Bool.and_eq_true, decide_eq_true_eq] at grouped
      obtain ⟨⟨⟨asTight, tighter⟩, groupedLeft⟩, groupedRight⟩ := grouped
      have bareLeft : decide (l.tightness < op.tightness) = false := by simp [asTight]
      have bareRight : decide (r.tightness ≤ op.tightness) = false := by simp [tighter]
      rw [Expr.operands, chainTokens_append, Expr.tokens, bareLeft, bareRight]
      simp only [enclosed, Bool.false_eq_true, if_false]
      rw [left groupedLeft, right groupedRight]
      simp [chainTokens]
  | case2 e other =>
      rw [Expr.operands]
      · simp [chainTokens]
      · exact other

/-- A grouping is written with operators if its operands are. -/
theorem Expr.isOperatorTree_iff (e : Expr) : e.isOperatorTree = true ↔
    e.operands.1.isOperatorTree = true ∧ ∀ link ∈ e.operands.2, link.2.isOperatorTree = true := by
  induction e using Expr.operands.induct with
  | case1 l op r left right =>
      rw [Expr.isOperatorTree, Expr.every, Bool.and_eq_true, Bool.and_eq_true, left, right,
        Expr.operands]
      simp only [Expr.isOperatorNode, true_and, List.forall_mem_append, List.forall_mem_cons]
      exact and_assoc
  | case2 e other =>
      rw [Expr.operands]
      · simp
      · exact other

/-! ## The grouping of a chain -/

/-- A grouping with an operator and an operand put in at its right end. -/
def Expr.attach : Expr → BinaryOp → Expr → Expr
  | .binary l own r, op, e =>
      if own.tightness < op.tightness then .binary l own (r.attach op e)
      else .binary (.binary l own r) op e
  | e', op, e => .binary e' op e

/-- The grouping of a chain. -/
def Expr.grouping (first : Expr) (links : List Link) : Expr :=
  links.foldl (fun e (op, next) => e.attach op next) first

/-- Whether an expression needs no parentheses as an operand of any operator. -/
abbrev Expr.isBare (e : Expr) : Bool := decide (UnaryOp.tightness ≤ e.tightness)

theorem BinaryOp.tightness_lt (op : BinaryOp) : op.tightness < UnaryOp.tightness :=
  Nat.succ_lt_succ op.level_lt

section Attach

variable {e next : Expr} {op : BinaryOp}

theorem Expr.ne_binary_of_isBare (operand : next.isBare = true) (l : Expr) (op : BinaryOp)
    (r : Expr) : next ≠ .binary l op r := by
  rintro rfl
  exact absurd (of_decide_eq_true operand) (Nat.not_le_of_lt op.tightness_lt)

theorem Expr.operands_of_isBare (operand : next.isBare = true) :
    next.operands = (next, []) := by
  rw [Expr.operands]
  exact Expr.ne_binary_of_isBare operand

theorem Expr.isGrouped_of_isBare (operand : next.isBare = true) :
    next.isGrouped = true := by
  rw [Expr.isGrouped]
  exact Expr.ne_binary_of_isBare operand

/-- Attaching puts the new operand at the end of the row. -/
theorem Expr.operands_attach (operand : next.isBare = true) :
    (e.attach op next).operands = (e.operands.1, e.operands.2 ++ [(op, next)]) := by
  have single := Expr.operands_of_isBare operand
  induction e using Expr.operands.induct with
  | case1 l own r left right =>
      rw [Expr.attach]
      split
      · simp [Expr.operands, right]
      · simp [Expr.operands, single]
  | case2 e other =>
      have alone : e.operands = (e, []) := by
        rw [Expr.operands]
        exact other
      rw [Expr.attach, Expr.operands, single, alone]
      exact other

/-- The new root is at least as tight as what it is made of. -/
theorem Expr.tightness_attach : min e.tightness op.tightness ≤ (e.attach op next).tightness := by
  fun_cases Expr.attach e op next with
  | case1 l own r looser => exact Nat.min_le_left _ _
  | case2 l own r tighter => exact Nat.min_le_right _ _
  | case3 other => exact Nat.min_le_right _ _

/-- An expression that is no conditional is an operation between operands or an operand. -/
theorem Expr.isBare_of_not_binary (other : ∀ l op r, e ≠ .binary l op r)
    (tight : 0 < e.tightness) : e.isBare = true := by
  cases e with
  | binary l op r => exact absurd rfl (other l op r)
  | conditional t c a => cases tight
  | _ => rfl

/-- Attaching keeps the grouping by level. -/
theorem Expr.isGrouped_attach (grouped : e.isGrouped = true) (tight : 0 < e.tightness)
    (operand : next.isBare = true) : (e.attach op next).isGrouped = true := by
  have tighter : op.tightness < next.tightness :=
    Nat.lt_of_lt_of_le op.tightness_lt (of_decide_eq_true operand)
  have alone := Expr.isGrouped_of_isBare operand
  induction e using Expr.operands.induct with
  | case1 l own r left right =>
      rw [Expr.attach]
      split
      case isTrue looser =>
        simp only [Expr.isGrouped, Bool.and_eq_true, decide_eq_true_eq] at grouped ⊢
        obtain ⟨⟨⟨asTight, tighter'⟩, groupedLeft⟩, groupedRight⟩ := grouped
        -- Both the old right operand and the operation put into it are tighter than `own`.
        have within : min r.tightness op.tightness ≤ (r.attach op next).tightness :=
          Expr.tightness_attach
        refine ⟨⟨⟨asTight, by omega⟩, groupedLeft⟩, right groupedRight (by omega)⟩
      case isFalse asTight =>
        have whole : op.tightness ≤ (Expr.binary l own r).tightness := Nat.le_of_not_lt asTight
        rw [Expr.isGrouped, grouped, alone, decide_eq_true whole, decide_eq_true tighter]
        rfl
  | case2 e other =>
      have asTight := Nat.le_of_lt (Nat.lt_of_lt_of_le op.tightness_lt
        (of_decide_eq_true (Expr.isBare_of_not_binary other tight)))
      rw [Expr.attach, Expr.isGrouped, grouped, alone, decide_eq_true asTight,
        decide_eq_true tighter]
      · rfl
      · exact other

end Attach

/-- The fold over the operators groups them by level and keeps their order. -/
theorem Expr.grouping_spec {e : Expr} {links : List Link} (grouped : e.isGrouped = true)
    (tight : 0 < e.tightness) (each : ∀ link ∈ links, link.2.isBare = true) :
    (e.grouping links).isGrouped = true ∧
      (e.grouping links).operands = (e.operands.1, e.operands.2 ++ links) := by
  induction links generalizing e with
  | nil => simp [Expr.grouping, grouped]
  | cons link links ih =>
      obtain ⟨op, next⟩ := link
      obtain ⟨operand, others⟩ := List.forall_mem_cons.mp each
      have within : min e.tightness op.tightness ≤ (e.attach op next).tightness :=
        Expr.tightness_attach
      have positive : 0 < op.tightness := Nat.succ_pos _
      have tight' : 0 < (e.attach op next).tightness := by omega
      obtain ⟨grouped', operands⟩ :=
        ih (Expr.isGrouped_attach grouped tight operand) tight' others
      refine ⟨grouped', operands.trans ?_⟩
      rw [Expr.operands_attach operand, List.append_assoc]
      rfl

/-! ## Conditionals one after another -/

/-- A test and what is chosen if it holds. -/
abbrev Branch : Type := Expr × Expr

/-- The first branch whose test holds, or else the last expression. -/
def Expr.otherwise (last : Expr) : List Branch → Expr
  | [] => last
  | (test, consequent) :: branches => .conditional test consequent (last.otherwise branches)

/-- The tokens of branches with question marks and colons after their parts. -/
def branchTokens (branches : List Branch) (last : Expr) : List String :=
  (branches.flatMap fun (test, consequent) =>
    test.tokens ++ "?" :: (consequent.tokens ++ [":"])) ++ last.tokens

/-- A chain of conditionals is written without parentheses. -/
theorem Expr.tokens_otherwise {branches : List Branch} {last : Expr}
    (tests : ∀ branch ∈ branches, 0 < branch.1.tightness) :
    (last.otherwise branches).tokens = branchTokens branches last := by
  induction branches with
  | nil => rfl
  | cons branch branches ih =>
      obtain ⟨test, others⟩ := List.forall_mem_cons.mp tests
      have bare : decide (branch.1.tightness = 0) = false := decide_eq_false (Nat.ne_of_gt test)
      rw [Expr.otherwise, Expr.tokens, bare, ih others]
      simp [enclosed, branchTokens]

theorem Expr.isOperatorTree_otherwise {branches : List Branch} {last : Expr}
    (parts : ∀ branch ∈ branches, branch.1.isOperatorTree = true ∧ branch.2.isOperatorTree = true)
    (regular : last.isOperatorTree = true) : (last.otherwise branches).isOperatorTree = true := by
  induction branches with
  | nil => exact regular
  | cons branch branches ih =>
      obtain ⟨⟨test, consequent⟩, others⟩ := List.forall_mem_cons.mp parts
      simp only [Expr.otherwise, Expr.isOperatorTree, Expr.every, Bool.and_eq_true]
      exact ⟨⟨⟨rfl, test⟩, consequent⟩, ih others⟩

/-! ## Reading chains -/

theorem Expr.parse_sparing {e : Expr} (regular : e.isOperatorTree = true) :
    parse e.sparing = .ok [.expression e] :=
  (e.reads_sparing regular).parse

/-- An operand of a chain. -/
abbrev Expr.isLink (e : Expr) : Bool := e.isOperatorTree && e.isBare

section Chain

variable {first : Expr} {links : List Link}

theorem Expr.parse_of_isGrouped {e : Expr} (grouped : e.isGrouped = true)
    (operands : e.operands = (first, links)) (begins : first.isOperatorTree = true)
    (each : ∀ link ∈ links, link.2.isOperatorTree = true) :
    parse (" ".intercalate (chainTokens first links)) = .ok [.expression e] := by
  have regular : e.isOperatorTree = true := by
    rw [Expr.isOperatorTree_iff, operands]
    exact ⟨begins, each⟩
  have tokens := Expr.tokens_of_isGrouped grouped
  rw [operands] at tokens
  rw [← tokens]
  exact Expr.parse_sparing regular

/-- There is one grouping by level of a row of operands, for its text is parsed in one way. -/
theorem Expr.isGrouped_iff (begins : first.isLink = true)
    (each : ∀ link ∈ links, link.2.isLink = true) (e : Expr) :
    e.isGrouped = true ∧ e.operands = (first, links) ↔ e = first.grouping links := by
  simp only [Expr.isLink, Bool.and_eq_true] at begins each
  have simple := begins.2
  have tight : 0 < first.tightness :=
    Nat.lt_of_lt_of_le (by decide) (of_decide_eq_true simple)
  have spec : (first.grouping links).isGrouped = true ∧
      (first.grouping links).operands = (first, links) := by
    have built := Expr.grouping_spec (Expr.isGrouped_of_isBare simple) tight
      fun link member => (each link member).2
    rwa [Expr.operands_of_isBare simple] at built
  constructor
  · rintro ⟨grouped, operands⟩
    -- Both groupings have the text of the chain, and a text is read in one way.
    have regular (link : Link) (member : link ∈ links) := (each link member).1
    have read := Expr.parse_of_isGrouped grouped operands begins.1 regular
    rw [Expr.parse_of_isGrouped spec.1 spec.2 begins.1 regular] at read
    simpa using read.symm
  · rintro rfl
    exact spec

end Chain

/-- **Operators group by their levels.**  The sparing text of an operator tree is that tree.
Operands with binary operators between them and no parentheses are their one grouping, with
operators of one level to the left.  Conditionals nest to the right. -/
theorem operators_group_by_level :
    (∀ e : Expr, e.isOperatorTree = true → parse e.sparing = .ok [.expression e]) ∧
    (∀ (first : Expr) (links : List Link), first.isLink = true →
      (∀ link ∈ links, link.2.isLink = true) →
        parse (" ".intercalate (chainTokens first links)) =
            .ok [.expression (first.grouping links)] ∧
          ∀ e : Expr, e.isGrouped = true ∧ e.operands = (first, links) ↔
            e = first.grouping links) ∧
    (∀ (branches : List Branch) (last : Expr),
      (∀ branch ∈ branches, branch.1.isOperatorTree = true ∧ branch.2.isOperatorTree = true) →
      (∀ branch ∈ branches, 0 < branch.1.tightness) → last.isOperatorTree = true →
        parse (" ".intercalate (branchTokens branches last)) =
          .ok [.expression (last.otherwise branches)]) := by
  refine ⟨fun e => Expr.parse_sparing, ?_, ?_⟩
  · intro first links begins each
    have unique := Expr.isGrouped_iff begins each
    obtain ⟨grouped, operands⟩ := (unique _).mpr rfl
    simp only [Expr.isLink, Bool.and_eq_true] at begins each
    exact ⟨Expr.parse_of_isGrouped grouped operands begins.1 fun link member =>
      (each link member).1, unique⟩
  · intro branches last parts tests regular
    rw [← Expr.tokens_otherwise tests]
    exact Expr.parse_sparing (Expr.isOperatorTree_otherwise parts regular)

section Samples

/-- The expression `a . b ( 1 , x ) * ( ! ( c | d ) - e )`. -/
def sampleTree : Expr :=
  .binary (.call (.member (.identifier "a") "b") [.literal (.integer 1), .identifier "x"])
    (.compute .multiply)
    (.binary
      (.unary .not
        (.binary (.identifier "c") (.compute .bitOr) (.identifier "d")))
      (.compute .subtract) (.identifier "e"))

/-- The operators and operands after the first in `a - b * c - d < e`. -/
def sampleLinks : List Link :=
  [ (.compute .subtract, .identifier "b"), (.compute .multiply, .identifier "c"),
    (.compute .subtract, .identifier "d"), (.compare .less, .identifier "e") ]

/-- The grouping `((a - (b * c)) - d) < e`. -/
def sampleGrouping : Expr :=
  .binary
    (.binary
      (.binary (.identifier "a") (.compute .subtract)
        (.binary (.identifier "b") (.compute .multiply) (.identifier "c")))
      (.compute .subtract) (.identifier "d"))
    (.compare .less) (.identifier "e")

/-- The branches of `a ?? b ? c : d ? e : f`. -/
def sampleBranches : List Branch :=
  [ (.binary (.identifier "a") (.connect .coalesce) (.identifier "b"), .identifier "c"),
    (.identifier "d", .identifier "e") ]

theorem operators_group_by_level_samples :
    parse "a . b ( 1 , x ) * ( ! ( c | d ) - e )" = .ok [.expression sampleTree] ∧
    parse "a - b * c - d < e" = .ok [.expression sampleGrouping] ∧
    parse "a ?? b ? c : d ? e : f" =
      .ok [.expression ((Expr.identifier "f").otherwise sampleBranches)] := by
  obtain ⟨trees, chains, conditionals⟩ := operators_group_by_level
  have tree := trees sampleTree (by decide +kernel)
  have chain := chains (.identifier "a") sampleLinks (by decide +kernel) (by decide +kernel)
  have conditional := conditionals sampleBranches (.identifier "f") (by decide +kernel)
    (by decide +kernel) (by decide +kernel)
  refine ⟨tree, ?_, conditional⟩
  rw [(chain.2 sampleGrouping).mp ⟨rfl, rfl⟩]
  exact chain.1

end Samples

end RowFilter.Script
