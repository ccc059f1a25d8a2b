import RowFilter.Proofs.Sql.Tokens

/-!
# Reading a condition as SQL

In a condition without parentheses a comparison binds tightest, then AND, then OR.  So
the tokens of a condition are cut at each OR into alternatives, and each alternative at
each AND into tests.  A test is a comparison between two operands, each a column or a
placeholder.

A condition is true when all tests of one of its alternatives are.  Its tests are
numbered in the order in which they stand, and the truth of a condition is a function
of the truth values at these numbers (`truth`).
-/

set_option autoImplicit false

namespace RowFilter.Sql

/-! ## Tests and alternatives -/

/-- A comparison as it stands in a text. -/
structure Test where
  left : Token
  comparator : Comparator
  right : Token
deriving DecidableEq

/-- The word between two alternatives. -/
def orToken : Token := .word "OR"

/-- The word between two tests. -/
def andToken : Token := .word "AND"

/-- The comparator that a token stands for. -/
def Token.comparator? : Token → Option Comparator
  | .word "=" => some .equal
  | .word "!=" => some .unequal
  | .word ">" => some .greater
  | .word ">=" => some .greaterOrEqual
  | .word "<" => some .less
  | .word "<=" => some .lessOrEqual
  | _ => none

/-- The words that stand between operands or between tests. -/
def operatorWords : List String := ["=", "!=", ">", ">=", "<", "<=", "AND", "OR"]

/-- A column or a placeholder, but no comparator and no connective. -/
def Token.isOperand : Token → Bool
  | .identifier _ => true
  | .mark _ => false
  | .word w => w ∉ operatorWords

/-- The test that three tokens make. -/
def test : List Token → Option Test
  | [left, between, right] =>
      if left.isOperand && right.isOperand then between.comparator?.map (⟨left, ·, right⟩)
      else none
  | _ => none

/-- The alternatives of a condition, each with its tests. -/
def alternatives (found : List Token) : Option (List (List Test)) :=
  (found.splitOn orToken).mapM fun alternative => (alternative.splitOn andToken).mapM test

/-! ## Truth -/

/-- The members of a list of lists, replaced by their numbers from `n` on. -/
def numbered {α : Type} : Nat → List (List α) → List (List Nat)
  | _, [] => []
  | n, group :: groups => List.range' n group.length :: numbered (n + group.length) groups

/-- Whether all tests of one alternative are true. -/
def anyAll (v : Nat → Bool) (groups : List (List Nat)) : Bool :=
  groups.any fun group => group.all v

/-- The truth of a text read as SQL, under truth values for its tests in the order in
which they stand. -/
def truth (v : Nat → Bool) (text : String) : Option Bool := do
  let found ← tokens text.toList
  let read ← alternatives found
  return anyAll v (numbered 0 read)

/-! ## Spelling -/

def Test.tokens (t : Test) : List Token := [t.left, t.comparator.token, t.right]

/-- A test between operands. -/
def Test.Sound (t : Test) : Prop := t.left.isOperand = true ∧ t.right.isOperand = true

/-- The tokens of tests with AND between them. -/
def conjunction (tests : List Test) : List Token :=
  [andToken].intercalate (tests.map Test.tokens)

/-- The tokens of alternatives with OR between them. -/
def disjunction (groups : List (List Test)) : List Token :=
  [orToken].intercalate (groups.map conjunction)

/-- Alternatives that can be read back: there is one, and each has a test. -/
structure Readable (groups : List (List Test)) : Prop where
  nonempty : groups ≠ []
  inhabited : [] ∉ groups
  sound : ∀ tests ∈ groups, ∀ t ∈ tests, t.Sound

theorem Comparator.comparator?_token (c : Comparator) : c.token.comparator? = some c := by
  cases c <;> rfl

theorem Test.Sound.test_tokens {t : Test} (sound : t.Sound) : test t.tokens = some t := by
  obtain ⟨left, right⟩ := sound
  simp [Sql.test, Test.tokens, left, right, Comparator.comparator?_token]

theorem Test.Sound.connective_not_mem {t : Test} (sound : t.Sound) (c : Connective) :
    c.token ∉ t.tokens := by
  have notOperand : c.token.isOperand = false := by cases c <;> decide
  have notComparator : c.token ≠ t.comparator.token := by
    cases c <;> cases t.comparator <;> decide
  intro member
  simp only [Test.tokens, List.mem_cons, List.not_mem_nil, or_false] at member
  rcases member with same | same | same
  · rw [same, sound.1] at notOperand
    cases notOperand
  · exact notComparator same
  · rw [same, sound.2] at notOperand
    cases notOperand

theorem mapM_map_eq_some {α β : Type} {f : β → Option α} {g : α → β} :
    ∀ {xs : List α}, (∀ x ∈ xs, f (g x) = some x) → (xs.map g).mapM f = some xs
  | [], _ => rfl
  | x :: xs, back => by
      have others := mapM_map_eq_some fun y member => back y (List.mem_cons_of_mem x member)
      simp [List.mapM_cons, back x List.mem_cons_self, others]

theorem mem_intercalate {α : Type} {a x : α} {lists : List (List α)}
    (member : a ∈ [x].intercalate lists) : a = x ∨ ∃ list ∈ lists, a ∈ list := by
  induction lists with
  | nil => cases member
  | cons list lists ih =>
      cases lists with
      | nil => exact .inr ⟨list, List.mem_cons_self, by simpa using member⟩
      | cons next lists =>
          rw [List.intercalate_cons_cons, List.mem_append, List.mem_append,
            List.mem_singleton] at member
          rcases member with (here | between) | later
          · exact .inr ⟨list, List.mem_cons_self, here⟩
          · exact .inl between
          · rcases ih later with between | ⟨other, among, here⟩
            · exact .inl between
            · exact .inr ⟨other, List.mem_cons_of_mem _ among, here⟩

theorem tests_conjunction {tests : List Test} (nonempty : tests ≠ [])
    (sound : ∀ t ∈ tests, t.Sound) :
    ((conjunction tests).splitOn andToken).mapM test = some tests := by
  rw [conjunction, List.splitOn_intercalate, mapM_map_eq_some]
  · exact fun t member => (sound t member).test_tokens
  · intro found member
    obtain ⟨t, among, rfl⟩ := List.mem_map.mp member
    exact (sound t among).connective_not_mem .and
  · exact fun nil => nonempty (List.map_eq_nil_iff.mp nil)

theorem orToken_not_mem_conjunction {tests : List Test} (sound : ∀ t ∈ tests, t.Sound) :
    orToken ∉ conjunction tests := by
  intro member
  rcases mem_intercalate member with same | ⟨found, among, here⟩
  · exact absurd same (by decide)
  · obtain ⟨t, among', rfl⟩ := List.mem_map.mp among
    exact (sound t among').connective_not_mem .or here

/-- What alternatives are spelled by is read as these alternatives. -/
theorem alternatives_disjunction {groups : List (List Test)} (readable : Readable groups) :
    alternatives (disjunction groups) = some groups := by
  rw [alternatives, disjunction, List.splitOn_intercalate, mapM_map_eq_some]
  · intro tests member
    refine tests_conjunction ?_ (readable.sound tests member)
    rintro rfl
    exact readable.inhabited member
  · intro found member
    obtain ⟨tests, among, rfl⟩ := List.mem_map.mp member
    exact orToken_not_mem_conjunction (readable.sound tests among)
  · exact fun nil => readable.nonempty (List.map_eq_nil_iff.mp nil)

/-- The truth of tokens read as SQL. -/
def truthOf (v : Nat → Bool) (found : List Token) : Option Bool :=
  (alternatives found).map fun read => anyAll v (numbered 0 read)

theorem truthOf_disjunction {groups : List (List Test)} (readable : Readable groups)
    (v : Nat → Bool) : truthOf v (disjunction groups) = some (anyAll v (numbered 0 groups)) := by
  rw [truthOf, alternatives_disjunction readable]
  rfl

/-- The truth of the text of a condition is that of its tokens. -/
theorem truth_eq_truthOf {n : Condition} (named : ∀ b ∈ n.bindings, IsWord b.name)
    (v : Nat → Bool) : truth v n.text = truthOf v n.tokens := by
  rw [truth, tokens_text named, truthOf, Option.map_eq_bind]
  rfl

/-- The truth of a condition whose tokens spell alternatives. -/
theorem truth_text {n : Condition} (named : ∀ b ∈ n.bindings, IsWord b.name)
    {groups : List (List Test)} (readable : Readable groups)
    (spelled : n.tokens = disjunction groups) (v : Nat → Bool) :
    truth v n.text = some (anyAll v (numbered 0 groups)) := by
  rw [truth_eq_truthOf named, spelled, truthOf_disjunction readable]

/-! ## Joining alternatives -/

/-- Two lists of groups with the last group of the first and the first group of the
second made one. -/
def fuse {α : Type} : List (List α) → List (List α) → List (List α)
  | [], others => others
  | [last], first :: others => (last ++ first) :: others
  | group :: groups, others => group :: fuse groups others

theorem fuse_cons_cons {α : Type} (group next : List α) (groups others : List (List α)) :
    fuse (group :: next :: groups) others = group :: fuse (next :: groups) others := rfl

theorem fuse_ne_nil {α : Type} {groups others : List (List α)} (nonempty : groups ≠ []) :
    fuse groups others ≠ [] := by
  match groups, others with
  | [_], [] => simp [fuse]
  | [_], _ :: _ => simp [fuse]
  | _ :: _ :: _, _ => simp [fuse]

theorem length_fuse {α : Type} {others : List (List α)} :
    ∀ {groups : List (List α)}, groups ≠ [] → others ≠ [] →
      (fuse groups others).length + 1 = groups.length + others.length
  | [], nonempty, _ => absurd rfl nonempty
  | [_], _, nonempty => by
      obtain ⟨first, rest, rfl⟩ := List.exists_cons_of_ne_nil nonempty
      simp only [fuse, List.length_cons, List.length_nil]
      omega
  | group :: next :: groups, _, nonempty => by
      have later := length_fuse (List.cons_ne_nil next groups) nonempty
      rw [fuse_cons_cons, List.length_cons, List.length_cons, later]
      omega

theorem flatten_fuse {α : Type} (others : List (List α)) :
    ∀ groups : List (List α), (fuse groups others).flatten = groups.flatten ++ others.flatten
  | [] => by simp [fuse]
  | [_] => by cases others <;> simp [fuse]
  | group :: next :: groups => by
      have later := flatten_fuse others (next :: groups)
      rw [fuse_cons_cons, List.flatten_cons, later, ← List.append_assoc]
      rfl

/-- Only the first group of the second list is joined with another. -/
theorem mem_fuse_of_mem_tail {α : Type} {group first : List α} {others : List (List α)}
    (member : group ∈ others) : ∀ {groups : List (List α)}, group ∈ fuse groups (first :: others)
  | [] => List.mem_cons_of_mem _ member
  | [_] => List.mem_cons_of_mem _ member
  | _ :: next :: groups => by
      rw [fuse_cons_cons]
      exact List.mem_cons_of_mem _ (mem_fuse_of_mem_tail member)

/-- A group of the result is a group of one list, or one of each joined. -/
theorem mem_fuse {α : Type} {group : List α} :
    ∀ {groups others : List (List α)}, group ∈ fuse groups others →
      group ∈ groups ∨ group ∈ others ∨ ∃ last ∈ groups, ∃ first ∈ others, group = last ++ first
  | [], _, member => .inr (.inl member)
  | [last], [], member => .inl member
  | [last], first :: others, member => by
      rcases List.mem_cons.mp member with same | later
      · exact .inr (.inr ⟨last, List.mem_cons_self, first, List.mem_cons_self, same⟩)
      · exact .inr (.inl (List.mem_cons_of_mem _ later))
  | head :: next :: groups, others, member => by
      rcases List.mem_cons.mp member with same | later
      · exact .inl (same ▸ List.mem_cons_self)
      · rcases mem_fuse later with here | there | ⟨last, among, first, among', same⟩
        · exact .inl (List.mem_cons_of_mem _ here)
        · exact .inr (.inl there)
        · exact .inr (.inr ⟨last, List.mem_cons_of_mem _ among, first, among', same⟩)

theorem Readable.append {groups others : List (List Test)} (first : Readable groups)
    (second : Readable others) : Readable (groups ++ others) where
  nonempty := by simp [first.nonempty]
  inhabited := by simp [first.inhabited, second.inhabited]
  sound tests member := by
    rcases List.mem_append.mp member with here | there
    · exact first.sound tests here
    · exact second.sound tests there

theorem Readable.fuse {groups others : List (List Test)} (first : Readable groups)
    (second : Readable others) : Readable (fuse groups others) where
  nonempty := fuse_ne_nil first.nonempty
  inhabited member := by
    rcases mem_fuse member with here | there | ⟨last, among, next, _, same⟩
    · exact first.inhabited here
    · exact second.inhabited there
    · exact first.inhabited ((List.append_eq_nil_iff.mp same.symm).1 ▸ among)
  sound tests member t among := by
    rcases mem_fuse member with here | there | ⟨last, among', next, among'', rfl⟩
    · exact first.sound tests here t among
    · exact second.sound tests there t among
    · rcases List.mem_append.mp among with left | right
      · exact first.sound last among' t left
      · exact second.sound next among'' t right

theorem intercalate_append {α : Type} (x : α) :
    ∀ {lists others : List (List α)}, lists ≠ [] → others ≠ [] →
      [x].intercalate (lists ++ others) = [x].intercalate lists ++ x :: [x].intercalate others
  | [], _, nonempty, _ => absurd rfl nonempty
  | [list], next :: others, _, _ => by simp [List.intercalate_cons_cons]
  | list :: next :: lists, others, _, nonempty => by
      have later := intercalate_append x (List.cons_ne_nil next lists) nonempty
      simp only [List.cons_append, List.intercalate_cons_cons] at later ⊢
      simp [later]

/-- OR between two conditions puts their alternatives side by side. -/
theorem disjunction_append {groups others : List (List Test)} (first : Readable groups)
    (second : Readable others) :
    disjunction (groups ++ others) = disjunction groups ++ orToken :: disjunction others := by
  rw [disjunction, List.map_append, intercalate_append] <;>
    simp [disjunction, first.nonempty, second.nonempty]

theorem conjunction_append {tests others : List Test} (nonempty : tests ≠ [])
    (nonempty' : others ≠ []) :
    conjunction (tests ++ others) = conjunction tests ++ andToken :: conjunction others := by
  rw [conjunction, List.map_append, intercalate_append] <;> simp [conjunction, nonempty, nonempty']

/-- AND between two conditions joins the last alternative of the first and the first of
the second. -/
theorem disjunction_fuse :
    ∀ {groups others : List (List Test)}, Readable groups → Readable others →
      disjunction (fuse groups others) = disjunction groups ++ andToken :: disjunction others
  | [], _, first, _ => absurd rfl first.nonempty
  | _, [], _, second => absurd rfl second.nonempty
  | [last], next :: others, first, second => by
      have joined := conjunction_append (fun nil => first.inhabited (nil ▸ List.mem_cons_self))
        (fun nil => second.inhabited (nil ▸ List.mem_cons_self) : next ≠ [])
      cases others with
      | nil => simpa [disjunction, Sql.fuse] using joined
      | cons third others => simp [disjunction, Sql.fuse, joined, List.intercalate_cons_cons]
  | head :: next :: groups, other :: others, first, second => by
      have rest : Readable (next :: groups) :=
        ⟨List.cons_ne_nil _ _, fun member => first.inhabited (List.mem_cons_of_mem _ member),
          fun tests member => first.sound tests (List.mem_cons_of_mem _ member)⟩
      have later := disjunction_fuse rest second
      obtain ⟨third, remaining, same⟩ := List.exists_cons_of_ne_nil
        (fuse_ne_nil rest.nonempty : Sql.fuse (next :: groups) (other :: others) ≠ [])
      rw [fuse_cons_cons, same]
      rw [same] at later
      simp only [disjunction, List.map_cons, List.intercalate_cons_cons] at later ⊢
      simp [later]

theorem numbered_append {α : Type} (groups others : List (List α)) (n : Nat) :
    numbered n (groups ++ others) =
      numbered n groups ++ numbered (n + groups.flatten.length) others := by
  induction groups generalizing n with
  | nil => simp [numbered]
  | cons group groups ih => simp [numbered, ih, Nat.add_assoc]

theorem numbered_fuse {α : Type} (others : List (List α)) :
    ∀ (groups : List (List α)) (n : Nat), numbered n (fuse groups others) =
      fuse (numbered n groups) (numbered (n + groups.flatten.length) others)
  | [], n => by simp [numbered, fuse]
  | [last], n => by
      cases others with
      | nil => simp [numbered, fuse]
      | cons first others => simp [numbered, fuse, Nat.add_assoc]
  | group :: next :: groups, n => by
      have later := numbered_fuse others (next :: groups) (n + group.length)
      rw [fuse_cons_cons, numbered, later]
      simp [numbered, fuse, Nat.add_assoc]

end RowFilter.Sql
