import RowFilter.Proofs.Script.Rules

/-!
# Names as texts

A name is read from a text up to the first character that could not continue it, so a
name that has been written is read back as soon as it is followed by a boundary
(`name_append`).  A keyword is read there only if the name is that keyword
(`keyword_append_eq_none`).
-/

set_option autoImplicit false

namespace RowFilter.Script

open Reader Lexeme Grammar

/-- A text has the form of a name. -/
def isName (s : String) : Bool :=
  match s.toList with
  | [] => false
  | first :: others => isNameStart first && others.all isNameChar

/-- A text has the form of a name and is not reserved. -/
def isIdentifier (s : String) : Bool :=
  isName s && !reserved.contains s

/-- A text that does not go on with a name. -/
def Boundary (rest : List Char) : Prop := ∀ c ∈ rest.head?, isNameChar c = false

/-- A character that is in no name is where a name ends. -/
theorem boundary_cons {c : Char} (s : List Char) (other : isNameChar c = false) :
    Boundary (c :: s) := fun d head => by
  cases head
  exact other

/-! ## Names -/

theorem isName_eq_true {n : String} (named : isName n = true) :
    ∃ first others, n.toList = first :: others ∧ isNameStart first = true ∧
      ∀ c ∈ others, isNameChar c = true := by
  rw [isName] at named
  split at named
  · cases named
  · next first others same =>
      rw [Bool.and_eq_true, List.all_eq_true] at named
      exact ⟨first, others, same, named⟩

theorem isNameChar_of_mem {n : String} (named : isName n = true) :
    ∀ c ∈ n.toList, isNameChar c = true := by
  obtain ⟨first, others, same, start, continues⟩ := isName_eq_true named
  rw [same]
  exact List.forall_mem_cons.mpr ⟨isNameChar_of_isNameStart start, continues⟩

/-- No gap begins with a name. -/
theorem gap_name {n : String} (named : isName n = true) (rest : List Char) :
    gap (n.toList ++ rest) = none := by
  obtain ⟨c, s, same, start, _⟩ := isName_eq_true named
  rw [same]
  exact gap_of_plain _ (plain_isNameStart c start)

theorem isName_of_isIdentifier {n : String} (named : isIdentifier n = true) : isName n = true :=
  (Bool.and_eq_true _ _ ▸ named).1

theorem not_mem_reserved {n : String} (named : isIdentifier n = true) : n ∉ reserved := by
  rw [isIdentifier, Bool.and_eq_true, Bool.not_eq_true', List.contains_eq_mem,
    decide_eq_false_iff_not] at named
  exact named.2

theorem ne_of_isIdentifier {n w : String} (named : isIdentifier n = true)
    (keyword : w ∈ reserved) : n ≠ w := fun same =>
  not_mem_reserved named (same ▸ keyword)

/-- A name is read up to where it ends. -/
theorem name_append {n : String} {rest : List Char} (named : isName n = true)
    (ends : Boundary rest) : name (n.toList ++ rest) = some (n, rest) := by
  obtain ⟨first, others, same, start, continues⟩ := isName_eq_true named
  have taken : satisfying isNameStart (first :: (others ++ rest)) =
      some (first, others ++ rest) := by
    rw [satisfying_cons, if_pos start]
  rw [same, List.cons_append, name, bind_of_some taken, bind_of_some (run_append continues ends),
    pure_apply, ← same, String.ofList_toList]

/-- What is read as a name is one. -/
theorem name_eq_some {s rest : List Char} {n : String} (read : name s = some (n, rest)) :
    isName n = true := by
  obtain ⟨first, middle, start, read⟩ := bind_eq_some read
  obtain ⟨others, _, continues, read⟩ := bind_eq_some read
  cases read
  cases continues
  rw [isName, String.toList_ofList]
  simp only [(satisfying_eq_some start).1, Bool.true_and]
  exact List.all_takeWhile

/-- An identifier is read up to where it ends. -/
theorem identifier_append {n : String} {rest : List Char} (named : isIdentifier n = true)
    (ends : Boundary rest) : identifier (n.toList ++ rest) = some (n, rest) := by
  rw [identifier, bind_of_some (name_append (isName_of_isIdentifier named) ends),
    if_neg (not_mem_reserved named)]
  rfl

theorem identifier_eq_some {s rest : List Char} {n : String}
    (read : identifier s = some (n, rest)) : isIdentifier n = true := by
  obtain ⟨n', middle, read, unreserved⟩ := bind_eq_some read
  split at unreserved
  · cases unreserved
  · next free =>
      cases unreserved
      rw [isIdentifier, name_eq_some read]
      simpa using free

/-! ## Keywords -/

theorem notNext_of_boundary {rest : List Char} (ends : Boundary rest) :
    notNext isNameChar rest = some ((), rest) := by
  cases rest with
  | nil => rfl
  | cons c s => rw [notNext_cons, ends c rfl]; rfl

/-- A keyword is read where no longer name begins with it. -/
theorem keyword_append (w : String) {rest : List Char} (ends : Boundary rest) :
    keyword w (w.toList ++ rest) = some ((), rest) := by
  rw [keyword, bind_of_some (word_append w rest), notNext_of_boundary ends]

theorem boundary_of_notNext {s rest : List Char} {found : Unit}
    (read : notNext isNameChar s = some (found, rest)) : Boundary s := by
  intro c head
  cases s with
  | nil => cases head
  | cons d s =>
      cases head
      rw [notNext_cons] at read
      split at read
      · cases read
      · next other => exact eq_false_of_ne_true other

/-- A keyword begins with a letter. -/
theorem keyword_of_letter {w : String} {c : Char} (s : List Char)
    (word : w.toList.head?.any isNameStart = true) (letter : isNameStart c = false) :
    keyword w (c :: s) = none := by
  apply keyword_cons_eq_none s
  rw [Option.any_eq_true] at word ⊢
  obtain ⟨d, first, start⟩ := word
  refine ⟨d, first, bne_iff_ne.mpr fun same => ?_⟩
  rw [same, letter] at start
  cases start

/-- A name is read as no keyword but itself. -/
theorem keyword_append_eq_none {n w : String} {rest : List Char} (named : isName n = true)
    (ends : Boundary rest) (letters : w.toList.all isNameChar = true) (other : n ≠ w) :
    keyword w (n.toList ++ rest) = none := by
  cases read : keyword w (n.toList ++ rest) with
  | none => rfl
  | some found =>
      obtain ⟨_, after, spelled, next⟩ := bind_eq_some read
      have same := word_eq_some_iff.mp spelled
      have first := run_append (isNameChar_of_mem named) ends
      have second := run_append (List.all_eq_true.mp letters) (boundary_of_notNext next)
      rw [← same, first] at second
      exact absurd (String.toList_inj.mp (Prod.mk.inj (Option.some.inj second)).1) other

/-! ## By the first character -/

theorem keyword_of_head {w : String} {s : List Char} (word : w.toList.head?.any isNameStart = true)
    (letter : ∀ c ∈ s.head?, isNameStart c = false) : keyword w s = none := by
  cases s with
  | nil =>
      apply keyword_eq_none
      intro rest same
      cases first : w.toList with
      | nil => simp [first] at word
      | cons d t => simp [first] at same
  | cons c s => exact keyword_of_letter s word (letter c rfl)

theorem identifier_of_head {s : List Char} (letter : ∀ c ∈ s.head?, isNameStart c = false) :
    identifier s = none := by
  cases s with
  | nil => rfl
  | cons c s => exact identifier_cons_eq_none s (letter c rfl)

theorem listed_of_head {α : Type} {element : Reader α} {c : Char} (s : List Char)
    (opening : c ≠ '(') : listed element (c :: s) = none :=
  bind_of_none (by simp [opening])

/-- Only a few characters are marks before an operand. -/
theorem unaryMark_of_head {c : Char} (s : List Char)
    (other : c ≠ '!' ∧ c ≠ '-' ∧ c ≠ '+' ∧ c ≠ '~') : unaryMark (c :: s) = none := by
  obtain ⟨exclamation, minus, plus, tilde⟩ := other
  apply bind_of_none
  simp [unaryOp, exclamation, minus, plus, tilde]

end RowFilter.Script
