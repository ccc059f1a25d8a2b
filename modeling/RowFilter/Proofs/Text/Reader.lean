import RowFilter.Text.Reader
import Mathlib.Data.List.Basic

/-!
# Laws of readers

What a combined reader returns is computed from what its parts return: sequence is
`Option.bind`, ordered choice is `Option.or`, and a repetition is unfolded one round at
a time.  The unfolding needs a reader that progresses, because `many` counts its rounds
along the text; for such a reader the count is never exhausted
(`many_of_some`, `many_of_none`).
-/

set_option autoImplicit false

namespace RowFilter.Reader

variable {α β : Type}

/-! ## Sequence and choice -/

@[simp] theorem pure_apply (a : α) (s : List Char) : (pure a : Reader α) s = some (a, s) := rfl

@[simp] theorem refuse_apply (s : List Char) : (refuse : Reader α) s = none := rfl

@[simp] theorem bind_apply (p : Reader α) (f : α → Reader β) (s : List Char) :
    (p >>= f) s = (p s).bind fun found => f found.1 found.2 := by
  simp only [Bind.bind]
  cases p s <;> rfl

@[simp] theorem orElse_apply (p : Reader α) (q : Unit → Reader α) (s : List Char) :
    (HOrElse.hOrElse p q) s = (p s).or (q () s) := by
  simp only [HOrElse.hOrElse, OrElse.orElse, choose]
  cases p s <;> rfl

@[simp] theorem map_apply (f : α → β) (p : Reader α) (s : List Char) :
    (f <$> p) s = (p s).map fun found => (f found.1, found.2) := by
  show (p >>= pure ∘ f) s = _
  rw [bind_apply]
  cases p s <;> rfl

/-- What a sequence returns is read by its parts in turn, the second on the text that the first
leaves. -/
theorem bind_eq_some {p : Reader α} {f : α → Reader β} {s : List Char} {b : β}
    {rest : List Char} (read : (p >>= f) s = some (b, rest)) :
    ∃ a middle, p s = some (a, middle) ∧ f a middle = some (b, rest) := by
  rw [bind_apply, Option.bind_eq_some_iff] at read
  obtain ⟨⟨a, middle⟩, first, second⟩ := read
  exact ⟨a, middle, first, second⟩

theorem bind_of_some {p : Reader α} {f : α → Reader β} {s : List Char} {a : α}
    {rest : List Char} (read : p s = some (a, rest)) : (p >>= f) s = f a rest := by
  rw [bind_apply, read, Option.bind_some]

theorem bind_of_none {p : Reader α} {f : α → Reader β} {s : List Char} (refused : p s = none) :
    (p >>= f) s = none := by
  rw [bind_apply, refused, Option.bind_none]

/-- Sequences may be regrouped. -/
theorem bind_assoc {γ : Type} (p : Reader α) (f : α → Reader β) (g : β → Reader γ) :
    p >>= f >>= g = p >>= fun a => f a >>= g := by
  funext s
  simp [Option.bind_assoc]

/-- A choice takes the first alternative that does not refuse. -/
theorem orElse_of_some {p : Reader α} {q : Unit → Reader α} {s : List Char} {a : α}
    {rest : List Char} (read : p s = some (a, rest)) :
    (HOrElse.hOrElse p q) s = some (a, rest) := by
  rw [orElse_apply, read, Option.some_or]

theorem orElse_of_none {p : Reader α} {q : Unit → Reader α} {s : List Char}
    (refused : p s = none) : (HOrElse.hOrElse p q) s = q () s := by
  rw [orElse_apply, refused, Option.none_or]

/-- What a choice returns is read by one of its alternatives, on the same text. -/
theorem orElse_eq_some {p : Reader α} {q : Unit → Reader α} {s : List Char} {a : α}
    {rest : List Char} (read : (HOrElse.hOrElse p q) s = some (a, rest)) :
    p s = some (a, rest) ∨ q () s = some (a, rest) := by
  rw [orElse_apply, Option.or_eq_some_iff] at read
  rcases read with first | ⟨_, second⟩
  · exact .inl first
  · exact .inr second

theorem optional_of_some {p : Reader α} {s : List Char} {a : α} {rest : List Char}
    (read : p s = some (a, rest)) : optional p s = some (some a, rest) := by
  simp [optional, read]

theorem optional_of_none {p : Reader α} {s : List Char} (refused : p s = none) :
    optional p s = some (none, s) := by
  simp [optional, refused]

/-- Where nothing is found, nothing is taken. -/
theorem optional_eq_none {p : Reader α} {s rest : List Char}
    (read : optional p s = some (none, rest)) : rest = s := by
  cases first : p s with
  | none =>
      rw [optional_of_none first] at read
      cases read
      rfl
  | some found =>
      rw [optional_of_some first] at read
      cases read

/-! ## Single characters and runs of them -/

@[simp] theorem satisfying_nil (accepts : Char → Bool) : satisfying accepts [] = none := rfl

@[simp] theorem satisfying_cons (accepts : Char → Bool) (c : Char) (s : List Char) :
    satisfying accepts (c :: s) = if accepts c then some (c, s) else none := rfl

/-- The character that is read is in the class and is the first one of the text. -/
theorem satisfying_eq_some {accepts : Char → Bool} {s : List Char} {c : Char}
    {rest : List Char} (read : satisfying accepts s = some (c, rest)) :
    accepts c = true ∧ s = c :: rest := by
  cases s with
  | nil => simp at read
  | cons d s =>
      rw [satisfying_cons] at read
      split at read
      · cases read
        exact ⟨‹_›, rfl⟩
      · cases read

@[simp] theorem char_nil (c : Char) : char c [] = none := rfl

@[simp] theorem char_cons (c d : Char) (s : List Char) :
    char c (d :: s) = if d = c then some ((), s) else none := by
  by_cases same : d = c <;> simp [char, same]

theorem char_self (c : Char) (s : List Char) : char c (c :: s) = some ((), s) := by
  rw [char_cons, if_pos rfl]

theorem char_eq_some {c : Char} {s : List Char} {found : Unit} {rest : List Char}
    (read : char c s = some (found, rest)) : s = c :: rest := by
  cases s with
  | nil => cases read
  | cons d s =>
      rw [char_cons] at read
      split at read
      · cases read
        subst d
        rfl
      · cases read

/-- A word is read exactly where the text begins with it. -/
theorem word_eq_some_iff {w : String} {s : List Char} {found : Unit} {rest : List Char} :
    word w s = some (found, rest) ↔ s = w.toList ++ rest := by
  rw [word, Option.map_eq_some_iff, eq_comm, ← List.isPrefixOf?_eq_some_iff_append_eq]
  constructor
  · rintro ⟨rest', read, same⟩
    cases same
    exact read
  · exact fun read => ⟨rest, read, rfl⟩

/-- A text that does not begin with the word is refused. -/
theorem word_eq_none {w : String} {s : List Char} (other : ∀ rest, s ≠ w.toList ++ rest) :
    word w s = none := by
  cases read : word w s with
  | none => rfl
  | some found => exact absurd (word_eq_some_iff.mp read) (other found.2)

@[simp] theorem word_append (w : String) (s : List Char) :
    word w (w.toList ++ s) = some ((), s) :=
  word_eq_some_iff.mpr rfl

@[simp] theorem notNext_nil (refused : Char → Bool) : notNext refused [] = some ((), []) := rfl

@[simp] theorem notNext_cons (refused : Char → Bool) (c : Char) (s : List Char) :
    notNext refused (c :: s) = if refused c then none else some ((), c :: s) := rfl

/-- Looking at the next character does not take it. -/
theorem notNext_eq_some {refused : Char → Bool} {s : List Char} {found : Unit}
    {rest : List Char} (read : notNext refused s = some (found, rest)) : s = rest := by
  cases s with
  | nil => cases read; rfl
  | cons c s =>
      rw [notNext_cons] at read
      split at read
      · cases read
      · cases read; rfl

@[simp] theorem run_apply (accepts : Char → Bool) (s : List Char) :
    run accepts s = some (s.takeWhile accepts, s.dropWhile accepts) := rfl

/-- A run ends where the first character is not of the class. -/
theorem run_append {accepts : Char → Bool} {t : List Char} (all : ∀ c ∈ t, accepts c = true)
    {s : List Char} (ends : ∀ c ∈ s.head?, accepts c = false) :
    run accepts (t ++ s) = some (t, s) := by
  have none_taken : s.takeWhile accepts = [] := by
    cases s with
    | nil => rfl
    | cons c s => simp [ends c rfl]
  have none_dropped : s.dropWhile accepts = s := by
    cases s with
    | nil => rfl
    | cons c s => simp [ends c rfl]
  rw [run_apply, List.takeWhile_append_of_pos all, List.dropWhile_append_of_pos all,
    none_taken, none_dropped, List.append_nil]

/-! ## Repetition -/

/-- A reader that takes at least one character whenever it does not refuse. -/
def Progresses (p : Reader α) : Prop :=
  ∀ ⦃s a rest⦄, p s = some (a, rest) → rest.length < s.length

/-- For a reader that progresses, the number of rounds is no bound. -/
theorem rounds_eq_rounds {p : Reader α} (progresses : Progresses p) :
    ∀ (bound bound' s : List Char), s.length ≤ bound.length → s.length ≤ bound'.length →
      rounds p bound s = rounds p bound' s := by
  intro bound
  induction bound with
  | nil =>
      intro bound' s short _
      have refused : p s = none := by
        cases read : p s with
        | none => rfl
        | some found => exact absurd (progresses read) (by simp at short; simp [short])
      cases bound' with
      | nil => rfl
      | cons _ _ => simp [rounds, refused]
  | cons _ bound ih =>
      intro bound' s short short'
      cases read : p s with
      | none => cases bound' <;> simp [rounds, read]
      | some found =>
          obtain ⟨a, rest⟩ := found
          have shorter := progresses read
          cases bound' with
          | nil => simp at short'; simp [short'] at shorter
          | cons _ bound' =>
              simp only [List.length_cons] at short short'
              simp only [rounds, read, ih bound' rest (by omega) (by omega)]

/-- A repetition ends where its reader refuses. -/
theorem repeated_of_none {p : Reader α} {s : List Char} (refused : p s = none) :
    repeated p s = ([], s) := by
  cases s with
  | nil => rfl
  | cons c s => simp [repeated, rounds, refused]

/-- One round of a repetition, and the others on the text that it leaves. -/
theorem repeated_of_some {p : Reader α} (progresses : Progresses p) {s : List Char} {a : α}
    {rest : List Char} (read : p s = some (a, rest)) :
    repeated p s = (a :: (repeated p rest).1, (repeated p rest).2) := by
  have shorter := progresses read
  cases s with
  | nil => simp at shorter
  | cons c s =>
      simp only [List.length_cons] at shorter
      simp only [repeated, rounds, read]
      rw [rounds_eq_rounds progresses s rest rest (by omega) (Nat.le_refl _)]

/-- A repetition without a round leaves the text as it is. -/
theorem repeated_eq_nil {p : Reader α} {s rest : List Char} (read : repeated p s = ([], rest)) :
    rest = s := by
  cases round : p s with
  | none =>
      rw [repeated_of_none round] at read
      exact (congrArg Prod.snd read).symm
  | some found =>
      cases s with
      | nil => exact (congrArg Prod.snd read).symm
      | cons c s =>
          simp only [repeated, rounds, round] at read
          cases congrArg Prod.fst read

/-- One round takes a whole text exactly if the reader does. -/
theorem repeated_eq_singleton_iff {p : Reader α} (progresses : Progresses p)
    {s : List Char} {a : α} : repeated p s = ([a], []) ↔ p s = some (a, []) := by
  constructor
  · intro read
    cases first : p s with
    | none =>
        rw [repeated_of_none first] at read
        cases read
    | some found =>
        obtain ⟨a', rest⟩ := found
        rw [repeated_of_some progresses first] at read
        obtain ⟨once, ended⟩ := Prod.mk.inj read
        obtain ⟨same, nothing⟩ := List.cons.inj once
        rw [same, ← repeated_eq_nil (Prod.ext nothing ended)]
  · intro read
    rw [repeated_of_some progresses read]
    rfl

/-- Parts that are read back one after another are read back by a repetition, up to a text
that is refused.  Each of them has a text, so the bound is never reached. -/
theorem repeated_flatMap {p : Reader α} {text : β → List Char} {value : β → α}
    {Follows : List Char → Prop} {rest : List Char} (refused : p rest = none)
    (ends : Follows rest) (follows : ∀ b t, Follows (text b ++ t)) {bs : List β}
    (nonempty : ∀ b ∈ bs, text b ≠ [])
    (reads : ∀ b ∈ bs, ∀ t, Follows t → p (text b ++ t) = some (value b, t)) :
    repeated p (bs.flatMap text ++ rest) = (bs.map value, rest) := by
  have counted : ∀ bound : List Char, (bs.flatMap text ++ rest).length ≤ bound.length →
      rounds p bound (bs.flatMap text ++ rest) = (bs.map value, rest) := by
    induction bs with
    | nil =>
        intro bound _
        cases bound with
        | nil => rfl
        | cons _ bound => simp [rounds, refused]
    | cons b bs ih =>
        obtain ⟨first, others⟩ := List.forall_mem_cons.mp reads
        obtain ⟨some_text, texts⟩ := List.forall_mem_cons.mp nonempty
        intro bound long
        have follow : Follows (bs.flatMap text ++ rest) := by
          cases bs with
          | nil => exact ends
          | cons b' bs =>
              rw [List.flatMap_cons, List.append_assoc]
              exact follows b' _
        have read := first _ follow
        have positive := List.length_pos_iff.mpr some_text
        rw [List.flatMap_cons, List.append_assoc] at long ⊢
        rw [List.length_append] at long
        cases bound with
        | nil =>
            rw [List.length_nil] at long
            omega
        | cons _ bound =>
            rw [List.length_cons] at long
            simp only [rounds, read, ih texts others bound (by omega), List.map_cons]
  exact counted _ (Nat.le_refl _)

theorem many_of_none {p : Reader α} {s : List Char} (refused : p s = none) :
    many p s = some ([], s) := by
  rw [many, repeated_of_none refused]

/-- The first element of many, and the others on the text that it leaves. -/
theorem many_of_some {p : Reader α} (progresses : Progresses p) {s : List Char} {a : α}
    {rest : List Char} (read : p s = some (a, rest)) :
    many p s = (many p rest).map fun found => (a :: found.1, found.2) := by
  rw [many, many, repeated_of_some progresses read]
  rfl

theorem many_eq_nil {p : Reader α} {s rest : List Char}
    (read : many p s = some ([], rest)) : rest = s :=
  repeated_eq_nil (Option.some.inj read)

end RowFilter.Reader
