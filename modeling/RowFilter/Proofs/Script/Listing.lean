import RowFilter.Proofs.Script.Follow

/-!
# Written lists

Elements written with a comma and a blank between them are read back as a list in
parentheses, if each of them is read back before a comma and before the parenthesis that
closes (`listed_append`).
-/

set_option autoImplicit false

namespace RowFilter.Script

open Reader Lexeme Grammar

theorem toList_intercalate_cons (separator text : String) (texts : List String) :
    (separator.intercalate (text :: texts)).toList =
      text.toList ++ texts.flatMap fun t => separator.toList ++ t.toList := by
  induction texts generalizing text with
  | nil => simp [String.intercalate_singleton]
  | cons next texts ih => simp [String.intercalate_cons_cons, ih]

theorem afterGaps_blank {α : Type} (p : Reader α) (s : List Char) :
    afterGaps p (' ' :: s) = afterGaps p s := by
  rw [afterGaps_apply, afterGaps_apply, skipGaps_blank]

/-- A sign is refused where another character comes after the gaps. -/
theorem sign_of_skipGaps {c d : Char} {s t : List Char} (next : skipGaps s = d :: t)
    (other : d ≠ c) : sign c s = none := by
  rw [sign, afterGaps_apply, next]
  simp [other]

theorem sign_of_skipGaps_self {c : Char} {s t : List Char} (next : skipGaps s = c :: t) :
    sign c s = some ((), t) := by
  rw [sign, afterGaps_apply, next]
  simp

theorem sign_cons (c : Char) (s : List Char) (space : isSpace c = false) (slash : c ≠ '/') :
    sign c (c :: s) = some ((), s) :=
  sign_of_skipGaps_self (skipGaps_cons s space slash)

/-- A sign may have a blank before it. -/
theorem sign_blank (c : Char) (s : List Char) (space : isSpace c = false) (slash : c ≠ '/') :
    sign c (' ' :: c :: s) = some ((), s) :=
  (afterGaps_blank (char c) (c :: s)).trans (sign_cons c s space slash)

section Listed

variable {α β : Type} {element : Reader α} {text : β → String} {value : β → α}

/-- The text of an element is read back before a comma and before a closing parenthesis,
but for gaps at its end. -/
structure ReadsElement (element : Reader α) (text : String) (value : α) : Prop where
  gap : ∀ {c t}, c = ',' ∨ c = ')' → gap (text.toList ++ c :: t) = none
  reads : ∀ {c t}, c = ',' ∨ c = ')' → ∃ left,
    element (text.toList ++ c :: t) = some (value, left) ∧ skipGaps left = c :: t

/-- What ends an element begins no gap. -/
theorem skipGaps_closer {c : Char} (closer : c = ',' ∨ c = ')') (t : List Char) :
    skipGaps (c :: t) = c :: t := by
  rcases closer with rfl | rfl <;> exact skipGaps_cons t rfl (by decide)

/-- Elements after the first, each with the comma before it, and what closes the list. -/
def tailText (text : β → String) (xs : List β) (rest : List Char) : List Char :=
  (xs.flatMap fun x => ", ".toList ++ (text x).toList) ++ ')' :: rest

theorem tailText_cons (x : β) (xs : List β) (rest : List Char) :
    tailText text (x :: xs) rest = ',' :: ' ' :: ((text x).toList ++ tailText text xs rest) := by
  simp [tailText]

theorem tailText_head (xs : List β) (rest : List Char) :
    ∃ c t, tailText text xs rest = c :: t ∧ (c = ',' ∨ c = ')') := by
  cases xs with
  | nil => exact ⟨')', rest, rfl, .inr rfl⟩
  | cons x xs => exact ⟨',', _, tailText_cons x xs rest, .inl rfl⟩

/-- The elements after the first one are read up to the closing parenthesis, whatever gaps
stand before each mark. -/
theorem many_tailText
    (parallel : Parallel true (fun s t => s = t ∧ True) (fun s t => s = t ∧ True) element element)
    {xs : List β} (reads : ∀ x ∈ xs, ReadsElement element (text x) (value x))
    {rest left : List Char} (next : skipGaps left = tailText text xs rest) :
    ∃ last, many (do (do sign ','; gaps : Reader Unit); element) left =
      some (xs.map value, last) ∧ skipGaps last = ')' :: rest := by
  have progresses : Progresses (do (do sign ','; gaps : Reader Unit); element : Reader α) :=
    Parallel.progresses_of_equal <|
      ((equalFrame.sign (d := 0) rfl).bind fun _ => equalFrame.gaps (d := 0)).bind fun _ => parallel
  induction xs generalizing left with
  | nil =>
      have noComma : sign ',' left = none := sign_of_skipGaps next (by decide)
      exact ⟨left, many_of_none (bind_of_none (bind_of_none noComma)), next⟩
  | cons x xs ih =>
      obtain ⟨c, t, tail, closer⟩ := @tailText_head _ text xs rest
      obtain ⟨first, others⟩ := List.forall_mem_cons.mp reads
      obtain ⟨after, read, next'⟩ := first.reads (t := t) closer
      rw [tailText_cons] at next
      have separator : (do sign ','; gaps : Reader Unit) left =
          some ((), (text x).toList ++ c :: t) := by
        rw [bind_of_some (sign_of_skipGaps_self next), gaps_apply, skipGaps_blank, tail,
          skipGaps_of_none (first.gap closer)]
      have step : (do (do sign ','; gaps : Reader Unit); element : Reader α) left =
          some (value x, after) := by
        rw [bind_of_some separator, read]
      obtain ⟨last, steps, closes⟩ := ih others (next'.trans tail.symm)
      refine ⟨last, ?_, closes⟩
      rw [many_of_some progresses step, steps]
      rfl

/-- **A written list is read back.** -/
theorem listed_append
    (parallel : Parallel true (fun s t => s = t ∧ True) (fun s t => s = t ∧ True) element element)
    (empty : ∀ rest, element (')' :: rest) = none) {xs : List β}
    (reads : ∀ x ∈ xs, ReadsElement element (text x) (value x)) (rest : List Char) :
    listed element ('(' :: ((", ".intercalate (xs.map text)).toList ++ ')' :: rest)) =
      some (xs.map value, rest) := by
  obtain ⟨last, listing, closes⟩ : ∃ last, separated element (do sign ','; gaps)
      (skipGaps ((", ".intercalate (xs.map text)).toList ++ ')' :: rest)) =
        some (xs.map value, last) ∧ skipGaps last = ')' :: rest := by
    have closing : skipGaps (')' :: rest) = ')' :: rest := skipGaps_closer (.inr rfl) rest
    cases xs with
    | nil =>
        refine ⟨')' :: rest, ?_, closing⟩
        rw [List.map_nil, String.intercalate_nil, String.toList_empty, List.nil_append, closing]
        exact orElse_of_none (bind_of_none (empty rest))
    | cons x xs =>
        obtain ⟨c, t, tail, closer⟩ := @tailText_head _ text xs rest
        obtain ⟨first, others⟩ := List.forall_mem_cons.mp reads
        have whole : (", ".intercalate ((x :: xs).map text)).toList ++ ')' :: rest =
            (text x).toList ++ c :: t := by
          rw [List.map_cons, toList_intercalate_cons, List.flatMap_map, List.append_assoc, ← tail]
          rfl
        obtain ⟨left, read, next⟩ := first.reads (t := t) closer
        obtain ⟨last, steps, closes⟩ := many_tailText parallel others (next.trans tail.symm)
        refine ⟨last, ?_, closes⟩
        rw [whole, skipGaps_of_none (first.gap closer)]
        refine orElse_of_some ((bind_of_some read).trans ?_)
        rw [bind_of_some steps]
        rfl
  have noComma : sign ',' last = none := sign_of_skipGaps closes (by decide)
  rw [listed, bind_of_some (char_self _ _), bind_of_some (gaps_apply _), bind_of_some listing,
    bind_of_some (optional_of_none noComma), bind_of_some (sign_of_skipGaps_self closes)]
  rfl

end Listed

end RowFilter.Script
