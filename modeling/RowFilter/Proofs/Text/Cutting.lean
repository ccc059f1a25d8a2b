import RowFilter.Proofs.Text.Reader
import Mathlib.Data.List.Infix

/-!
# Readers and the beginning of a text

A text is cut in two, and a reader is given the beginning alone instead of the whole.
If it did not need the rest, it should read the same.  That is not so for every reader
and for every cut: the cut may go through a part of the text that is read as one, and a
reader may refuse the whole text only because of something in the rest that it looks at
and does not take.

So cuts are admitted at certain places only, given by a relation `Reach` between a text
and the places in it.  A reader is local (`Local`) if, for cuts at such places, it reads
from the beginning what it reads from the whole, as long as it does not go on into the
rest, and refuses the beginning if it refuses the whole.  Where it goes on into the rest,
nothing is said about what it reads from the beginning.

Local readers are not closed under sequence: the first may go on into the rest and leave
the second something to refuse.  Sequences of three kinds are local all the same.  The
second reader may never refuse (`Total`).  The first may be one that, unless it reads the
same from the beginning, refuses it or uses it up (`Edge`), and the second one that
refuses what is used up (`Solid`).  In general it has to be excluded that the second
reader refuses after the rest and succeeds within the beginning (`Local.bind`).

What "used up" means is the parameter `Spent`.  A second relation, `Path`, is kept by
everything that is read; it is at least as strong as `Reach`.
-/

set_option autoImplicit false

namespace RowFilter.Reader

variable {α β : Type} {Reach Path : List Char → List Char → Prop} {Spent : List Char → Prop}
  {r : List Char}

/-! ## Places of a cut -/

/-- The laws of the places where a text may be cut and of what is kept in reading. -/
structure Cut (Reach Path : List Char → List Char → Prop) (Spent : List Char → Prop) :
    Prop where
  refl : ∀ s, Path s s
  trans : ∀ {s t u}, Path s t → Path t u → Path s u
  reach : ∀ {s t}, Path s t → Reach s t
  suffix : ∀ {s t}, Reach s t → t <:+ s
  linear : ∀ {s t u}, Reach s t → Reach s u → u <:+ t → Reach t u
  spent : ∀ {s t}, Reach s t → Spent s → Spent t
  nil : Spent []

/-- The reader reads the beginning as it reads the whole text. -/
def Same (r : List Char) (p : Reader α) (u : List Char) : Prop :=
  p (u ++ r) = (p u).map fun found => (found.1, found.2 ++ r)

/-- What is read from the whole without the rest is read from the beginning, and what is
refused in the whole is refused in the beginning. -/
structure Local (Reach Path : List Char → List Char → Prop) (r : List Char) (p : Reader α) :
    Prop where
  path : ∀ ⦃s a rest⦄, p s = some (a, rest) → Path s rest
  stays : ∀ ⦃u a v⦄, Reach (u ++ r) r → p (u ++ r) = some (a, v ++ r) → p u = some (a, v)
  refuses : ∀ ⦃u⦄, Reach (u ++ r) r → p (u ++ r) = none → p u = none

/-- A local reader that takes something from every text that it does not refuse, and
refuses a text that is used up. -/
structure Solid (Reach Path : List Char → List Char → Prop) (Spent : List Char → Prop)
    (r : List Char) (p : Reader α) : Prop extends Local Reach Path r p where
  takes : Progresses p
  empty : ∀ ⦃u⦄, Spent u → p u = none

/-- A local reader that refuses no text. -/
structure Total (Reach Path : List Char → List Char → Prop) (r : List Char) (p : Reader α) :
    Prop extends Local Reach Path r p where
  total : ∀ s, p s ≠ none

/-- A reader that reads the beginning as the whole, unless it has reached the rest in the
whole, and has used up the beginning or refuses it. -/
structure Edge (Reach Path : List Char → List Char → Prop) (Spent : List Char → Prop)
    (r : List Char) (p : Reader α) : Prop where
  path : ∀ ⦃s a rest⦄, p s = some (a, rest) → Path s rest
  edge : ∀ ⦃u⦄, Reach (u ++ r) r → Same r p u ∨
    (∀ ⦃a rest⦄, p (u ++ r) = some (a, rest) → rest.length ≤ r.length) ∧
      ∀ ⦃a v⦄, p u = some (a, v) → Spent v

/-- A reader that refuses the beginning if it goes on into the rest. -/
structure Firm (Reach Path : List Char → List Char → Prop) (Spent : List Char → Prop)
    (r : List Char) (p : Reader α) : Prop extends Solid Reach Path Spent r p where
  firm : ∀ ⦃u a rest⦄, Reach (u ++ r) r → p (u ++ r) = some (a, rest) →
    rest.length < r.length → p u = none

/-- A reader that reads every beginning as the whole, unless the beginning is used up
already, which it then refuses. -/
structure Late (Reach Path : List Char → List Char → Prop) (Spent : List Char → Prop)
    (r : List Char) (p : Reader α) : Prop where
  path : ∀ ⦃s a rest⦄, p s = some (a, rest) → Path s rest
  takes : Progresses p
  empty : ∀ ⦃u⦄, Spent u → p u = none
  same : ∀ ⦃u⦄, Reach (u ++ r) r → ¬ Spent u → Same r p u
  beyond : ∀ ⦃u a rest⦄, Reach (u ++ r) r → Spent u → p (u ++ r) = some (a, rest) →
    rest.length < r.length

/-- A place in a text with a rest is in front of the rest, or in it. -/
theorem Cut.within_or_beyond (C : Cut Reach Path Spent) {u rest : List Char}
    (place : Reach (u ++ r) r) (path : Path (u ++ r) rest) :
    (∃ v, rest = v ++ r ∧ Reach (v ++ r) r) ∨ rest.length < r.length := by
  rcases Nat.lt_or_ge rest.length r.length with beyond | within
  · exact .inr beyond
  · have reached := C.reach path
    have suffix := List.suffix_of_suffix_length_le (C.suffix place) (C.suffix reached) within
    have place' := C.linear reached place suffix
    obtain ⟨v, rfl⟩ := suffix
    exact .inl ⟨v, rfl, place'⟩

/-- A place that is left in front of the rest is a place for the same cut. -/
theorem Cut.place_of_path (C : Cut Reach Path Spent) {u v : List Char}
    (place : Reach (u ++ r) r) (path : Path (u ++ r) (v ++ r)) : Reach (v ++ r) r :=
  C.linear (C.reach path) place (List.suffix_append v r)

theorem Cut.length_le (C : Cut Reach Path Spent) {s t : List Char} (path : Path s t) :
    t.length ≤ s.length :=
  (C.suffix (C.reach path)).length_le

theorem Cut.path_repeated (C : Cut Reach Path Spent) {p : Reader α} (takes : Progresses p)
    (path : ∀ ⦃s a rest⦄, p s = some (a, rest) → Path s rest) (s : List Char) :
    Path s (repeated p s).2 := by
  cases read : p s with
  | none =>
      rw [repeated_of_none read]
      exact C.refl s
  | some found =>
      rw [repeated_of_some takes read]
      exact C.trans (path read) (path_repeated C takes path found.2)
termination_by s.length
decreasing_by exact takes read

theorem Same.of_none {p : Reader α} {u : List Char} (whole : p (u ++ r) = none)
    (refused : p u = none) : Same r p u := by
  rw [Same, whole, refused, Option.map_none]

theorem Same.of_some {p : Reader α} {u v : List Char} {a : α}
    (whole : p (u ++ r) = some (a, v ++ r)) (read : p u = some (a, v)) : Same r p u := by
  rw [Same, whole, read, Option.map_some]

theorem Same.eq_some {p : Reader α} {u rest : List Char} {a : α} (same : Same r p u)
    (whole : p (u ++ r) = some (a, rest)) : ∃ v, rest = v ++ r ∧ p u = some (a, v) := by
  rw [Same, whole] at same
  obtain ⟨⟨a', v⟩, read, found⟩ := Option.map_eq_some_iff.mp same.symm
  cases found
  exact ⟨v, rfl, read⟩

theorem Same.eq_none {p : Reader α} {u : List Char} (same : Same r p u)
    (whole : p (u ++ r) = none) : p u = none := by
  rw [Same, whole] at same
  exact Option.map_eq_none_iff.mp same.symm

theorem Same.append_of_none {p : Reader α} {u : List Char} (same : Same r p u)
    (refused : p u = none) : p (u ++ r) = none := by
  rw [same, refused, Option.map_none]

theorem Same.append_of_some {p : Reader α} {u v : List Char} {a : α} (same : Same r p u)
    (read : p u = some (a, v)) : p (u ++ r) = some (a, v ++ r) := by
  rw [same, read, Option.map_some]

theorem Same.bind {p : Reader α} {f : α → Reader β} {u : List Char} (first : Same r p u)
    (second : ∀ a v, p u = some (a, v) → Same r (f a) v) : Same r (p >>= f) u := by
  cases read : p u with
  | none => exact .of_none (bind_of_none (first.append_of_none read)) (bind_of_none read)
  | some found =>
      rw [Same, bind_of_some read, bind_of_some (first.append_of_some read)]
      exact second _ _ read

theorem Same.map {p : Reader α} (f : α → β) {u : List Char} (same : Same r p u) :
    Same r (f <$> p) u :=
  same.bind fun _ _ _ => rfl

theorem Same.orElse {p : Reader α} {q : Unit → Reader α} {u : List Char} (first : Same r p u)
    (second : Same r (q ()) u) : Same r (HOrElse.hOrElse p q) u := by
  rw [Same, orElse_apply, orElse_apply, first, second]
  cases p u <;> rfl

theorem Same.optional {p : Reader α} {u : List Char} (same : Same r p u) :
    Same r (optional p) u :=
  (same.map some).orElse rfl

/-! ## Local readers in sequence and choice -/

namespace Local

variable {p : Reader α} {f : α → Reader β}

theorem weaken {Path' : List Char → List Char → Prop} (before : Local Reach Path r p)
    (le : ∀ ⦃s t⦄, Path s t → Path' s t) : Local Reach Path' r p where
  path _ _ _ read := le (before.path read)
  stays := before.stays
  refuses := before.refuses

/-- A sequence is local unless the second reader refuses what the first leaves of the
rest and reads on in the beginning. -/
theorem bind (C : Cut Reach Path Spent) (first : Local Reach Path r p)
    (second : ∀ a, Local Reach Path r (f a))
    (backs : ∀ ⦃u a rest b v⦄, Reach (u ++ r) r → p (u ++ r) = some (a, rest) →
      rest.length < r.length → f a rest = none → p u = some (b, v) → f b v = none) :
    Local Reach Path r (p >>= f) where
  path s b rest read := by
    obtain ⟨a, middle, read, read'⟩ := bind_eq_some read
    exact C.trans (first.path read) ((second a).path read')
  stays u b w place read := by
    obtain ⟨a, middle, read, read'⟩ := bind_eq_some read
    rcases C.within_or_beyond place (first.path read) with ⟨v, rfl, place'⟩ | beyond
    · rw [bind_of_some (first.stays place read)]
      exact (second a).stays place' read'
    · have shorter := C.length_le ((second a).path read')
      rw [List.length_append] at shorter
      omega
  refuses u place refused := by
    cases whole : p (u ++ r) with
    | none => exact bind_of_none (first.refuses place whole)
    | some found =>
        obtain ⟨a, rest⟩ := found
        rw [bind_of_some whole] at refused
        rcases C.within_or_beyond place (first.path whole) with ⟨v, rfl, place'⟩ | beyond
        · rw [bind_of_some (first.stays place whole)]
          exact (second a).refuses place' refused
        · cases read : p u with
          | none => exact bind_of_none read
          | some found =>
              rw [bind_of_some read]
              exact backs place whole beyond refused read

theorem orElse {q : Unit → Reader α} (first : Local Reach Path r p)
    (second : Local Reach Path r (q ())) : Local Reach Path r (HOrElse.hOrElse p q) where
  path s a rest read := by
    rcases orElse_eq_some read with read | read
    · exact first.path read
    · exact second.path read
  stays u a v place read := by
    cases whole : p (u ++ r) with
    | none =>
        rw [orElse_of_none whole] at read
        rw [orElse_of_none (first.refuses place whole)]
        exact second.stays place read
    | some found =>
        rw [orElse_of_some whole] at read
        exact orElse_of_some (first.stays place (whole.trans read))
  refuses u place refused := by
    rw [orElse_apply, Option.or_eq_none_iff] at refused ⊢
    exact ⟨first.refuses place refused.1, second.refuses place refused.2⟩

end Local

/-! ## Readers that never refuse -/

namespace Total

theorem pure (C : Cut Reach Path Spent) (a : α) : Total Reach Path r (pure a : Reader α) where
  path s _ _ read := by
    cases read
    exact C.refl s
  stays u _ v _ read := by
    simp only [pure_apply, Option.some.injEq, Prod.mk.injEq, List.append_cancel_right_eq]
      at read ⊢
    exact read
  refuses _ _ refused := by cases refused
  total _ refused := by cases refused

theorem bind (C : Cut Reach Path Spent) {p : Reader α} {f : α → Reader β}
    (first : Total Reach Path r p) (second : ∀ a, Total Reach Path r (f a)) :
    Total Reach Path r (p >>= f) where
  toLocal := first.toLocal.bind C (fun a => (second a).toLocal) fun _ a rest _ _ _ _ _ refused =>
    absurd refused ((second a).total rest)
  total s refused := by
    rw [bind_apply, Option.bind_eq_none_iff] at refused
    cases read : p s with
    | none => exact first.total s read
    | some found => exact (second found.1).total found.2 (refused found read)

end Total

/-! ## Readers that take something -/

namespace Solid

variable {p : Reader α} {f : α → Reader β}

theorem refuse : Solid Reach Path Spent r (Reader.refuse : Reader α) where
  path _ _ _ read := by cases read
  stays _ _ _ _ read := by cases read
  refuses _ _ _ := rfl
  takes _ _ _ read := by cases read
  empty _ _ := rfl

theorem bind (C : Cut Reach Path Spent) (first : Solid Reach Path Spent r p)
    (second : ∀ a, Total Reach Path r (f a)) : Solid Reach Path Spent r (p >>= f) where
  toLocal := first.toLocal.bind C (fun a => (second a).toLocal) fun _ a rest _ _ _ _ _ refused =>
    absurd refused ((second a).total rest)
  takes s b rest read := by
    obtain ⟨a, middle, read, read'⟩ := bind_eq_some read
    exact Nat.lt_of_le_of_lt (C.length_le ((second a).path read')) (first.takes read)
  empty _ spent := bind_of_none (first.empty spent)

theorem map (C : Cut Reach Path Spent) (f : α → β) (solid : Solid Reach Path Spent r p) :
    Solid Reach Path Spent r (f <$> p) :=
  solid.bind C fun a => .pure C (f a)

theorem orElse {q : Unit → Reader α} (first : Solid Reach Path Spent r p)
    (second : Solid Reach Path Spent r (q ())) :
    Solid Reach Path Spent r (HOrElse.hOrElse p q) where
  toLocal := first.toLocal.orElse second.toLocal
  takes s a rest read := by
    rcases orElse_eq_some read with read | read
    · exact first.takes read
    · exact second.takes read
  empty u spent := by rw [orElse_of_none (first.empty spent), second.empty spent]

/-- A reader that agrees with solid readers for texts of any bounded length. -/
theorem of_bounded {within : Nat → Reader α}
    (agrees : ∀ {n s}, s.length < n → within n s = p s)
    (bounded : ∀ n, Solid Reach Path Spent r (within n)) : Solid Reach Path Spent r p where
  path s _ _ read := (bounded (s.length + 1)).path ((agrees (Nat.lt_succ_self _)).trans read)
  stays u a v place read := by
    have beginning := (bounded _).stays place ((agrees (Nat.lt_succ_self _)).trans read)
    rwa [agrees (by rw [List.length_append]; omega)] at beginning
  refuses u place refused := by
    have beginning := (bounded _).refuses place ((agrees (Nat.lt_succ_self _)).trans refused)
    rwa [agrees (by rw [List.length_append]; omega)] at beginning
  takes s _ _ read := (bounded (s.length + 1)).takes ((agrees (Nat.lt_succ_self _)).trans read)
  empty u spent := by
    rw [← agrees (Nat.lt_succ_self u.length)]
    exact (bounded _).empty spent

/-- With nothing to be read instead, a reader never refuses. -/
theorem orElse_pure (C : Cut Reach Path Spent) (solid : Solid Reach Path Spent r p) (a : α) :
    Total Reach Path r (p <|> Pure.pure a) where
  toLocal := solid.toLocal.orElse (Total.pure C a).toLocal
  total s refused := by
    rw [orElse_apply, Option.or_eq_none_iff] at refused
    cases refused.2

theorem optional (C : Cut Reach Path Spent) (solid : Solid Reach Path Spent r p) :
    Total Reach Path r (optional p) :=
  (solid.map C some).orElse_pure C none

/-- A repetition that does not need the rest takes the same rounds without it. -/
theorem repeated_append (C : Cut Reach Path Spent) (solid : Solid Reach Path Spent r p)
    {u v : List Char} {elements : List α} (place : Reach (u ++ r) r)
    (whole : repeated p (u ++ r) = (elements, v ++ r)) : repeated p u = (elements, v) := by
  cases read : p (u ++ r) with
  | none =>
      rw [repeated_of_none read, Prod.mk.injEq, List.append_cancel_right_eq] at whole
      rw [repeated_of_none (solid.refuses place read), whole.1, whole.2]
  | some found =>
      obtain ⟨a, rest⟩ := found
      rw [repeated_of_some solid.takes read, Prod.mk.injEq] at whole
      obtain ⟨rfl, left⟩ := whole
      rcases C.within_or_beyond place (solid.path read) with ⟨w, rfl, place'⟩ | beyond
      · have read' := solid.stays place read
        have others : repeated p w = ((repeated p (w ++ r)).1, v) :=
          repeated_append C solid place' (Prod.ext rfl left)
        rw [repeated_of_some solid.takes read', others]
      · have shorter := C.length_le (C.path_repeated solid.takes solid.path rest)
        rw [left, List.length_append] at shorter
        omega
termination_by u.length
decreasing_by exact solid.takes read'

theorem many (C : Cut Reach Path Spent) (solid : Solid Reach Path Spent r p) :
    Total Reach Path r (many p) where
  path s elements rest read := by
    have left : (repeated p s).2 = rest := congrArg Prod.snd (Option.some.inj read)
    rw [← left]
    exact C.path_repeated solid.takes solid.path s
  stays u _ v place read := congrArg some (solid.repeated_append C place (Option.some.inj read))
  refuses _ _ refused := by cases refused
  total _ refused := by cases refused

theorem separated {separator : Reader Unit} (C : Cut Reach Path Spent)
    (element : Solid Reach Path Spent r p)
    (further : Solid Reach Path Spent r (do separator; p)) :
    Total Reach Path r (separated p separator) :=
  (element.bind C fun _ => (further.many C).bind C fun _ => .pure C _).orElse_pure C []

end Solid

/-! ## Readers that may use up the beginning -/

namespace Edge

variable {p : Reader α} {f : α → Reader β}

theorem pure (C : Cut Reach Path Spent) (a : α) :
    Edge Reach Path Spent r (pure a : Reader α) where
  path := (Total.pure (r := r) C a).path
  edge _ _ := .inl rfl

/-- After a reader that may use up the beginning, one that refuses it then. -/
theorem bind (C : Cut Reach Path Spent) (first : Edge Reach Path Spent r p)
    (second : ∀ a, Solid Reach Path Spent r (f a)) : Solid Reach Path Spent r (p >>= f) where
  path s b rest read := by
    obtain ⟨a, middle, read, read'⟩ := bind_eq_some read
    exact C.trans (first.path read) ((second a).path read')
  stays u b w place read := by
    obtain ⟨a, middle, read, read'⟩ := bind_eq_some read
    rcases first.edge place with same | ⟨reached, _⟩
    · obtain ⟨v, rfl, beginning⟩ := same.eq_some read
      rw [bind_of_some beginning]
      exact (second a).stays (C.place_of_path place (first.path read)) read'
    · have near := reached read
      have shorter := (second a).takes read'
      rw [List.length_append] at shorter
      omega
  refuses u place refused := by
    rcases first.edge place with same | ⟨_, used⟩
    · cases read : p u with
      | none => exact bind_of_none read
      | some found =>
          have whole := same.append_of_some read
          rw [bind_of_some whole] at refused
          rw [bind_of_some read]
          exact (second _).refuses (C.place_of_path place (first.path whole)) refused
    · cases read : p u with
      | none => exact bind_of_none read
      | some found =>
          rw [bind_of_some read]
          exact (second _).empty (used read)
  takes s b rest read := by
    obtain ⟨a, middle, read, read'⟩ := bind_eq_some read
    exact Nat.lt_of_lt_of_le ((second a).takes read') (C.length_le (first.path read))
  empty u spent := by
    cases read : p u with
    | none => exact bind_of_none read
    | some found =>
        rw [bind_of_some read]
        exact (second _).empty (C.spent (C.reach (first.path read)) spent)

theorem bind_edge (C : Cut Reach Path Spent) (first : Edge Reach Path Spent r p)
    (second : ∀ a, Edge Reach Path Spent r (f a)) : Edge Reach Path Spent r (p >>= f) where
  path s b rest read := by
    obtain ⟨a, middle, read, read'⟩ := bind_eq_some read
    exact C.trans (first.path read) ((second a).path read')
  edge u place := by
    have spent {b : β} {w : List Char} (left : ∀ ⦃a v⦄, p u = some (a, v) → Spent v)
        (read : (p >>= f) u = some (b, w)) : Spent w := by
      obtain ⟨a, v, read, read'⟩ := bind_eq_some read
      exact C.spent (C.reach ((second a).path read')) (left read)
    rcases first.edge place with same | ⟨reached, used⟩
    · cases read : p u with
      | none => exact .inl (same.bind fun _ _ read' => by rw [read] at read'; cases read')
      | some found =>
          have whole := same.append_of_some read
          have place' := C.place_of_path place (first.path whole)
          rcases (second found.1).edge place' with same' | ⟨reached, used⟩
          · refine .inl (same.bind fun a v read' => ?_)
            rw [read] at read'
            cases read'
            exact same'
          · refine .inr ⟨fun b rest read' => ?_, fun b w read' => ?_⟩
            · rw [bind_of_some whole] at read'
              exact reached read'
            · rw [bind_of_some read] at read'
              exact used read'
    · refine .inr ⟨fun b rest read => ?_, fun b w => spent used⟩
      obtain ⟨a, middle, read, read'⟩ := bind_eq_some read
      exact (C.length_le ((second a).path read')).trans (reached read)

end Edge

/-! ## Readers that stay in the beginning -/

namespace Firm

variable {p : Reader α} {f : α → Reader β}

theorem edge (C : Cut Reach Path Spent) (firm : Firm Reach Path Spent r p) :
    Edge Reach Path Spent r p where
  path := firm.path
  edge u place := by
    cases whole : p (u ++ r) with
    | none => exact .inl (.of_none whole (firm.refuses place whole))
    | some found =>
        obtain ⟨a, rest⟩ := found
        rcases C.within_or_beyond place (firm.path whole) with ⟨v, rfl, _⟩ | beyond
        · exact .inl (.of_some whole (firm.stays place whole))
        · refine .inr ⟨fun a rest read => ?_, fun a v read => ?_⟩
          · cases read
            exact beyond.le
          · rw [firm.firm place whole beyond] at read
            cases read

theorem bind (C : Cut Reach Path Spent) (first : Firm Reach Path Spent r p)
    (second : ∀ a, Firm Reach Path Spent r (f a)) : Firm Reach Path Spent r (p >>= f) where
  toSolid := (first.edge C).bind C fun a => (second a).toSolid
  firm u b rest place read beyond := by
    obtain ⟨a, middle, read, read'⟩ := bind_eq_some read
    rcases C.within_or_beyond place (first.path read) with ⟨v, rfl, place'⟩ | beyond'
    · rw [bind_of_some (first.stays place read)]
      exact (second a).firm place' read' beyond
    · exact bind_of_none (first.firm place read beyond')

end Firm

/-! ## Readers that refuse a beginning only if it is used up -/

namespace Late

variable {p : Reader α} {f : α → Reader β}

theorem solid (late : Late Reach Path Spent r p) : Solid Reach Path Spent r p where
  path := late.path
  stays u a v place read := by
    by_cases spent : Spent u
    · have beyond := late.beyond place spent read
      rw [List.length_append] at beyond
      omega
    · obtain ⟨v', left, beginning⟩ := (late.same place spent).eq_some read
      rwa [List.append_cancel_right left]
  refuses u place refused := by
    by_cases spent : Spent u
    · exact late.empty spent
    · exact (late.same place spent).eq_none refused
  takes := late.takes
  empty := late.empty

theorem firm (late : Late Reach Path Spent r p) : Firm Reach Path Spent r p where
  toSolid := late.solid
  firm u a rest place read beyond := by
    by_cases spent : Spent u
    · exact late.empty spent
    · obtain ⟨v, rfl, _⟩ := (late.same place spent).eq_some read
      rw [List.length_append] at beyond
      omega

theorem edge (C : Cut Reach Path Spent) (late : Late Reach Path Spent r p) :
    Edge Reach Path Spent r p :=
  late.firm.edge C

theorem orElse_firm {q : Unit → Reader α} (first : Late Reach Path Spent r p)
    (second : Firm Reach Path Spent r (q ())) :
    Firm Reach Path Spent r (HOrElse.hOrElse p q) where
  toSolid := first.solid.orElse second.toSolid
  firm u a rest place read beyond := by
    cases whole : p (u ++ r) with
    | none =>
        rw [orElse_of_none whole] at read
        rw [orElse_of_none (first.solid.refuses place whole)]
        exact second.firm place read beyond
    | some found =>
        rw [orElse_of_some whole] at read
        by_cases spent : Spent u
        · rw [orElse_of_none (first.empty spent), second.empty spent]
        · obtain ⟨v, rfl, _⟩ := (first.same place spent).eq_some (whole.trans read)
          rw [List.length_append] at beyond
          omega

theorem orElse {q : Unit → Reader α} (first : Late Reach Path Spent r p)
    (second : Late Reach Path Spent r (q ())) :
    Late Reach Path Spent r (HOrElse.hOrElse p q) where
  path := (first.solid.orElse second.solid).path
  takes := (first.solid.orElse second.solid).takes
  empty := (first.solid.orElse second.solid).empty
  same _ place fresh := (first.same place fresh).orElse (second.same place fresh)
  beyond u a rest place spent read := by
    rcases orElse_eq_some read with read | read
    · exact first.beyond place spent read
    · exact second.beyond place spent read

/-- What goes on with a value of the first reader without looking at the text. -/
theorem bind_same (C : Cut Reach Path Spent) (first : Late Reach Path Spent r p)
    (path : ∀ ⦃a s b rest⦄, f a s = some (b, rest) → Path s rest)
    (same : ∀ ⦃a v⦄, Reach (v ++ r) r → Same r (f a) v) : Late Reach Path Spent r (p >>= f) where
  path s b rest read := by
    obtain ⟨a, middle, read, read'⟩ := bind_eq_some read
    exact C.trans (first.path read) (path read')
  takes s b rest read := by
    obtain ⟨a, middle, read, read'⟩ := bind_eq_some read
    exact Nat.lt_of_le_of_lt (C.length_le (path read')) (first.takes read)
  empty _ spent := bind_of_none (first.empty spent)
  same u place fresh := by
    have begins := first.same place fresh
    exact begins.bind fun a v read =>
      same (C.place_of_path place (first.path (begins.append_of_some read)))
  beyond u b rest place spent read := by
    obtain ⟨a, middle, read, read'⟩ := bind_eq_some read
    exact Nat.lt_of_le_of_lt (C.length_le (path read')) (first.beyond place spent read)

theorem map (C : Cut Reach Path Spent) (f : α → β) (late : Late Reach Path Spent r p) :
    Late Reach Path Spent r (f <$> p) :=
  late.bind_same C (fun a s _ _ read => by cases read; exact C.refl s) fun _ _ _ => rfl

/-- If nothing has to be read, a beginning may be used up and nothing read from it. -/
theorem optional (C : Cut Reach Path Spent) (late : Late Reach Path Spent r p) :
    Edge Reach Path Spent r (optional p) where
  path := (late.solid.optional C).path
  edge u place := by
    by_cases spent : Spent u
    · cases whole : p (u ++ r) with
      | none => exact .inl (Same.of_none whole (late.empty spent)).optional
      | some found =>
          refine .inr ⟨fun a rest read => ?_, fun a v read => ?_⟩
          · rw [optional_of_some whole] at read
            cases read
            exact (late.beyond place spent whole).le
          · rw [optional_of_none (late.empty spent)] at read
            cases read
            exact spent
    · exact .inl (late.same place spent).optional

end Late

/-! ## Words and the characters after them -/

/-- A reader that takes at least a number of characters and looks at most one further. -/
structure Token (k : Nat) (p : Reader α) : Prop where
  takes : ∀ ⦃s a rest⦄, p s = some (a, rest) → rest.length + k ≤ s.length
  looks : ∀ ⦃u⦄ (r : List Char), k < u.length → Same r p u

namespace Token

variable {k : Nat} {p : Reader α}

theorem orElse {q : Unit → Reader α} (first : Token k p) (second : Token k (q ())) :
    Token k (HOrElse.hOrElse p q) where
  takes s a rest read := by
    rcases orElse_eq_some read with read | read
    · exact first.takes read
    · exact second.takes read
  looks _ r far := (first.looks r far).orElse (second.looks r far)

theorem map {f : α → β} (token : Token k p) : Token k (p >>= fun a => Pure.pure (f a)) where
  takes s b rest read := by
    obtain ⟨a, middle, read, last⟩ := bind_eq_some read
    cases last
    exact token.takes read
  looks u r far := (token.looks r far).bind fun _ _ _ => rfl

/-- Where a token is not read as in the whole, it takes all there is. -/
theorem same_or_spent (token : Token k p) (u : List Char) : Same r p u ∨
    (∀ ⦃a rest⦄, p (u ++ r) = some (a, rest) → rest.length ≤ r.length) ∧
      ∀ ⦃a v⦄, p u = some (a, v) → v = [] := by
  rcases Nat.lt_or_ge k u.length with far | near
  · exact .inl (token.looks r far)
  · refine .inr ⟨fun a rest read => ?_, fun a v read => ?_⟩
    · have shorter := token.takes read
      rw [List.length_append] at shorter
      omega
    · have shorter := token.takes read
      exact List.length_eq_zero_iff.mp (by omega)

theorem edge (C : Cut Reach Path Spent) (token : Token k p)
    (path : ∀ ⦃s a rest⦄, p s = some (a, rest) → Path s rest) : Edge Reach Path Spent r p where
  path := path
  edge u _ := (token.same_or_spent u).imp_right fun ⟨near, used⟩ =>
    ⟨near, fun _ _ read => used read ▸ C.nil⟩

end Token

/-- A word that is read is read with any text behind it. -/
theorem word_same_of_refused {w : String} {u : List Char}
    (refused : word w u = none → word w (u ++ r) = none) : Same r (word w) u := by
  cases read : word w u with
  | some found =>
      have append : u ++ r = w.toList ++ (found.2 ++ r) := by
        rw [word_eq_some_iff.mp read, List.append_assoc]
      rw [Same, append, word_append, read, Option.map_some]
  | none => exact .of_none (refused read) read

/-- A word is read from the beginning of a text that is as long as the word. -/
theorem word_same {w : String} {u : List Char} (long : w.toList.length ≤ u.length) :
    Same r (word w) u := by
  refine word_same_of_refused fun read => word_eq_none fun rest spelled => ?_
  rcases List.append_eq_append_iff.mp spelled with ⟨v, longer, _⟩ | ⟨v, rfl, _⟩
  · have equal := congrArg List.length longer
    rw [List.length_append] at equal
    have empty : v = [] := List.length_eq_zero_iff.mp (by omega)
    rw [empty, List.append_nil] at longer
    have found : word w u = some ((), []) :=
      word_eq_some_iff.mpr (by rw [List.append_nil, longer])
    rw [read] at found
    cases found
  · rw [word_append] at read
    cases read

theorem word_takes {w : String} ⦃s : List Char⦄ ⦃found : Unit⦄ ⦃rest : List Char⦄
    (read : word w s = some (found, rest)) : rest.length + w.toList.length = s.length := by
  rw [word_eq_some_iff.mp read, List.length_append, Nat.add_comm]

theorem token_word {k : Nat} {w : String} (least : k ≤ w.toList.length)
    (most : w.toList.length ≤ k + 1) : Token k (word w) where
  takes s found rest read := by
    have shorter := word_takes read
    omega
  looks _ _ far := word_same (by omega)

theorem solid_word {w : String} (nonempty : w ≠ "")
    (path : ∀ s, Path (w.toList ++ s) s) (empty : ∀ ⦃u⦄, Spent u → word w u = none) :
    Solid Reach Path Spent r (word w) where
  path s found rest read := by
    rw [word_eq_some_iff.mp read]
    exact path rest
  stays u found v _ read := by
    apply word_eq_some_iff.mpr
    refine List.append_cancel_right (?_ : _ ++ r = _ ++ r)
    rw [word_eq_some_iff.mp read, List.append_assoc]
  refuses u _ refused := by
    cases read : word w u with
    | none => rfl
    | some found =>
        rw [word_eq_some_iff.mp read, List.append_assoc, word_append] at refused
        cases refused
  takes s found rest read := by
    have positive : 0 < w.toList.length :=
      List.length_pos_iff.mpr fun nil => nonempty (String.toList_eq_nil_iff.mp nil)
    have shorter := word_takes read
    omega
  empty := empty

theorem satisfying_same {accepts : Char → Bool} {u : List Char} (fresh : u ≠ []) :
    Same r (satisfying accepts) u := by
  cases u with
  | nil => exact absurd rfl fresh
  | cons c u =>
      rw [Same, List.cons_append, satisfying_cons, satisfying_cons]
      split <;> rfl

theorem char_same {c : Char} {u : List Char} (fresh : u ≠ []) : Same r (char c) u :=
  (satisfying_same fresh).bind fun _ _ _ => rfl

theorem char_takes {c : Char} ⦃s : List Char⦄ ⦃found : Unit⦄ ⦃rest : List Char⦄
    (read : char c s = some (found, rest)) : rest.length + 1 = s.length := by
  rw [char_eq_some read, List.length_cons]

theorem token_char (c : Char) : Token 1 (char c) where
  takes _ _ _ read := (char_takes read).le
  looks _ _ far := char_same (List.length_pos_iff.mp (Nat.zero_lt_of_lt far))

theorem notNext_same {refused : Char → Bool} {u : List Char} (fresh : u ≠ []) :
    Same r (notNext refused) u := by
  cases u with
  | nil => exact absurd rfl fresh
  | cons c u =>
      rw [Same, List.cons_append, notNext_cons, notNext_cons]
      split <;> rfl

/-- A token of a fixed length and a look at the character after it. -/
theorem Token.notNext {k : Nat} {p : Reader Unit} (token : Token k p)
    (exact : ∀ ⦃s found rest⦄, p s = some (found, rest) → rest.length + k = s.length)
    (refused : Char → Bool) : Token k (do p; notNext refused) where
  takes s found rest read := by
    obtain ⟨_, middle, read, next⟩ := bind_eq_some read
    rw [← notNext_eq_some next]
    exact token.takes read
  looks u r far := by
    refine (token.looks r far).bind fun _ v read => notNext_same ?_
    rintro rfl
    have short := exact read
    rw [List.length_nil, Nat.zero_add] at short
    exact far.ne short

/-- A look at the next character. -/
theorem edge_notNext (C : Cut Reach Path Spent) (refused : Char → Bool) :
    Edge Reach Path Spent r (notNext refused) where
  path s _ rest read := by
    rw [notNext_eq_some read]
    exact C.refl rest
  edge u place := by
    cases u with
    | nil =>
        refine .inr ⟨fun _ rest read => ?_, fun _ v read => ?_⟩
        · exact (congrArg List.length (notNext_eq_some read)).ge
        · rw [← notNext_eq_some read]
          exact C.nil
    | cons c u => exact .inl (notNext_same (List.cons_ne_nil c u))

end RowFilter.Reader
