import RowFilter.Proofs.Text.Reader

/-!
# What readers return

A reader yields a property if every value that it returns has the property, whatever the
text.  Combined readers yield what their parts do.
-/

set_option autoImplicit false

namespace RowFilter.Reader

variable {α β : Type}

/-- Every value that the reader returns has the property. -/
def Yields (P : α → Prop) (p : Reader α) : Prop :=
  ∀ ⦃s a rest⦄, p s = some (a, rest) → P a

namespace Yields

variable {P : α → Prop} {Q : β → Prop}

theorem trivial (p : Reader α) : Yields (fun _ => True) p := fun _ _ _ _ => True.intro

theorem pure {a : α} (holds : P a) : Yields P (pure a : Reader α) := by
  intro s b rest read
  cases read
  exact holds

theorem refuse : Yields P (Reader.refuse : Reader α) := fun _ _ _ read => by cases read

/-- What the second reader yields may depend on what the first one has. -/
theorem bind {p : Reader α} {f : α → Reader β} (first : Yields P p)
    (second : ∀ a, P a → Yields Q (f a)) : Yields Q (p >>= f) := by
  intro s b rest read
  obtain ⟨a, middle, read, read'⟩ := bind_eq_some read
  exact second a (first read) read'

/-- A step whose value is of no interest. -/
theorem next {p : Reader α} {f : α → Reader β} (second : ∀ a, Yields Q (f a)) :
    Yields Q (p >>= f) :=
  (trivial p).bind fun a _ => second a

/-- Both alternatives have to yield it. -/
theorem orElse {p : Reader α} {q : Unit → Reader α} (first : Yields P p)
    (second : Yields P (q ())) : Yields P (HOrElse.hOrElse p q) := by
  intro s a rest read
  rcases orElse_eq_some read with read | read
  · exact first read
  · exact second read

theorem map {p : Reader α} {f : α → β} (yields : Yields (fun a => Q (f a)) p) :
    Yields Q (f <$> p) := by
  intro s b rest read
  rw [map_apply, Option.map_eq_some_iff] at read
  obtain ⟨found, read, same⟩ := read
  cases same
  exact yields read

theorem optional {p : Reader α} (yields : Yields P p) :
    Yields (fun o => ∀ a ∈ o, P a) (optional p) := by
  refine .orElse (.map fun s a rest read b same => ?_) (.pure fun b none_ => by cases none_)
  cases same
  exact yields read

/-- Every round of a repetition yields it. -/
theorem rounds {p : Reader α} (yields : Yields P p) :
    ∀ bound s : List Char, ∀ a ∈ (Reader.rounds p bound s).1, P a
  | [], _ => fun _ member => absurd member List.not_mem_nil
  | _ :: bound, s => by
      simp only [Reader.rounds]
      split
      · exact fun _ member => absurd member List.not_mem_nil
      · next a rest read =>
          exact List.forall_mem_cons.mpr ⟨yields read, yields.rounds bound rest⟩

theorem many {p : Reader α} (yields : Yields P p) : Yields (fun l => ∀ a ∈ l, P a) (many p) := by
  intro s l rest read
  obtain rfl : (Reader.rounds p s s).1 = l := congrArg Prod.fst (Option.some.inj read)
  exact yields.rounds s s

theorem separated {p : Reader α} {separator : Reader Unit} (yields : Yields P p) :
    Yields (fun l => ∀ a ∈ l, P a) (separated p separator) :=
  .orElse
    (yields.bind fun _ first => (many (.next fun _ => yields)).bind fun _ others =>
      .pure (List.forall_mem_cons.mpr ⟨first, others⟩))
    (.pure fun _ member => absurd member List.not_mem_nil)

end Yields
end RowFilter.Reader
