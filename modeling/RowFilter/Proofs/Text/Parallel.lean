import RowFilter.Proofs.Text.Reader

/-!
# Readers in parallel

Two readers run in parallel from one relation on texts to another when, on related
texts, both refuse or both return the same value and leave related texts.  They leave
no longer texts than they were given, and shorter ones if they are to progress.

The relation is what the readings of two texts have to do with one another: the texts
may be equal, one may be a part of the other, or one may go on where the other ends.
Readers that are combined in the same way from readers in parallel are in parallel
again, so a fact about two readings of a whole grammar is a fact about its smallest
readers.  A relation of a text to itself gives a property of a single reading.
-/

set_option autoImplicit false

namespace RowFilter.Reader

variable {α β : Type} {T U V : List Char → List Char → Prop} {progress further : Bool}

/-- On related texts, the readers both refuse, or they return the same value and leave
related texts, which are no longer than before, and shorter if `progress` holds. -/
def Parallel (progress : Bool) (T U : List Char → List Char → Prop) (p q : Reader α) : Prop :=
  ∀ s t, T s t → (p s = none ∧ q t = none) ∨
    ∃ a rest rest', p s = some (a, rest) ∧ q t = some (a, rest') ∧ U rest rest' ∧
      rest.length + progress.toNat ≤ s.length ∧ rest'.length + progress.toNat ≤ t.length

namespace Parallel

/-! ## Single readings -/

/-- What one reader returns the other one returns too, and related texts are left. -/
theorem reads {p q : Reader α} (parallel : Parallel progress T U p q) {s t : List Char}
    (related : T s t) {a : α} {rest : List Char} (read : p s = some (a, rest)) :
    ∃ rest', q t = some (a, rest') ∧ U rest rest' ∧ rest.length + progress.toNat ≤ s.length := by
  rcases parallel _ _ related with ⟨refused, _⟩ | ⟨_, _, _, read', other, left, shorter, _⟩
  · rw [read] at refused
    cases refused
  · rw [read] at read'
    cases read'
    exact ⟨_, other, left, shorter⟩

/-- A reader that is in parallel with itself from equality takes characters. -/
theorem progresses {p : Reader α} (parallel : Parallel true Eq U p p) : Progresses p := by
  intro s a rest read
  obtain ⟨_, _, _, shorter⟩ := parallel.reads rfl read
  exact shorter

/-- Readers that leave equal texts agree. -/
theorem apply_eq {p q : Reader α} (parallel : Parallel progress T U p q) {s t : List Char}
    (related : T s t) (same : ∀ rest rest', U rest rest' → rest = rest') : p s = q t := by
  rcases parallel _ _ related with ⟨refused, refused'⟩ | ⟨a, rest, rest', read, read', left, _⟩
  · rw [refused, refused']
  · rw [read, read', same rest rest' left]

/-- Readers run in parallel on fewer texts, and with less said of what they leave. -/
theorem weaken {p q : Reader α} {T' U' : List Char → List Char → Prop}
    (parallel : Parallel progress T U p q) (before : ∀ ⦃s t⦄, T' s t → T s t)
    (after : ∀ ⦃s t⦄, U s t → U' s t) : Parallel progress T' U' p q := by
  intro s t related
  rcases parallel _ _ (before related) with refused | ⟨a, rest, rest', read, read', left, h⟩
  · exact .inl refused
  · exact .inr ⟨a, rest, rest', read, read', after left, h⟩

theorem loosen {p q : Reader α} (parallel : Parallel progress T U p q) :
    Parallel false T U p q := by
  intro s t related
  rcases parallel _ _ related with refused | ⟨a, rest, rest', read, read', left, h, h'⟩
  · exact .inl refused
  · exact .inr ⟨a, rest, rest', read, read', left, Nat.le_of_add_right_le h,
      Nat.le_of_add_right_le h'⟩

/-! ## Combined readers -/

theorem pure (a : α) : Parallel false T T (pure a : Reader α) (Pure.pure a) := fun s t related =>
  .inr ⟨a, s, t, rfl, rfl, related, Nat.le_refl _, Nat.le_refl _⟩

/-- A single reading with a property of the text before it and one of the text after it. -/
theorem self {R S : List Char → Prop} {p : Reader α}
    (preserves : ∀ ⦃s a rest⦄, R s → p s = some (a, rest) →
      S rest ∧ rest.length + progress.toNat ≤ s.length) :
    Parallel progress (fun s t => s = t ∧ R s) (fun s t => s = t ∧ S s) p p := by
  rintro s t ⟨rfl, holds⟩
  cases read : p s with
  | none => exact .inl ⟨rfl, rfl⟩
  | some found =>
      obtain ⟨after, shorter⟩ := preserves holds read
      exact .inr ⟨found.1, found.2, found.2, rfl, rfl, ⟨rfl, after⟩, shorter, shorter⟩

theorem refuse : Parallel progress T U (Reader.refuse : Reader α) Reader.refuse := fun _ _ _ =>
  .inl ⟨rfl, rfl⟩

/-- Where the first readers return the same value, the second ones are those for it. -/
theorem bind {p q : Reader α} {f g : α → Reader β} (first : Parallel progress T U p q)
    (second : ∀ a, Parallel further U V (f a) (g a)) :
    Parallel (progress || further) T V (p >>= f) (q >>= g) := by
  intro s t related
  rcases first _ _ related with ⟨refused, refused'⟩ | ⟨a, rest, rest', read, read', left, h, h'⟩
  · exact .inl ⟨bind_of_none refused, bind_of_none refused'⟩
  · rw [bind_of_some read, bind_of_some read']
    rcases second a _ _ left with refused | ⟨b, end_, end', last, last', related', i, i'⟩
    · exact .inl refused
    · refine .inr ⟨b, end_, end', last, last', related', ?_, ?_⟩
      · cases progress <;> cases further <;> simp at * <;> omega
      · cases progress <;> cases further <;> simp at * <;> omega

theorem orElse {p q : Reader α} {p' q' : Unit → Reader α} (first : Parallel progress T U p q)
    (second : Parallel progress T U (p' ()) (q' ())) :
    Parallel progress T U (HOrElse.hOrElse p p') (HOrElse.hOrElse q q') := by
  intro s t related
  rcases first _ _ related with ⟨refused, refused'⟩ | ⟨a, rest, rest', read, read', left⟩
  · rw [orElse_of_none refused, orElse_of_none refused']
    exact second _ _ related
  · exact .inr ⟨a, rest, rest', orElse_of_some read, orElse_of_some read', left⟩

theorem map {p q : Reader α} (f : α → β) (parallel : Parallel progress T U p q) :
    Parallel progress T U (f <$> p) (f <$> q) := by
  rw [← Bool.or_false progress]
  exact parallel.bind fun a => .pure (f a)

theorem optional {p q : Reader α} (parallel : Parallel progress T T p q) :
    Parallel false T T (optional p) (optional q) :=
  (parallel.map some).loosen.orElse (.pure none)

/-- The bounds may differ as long as both are long enough, because a round takes a character.
-/
theorem rounds {p q : Reader α} (parallel : Parallel true T T p q) :
    ∀ (bound bound' : List Char) ⦃s t : List Char⦄, s.length ≤ bound.length →
      t.length ≤ bound'.length → T s t →
      (rounds p bound s).1 = (Reader.rounds q bound' t).1 ∧
        T (Reader.rounds p bound s).2 (Reader.rounds q bound' t).2 ∧
        (Reader.rounds p bound s).2.length ≤ s.length ∧
        (Reader.rounds q bound' t).2.length ≤ t.length := by
  intro bound
  induction bound with
  | nil =>
      intro bound' s t short _ related
      rcases parallel _ _ related with ⟨_, refused'⟩ | ⟨_, _, _, _, _, _, shorter, _⟩
      · cases bound' <;> simp [Reader.rounds, refused', related]
      · simp at short
        simp [short] at shorter
  | cons c bound ih =>
      intro bound' s t short short' related
      rcases parallel _ _ related with
        ⟨refused, refused'⟩ | ⟨a, rest, rest', read, read', left, h, h'⟩
      · cases bound' <;> simp [Reader.rounds, refused, refused', related]
      · cases bound' with
        | nil =>
            simp at short'
            simp [short'] at h'
        | cons c' bound' =>
            simp only [List.length_cons, Bool.toNat_true] at short short' h h'
            obtain ⟨values, related', i, i'⟩ :=
              ih bound' (by omega : rest.length ≤ _) (by omega : rest'.length ≤ _) left
            simp only [Reader.rounds, read, read']
            exact ⟨congrArg _ values, related', by omega, by omega⟩

/-- A repetition ends at the same round in both texts. -/
theorem many {p q : Reader α} (parallel : Parallel true T T p q) :
    Parallel false T T (many p) (many q) := by
  intro s t related
  obtain ⟨values, left, h, h'⟩ := parallel.rounds s t (Nat.le_refl _) (Nat.le_refl _) related
  refine .inr ⟨(repeated p s).1, (repeated p s).2, (repeated q t).2, rfl, ?_, left, h, h'⟩
  simp only [Reader.many, repeated, values]

theorem separated {p q : Reader α} {separator separator' : Reader Unit}
    (element : Parallel true T T p q) (between : Parallel false T T separator separator') :
    Parallel false T T (separated p separator) (separated q separator') :=
  (element.bind fun _ => (between.bind fun _ => element).many.bind fun _ => .pure _).loosen.orElse
    (.pure _)

theorem run1 {accepts : Char → Bool}
    (first : Parallel true T U (satisfying accepts) (satisfying accepts))
    (others : Parallel false U U (run accepts) (run accepts)) :
    Parallel true T U (run1 accepts) (run1 accepts) :=
  first.bind fun _ => others.bind fun _ => .pure _

end Parallel
end RowFilter.Reader
