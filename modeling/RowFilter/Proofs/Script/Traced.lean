import RowFilter.Proofs.Script.Progress

/-!
# Traced readers

A traced reader reads as a reader does and keeps a record: of every job that is begun on the
way, and of every round of a repetition.  Traced readers are combined as readers are, and the
record of an alternative that is given up is kept.  A repetition looks at each of its rounds
and refuses at one that takes nothing, so it comes to an end whatever reader is repeated, and
the round that it refused at is in its record.

A traced reader follows a reader on what remains of a text if it gives the same answers
there and everything it records advances (`Follows`): a job is only begun below the one that
is worked on, and a round takes something.  Whether something has been taken since the text
began is part of the condition (`Remains`): if so, what is begun is on a shorter text, and
otherwise it must be below for another reason.
-/

set_option autoImplicit false

namespace RowFilter.Script

open Reader Lexeme

variable {Job α β : Type}

/-! ## Records -/

/-- What happens on the way of a traced reader. -/
inductive Event (Job : Type) where
  /-- While one job is worked on, another is begun. -/
  | call (caller callee : Job)
  /-- A repetition has gone from a text to the text after one more round. -/
  | round (before after : List Char)
  /-- A job has not been begun, because there was a bound on how deep calls may be nested. -/
  | exhausted (job : Job)
deriving DecidableEq

/-- A job is begun below the one that is worked on, and a round takes something.  A job that is
not begun is no advance. -/
def Event.Advances (below : Job → Job → Prop) : Event Job → Prop
  | .call caller callee => below callee caller
  | .round before after => after <:+ before ∧ after.length < before.length
  | .exhausted _ => False

/-- An answer, and what happened on the way to it. -/
structure Trace (Job α : Type) where
  events : List (Event Job)
  answer : Option (α × List Char)

/-- The trace of what began with the given events. -/
def Trace.after (earlier : List (Event Job)) (trace : Trace Job α) : Trace Job α :=
  ⟨earlier ++ trace.events, trace.answer⟩

/-- A reader that keeps a record. -/
def Traced (Job α : Type) : Type := List Char → Trace Job α

namespace Traced

/-! ## Combined traced readers -/

instance : Monad (Traced Job) where
  pure a := fun s => ⟨[], some (a, s)⟩
  bind p f := fun s =>
    match (p s).answer with
    | none => ⟨(p s).events, none⟩
    | some (a, rest) => (f a rest).after (p s).events

/-- Ordered choice.  The record of a refusal is kept. -/
def choose (first : Traced Job α) (second : Unit → Traced Job α) : Traced Job α := fun s =>
  match (first s).answer with
  | none => (second () s).after (first s).events
  | some _ => first s

instance : OrElse (Traced Job α) where
  orElse := choose

/-- A reader that has nothing to record. -/
def plain (p : Reader α) : Traced Job α := fun s => ⟨[], p s⟩

/-- What the reader returns, or nothing where it refuses. -/
def optional (p : Traced Job α) : Traced Job (Option α) :=
  some <$> p <|> pure none

/-- Apply a reader until it refuses.  A round that takes nothing is refused as a whole. -/
def many (p : Traced Job α) (s : List Char) : Trace Job (List α) :=
  match (p s).answer with
  | none => ⟨(p s).events, some ([], s)⟩
  | some (a, rest) =>
      if _shorter : rest.length < s.length then
        let others := many p rest
        ⟨(p s).events ++ .round s rest :: others.events,
          others.answer.map fun found => (a :: found.1, found.2)⟩
      else ⟨(p s).events ++ [.round s rest], none⟩
termination_by s.length

/-- Elements with a separator between each two of them. -/
def separated (element : Traced Job α) (separator : Traced Job Unit) :
    Traced Job (List α) :=
  (do
    let first ← element
    let others ← many (do separator; element)
    return first :: others)
  <|> pure []

section Laws

variable {p : Traced Job α} {s rest : List Char} {a : α}

/-- What has happened before a refusal is kept. -/
theorem bind_of_none {f : α → Traced Job β} (refused : (p s).answer = none) :
    (p >>= f) s = ⟨(p s).events, none⟩ := by
  simp only [Bind.bind, refused]

theorem bind_of_some {f : α → Traced Job β} (read : (p s).answer = some (a, rest)) :
    (p >>= f) s = (f a rest).after (p s).events := by
  simp only [Bind.bind, read]

/-- An alternative that refuses leaves its events behind, but takes nothing of the text. -/
theorem orElse_of_none {q : Unit → Traced Job α} (refused : (p s).answer = none) :
    (HOrElse.hOrElse p q) s = (q () s).after (p s).events := by
  simp only [HOrElse.hOrElse, OrElse.orElse, choose, refused]

theorem orElse_of_some {q : Unit → Traced Job α} (read : (p s).answer = some (a, rest)) :
    (HOrElse.hOrElse p q) s = p s := by
  simp only [HOrElse.hOrElse, OrElse.orElse, choose, read]

theorem optional_of_none (refused : (p s).answer = none) :
    optional p s = ⟨(p s).events, some (none, s)⟩ := by
  have mapped : (some <$> p) s = ⟨(p s).events, none⟩ := bind_of_none refused
  rw [optional, orElse_of_none (congrArg Trace.answer mapped), mapped]
  exact congrArg (Trace.mk · _) (List.append_nil _)

theorem optional_of_some (read : (p s).answer = some (a, rest)) :
    optional p s = ⟨(p s).events, some (some a, rest)⟩ := by
  have mapped : (some <$> p) s = ⟨(p s).events ++ [], some (some a, rest)⟩ := bind_of_some read
  rw [optional, orElse_of_some (congrArg Trace.answer mapped), mapped, List.append_nil]

theorem many_of_none (refused : (p s).answer = none) :
    many p s = ⟨(p s).events, some ([], s)⟩ := by
  rw [many, refused]

/-- A round is recorded between its own events and those of the rounds after it. -/
theorem many_of_some (read : (p s).answer = some (a, rest)) (shorter : rest.length < s.length) :
    many p s = ⟨(p s).events ++ .round s rest :: (many p rest).events,
      (many p rest).answer.map fun found => (a :: found.1, found.2)⟩ := by
  rw [many, read]
  exact dif_pos shorter

end Laws

end Traced

/-! ## Leaving suffixes -/

section Leaves

variable {progress further : Bool}

theorem leaves_refuse : Leaves progress (refuse : Reader α) :=
  fun _ _ _ read => by cases read

theorem leaves_keyword {w : String} (nonempty : w ≠ "") : Leaves true (keyword w) :=
  (leaves_word nonempty).bind fun _ => leaves_notNext _

/-- A repetition leaves an end of the text, but may take nothing. -/
theorem leaves_many {p : Reader α} (leaves : Leaves false p) : Leaves false (many p) := by
  intro s found rest read
  have left : (repeated p s).2 = rest := congrArg Prod.snd (Option.some.inj read)
  rw [← left]
  exact ⟨rounds_suffix leaves s s, (rounds_suffix leaves s s).length_le⟩

theorem Leaves.progresses {p : Reader α} (leaves : Leaves true p) : Progresses p :=
  fun _ _ _ read => (leaves read).2

/-- What runs in parallel with itself along every frame leaves a proper suffix. -/
theorem leaves_of_frame {p : Reader α}
    (parallel : ∀ U, Frame U U → Parallel true (U 0) (U 0) p p) : Leaves true p := by
  intro s a rest read
  have frame := suffixFrame (R := (· <:+ s)) (S := (· <:+ s)) (fun _ => id)
    (fun _ _ suffix _ within => suffix.trans within) fun _ _ suffix within => suffix.trans within
  obtain ⟨_, _, ⟨_, suffix⟩, shorter⟩ :=
    (parallel _ frame).reads ⟨rfl, List.suffix_refl s⟩ read
  exact ⟨suffix, shorter⟩

theorem leaves_name : Leaves true name :=
  leaves_of_frame fun _ F => F.name

end Leaves

/-! ## What remains of a text -/

/-- A suffix of a text, and a proper one if something has been taken from it. -/
def Remains (moved : Bool) (s t : List Char) : Prop :=
  t <:+ s ∧ t.length + moved.toNat ≤ s.length

variable {moved progress further : Bool} {s : List Char}

theorem remains_refl (s : List Char) : Remains false s s :=
  ⟨List.suffix_refl s, Nat.le_refl _⟩

/-- A reader that is run further on in a text leaves what is still further on. -/
theorem Remains.leaves {p : Reader α} {t rest : List Char} {a : α} (remains : Remains moved s t)
    (leaves : Leaves progress p) (read : p t = some (a, rest)) :
    Remains (moved || progress) s rest := by
  obtain ⟨suffix, shorter⟩ := leaves read
  refine ⟨suffix.trans remains.1, ?_⟩
  have before := remains.2
  cases moved <;> cases progress <;> simp at * <;> omega

/-! ## Traced readers that follow readers -/

/-- On what remains of the text `s`, the traced reader answers as the reader does and
records only what advances.  The reader leaves suffixes, and proper ones if it is to
progress. -/
structure Follows (below : Job → Job → Prop) (s : List Char) (moved progress : Bool)
    (p : Traced Job α) (q : Reader α) : Prop where
  leaves : Leaves progress q
  sound : ∀ ⦃t⦄, Remains moved s t →
    (p t).answer = q t ∧ ∀ e ∈ (p t).events, e.Advances below

namespace Follows

variable {below : Job → Job → Prop} {p : Traced Job α} {q : Reader α}

/-- A reader that asks for no other rule has no events to account for. -/
theorem plain {q : Reader α} (leaves : Leaves progress q) :
    Follows below s moved progress (Traced.plain q) q :=
  ⟨leaves, fun _ _ => ⟨rfl, fun _ none => absurd none List.not_mem_nil⟩⟩

theorem pure (a : α) : Follows below s moved false (Pure.pure a) (Pure.pure a : Reader α) :=
  ⟨leaves_pure a, fun _ _ => ⟨rfl, fun _ none => absurd none List.not_mem_nil⟩⟩

theorem loosen (follows : Follows below s moved progress p q) :
    Follows below s moved false p q :=
  ⟨follows.leaves.loosen, follows.sound⟩

/-- The second part may call what the first part has made room for by taking a character. -/
theorem bind {f : α → Traced Job β} {g : α → Reader β}
    (first : Follows below s moved progress p q)
    (second : ∀ a, Follows below s (moved || progress) further (f a) (g a)) :
    Follows below s moved (progress || further) (p >>= f) (q >>= g) := by
  refine ⟨first.leaves.bind fun a => (second a).leaves, fun t remains => ?_⟩
  obtain ⟨same, advance⟩ := first.sound remains
  cases read : q t with
  | none =>
      rw [Traced.bind_of_none (same.trans read), Reader.bind_of_none read]
      exact ⟨rfl, advance⟩
  | some found =>
      obtain ⟨a, rest⟩ := found
      obtain ⟨same', advance'⟩ := (second a).sound (remains.leaves first.leaves read)
      rw [Traced.bind_of_some (same.trans read), Reader.bind_of_some read]
      exact ⟨same', List.forall_mem_append.mpr ⟨advance, advance'⟩⟩

theorem orElse {p' : Unit → Traced Job α} {q' : Unit → Reader α}
    (first : Follows below s moved progress p q)
    (second : Follows below s moved progress (p' ()) (q' ())) :
    Follows below s moved progress (HOrElse.hOrElse p p') (HOrElse.hOrElse q q') := by
  refine ⟨first.leaves.orElse second.leaves, fun t remains => ?_⟩
  obtain ⟨same, advance⟩ := first.sound remains
  cases read : q t with
  | none =>
      obtain ⟨same', advance'⟩ := second.sound remains
      rw [Traced.orElse_of_none (same.trans read), Reader.orElse_of_none read]
      exact ⟨same', List.forall_mem_append.mpr ⟨advance, advance'⟩⟩
  | some found =>
      rw [Traced.orElse_of_some (same.trans read), Reader.orElse_of_some read]
      exact ⟨same.trans read, advance⟩

theorem map (follows : Follows below s moved progress p q) (f : α → β) :
    Follows below s moved progress (f <$> p) (f <$> q) := by
  rw [← Bool.or_false progress]
  exact follows.bind fun a => .pure (f a)

theorem optional (follows : Follows below s moved progress p q) :
    Follows below s moved false (Traced.optional p) (Reader.optional q) :=
  (follows.map some).loosen.orElse (.pure none)

/-- After an option that was taken, something has been taken. -/
theorem optional_bind {f : Option α → Traced Job β} {g : Option α → Reader β}
    (first : Follows below s moved true p q)
    (taken : ∀ a, Follows below s true true (f (some a)) (g (some a)))
    (untaken : Follows below s moved true (f none) (g none)) :
    Follows below s moved true (Traced.optional p >>= f) (Reader.optional q >>= g) := by
  have further {t rest : List Char} {a : α} (remains : Remains moved s t)
      (read : q t = some (a, rest)) : Remains true s rest := by
    have left := remains.leaves first.leaves read
    rwa [Bool.or_true] at left
  constructor
  · intro t b rest read
    cases option : q t with
    | none =>
        rw [Reader.bind_of_some (Reader.optional_of_none option)] at read
        exact untaken.leaves read
    | some found =>
        rw [Reader.bind_of_some (Reader.optional_of_some option)] at read
        have middle : Remains true t found.2 := first.leaves option
        exact middle.leaves (taken found.1).leaves read
  · intro t remains
    obtain ⟨same, advance⟩ := first.sound remains
    cases option : q t with
    | none =>
        obtain ⟨same', advance'⟩ := untaken.sound remains
        have answered := Traced.optional_of_none (same.trans option)
        rw [Traced.bind_of_some (congrArg Trace.answer answered), answered,
          Reader.bind_of_some (Reader.optional_of_none option)]
        exact ⟨same', List.forall_mem_append.mpr ⟨advance, advance'⟩⟩
    | some found =>
        obtain ⟨same', advance'⟩ := (taken found.1).sound (further remains option)
        have answered := Traced.optional_of_some (same.trans option)
        rw [Traced.bind_of_some (congrArg Trace.answer answered), answered,
          Reader.bind_of_some (Reader.optional_of_some option)]
        exact ⟨same', List.forall_mem_append.mpr ⟨advance, advance'⟩⟩

/-- The induction is on the length of the text, which every round makes shorter. -/
theorem many_sound (follows : Follows below s moved true p q) {t : List Char}
    (remains : Remains moved s t) :
    (Traced.many p t).answer = Reader.many q t ∧
      ∀ e ∈ (Traced.many p t).events, e.Advances below := by
  obtain ⟨same, advance⟩ := follows.sound remains
  cases read : q t with
  | none =>
      rw [Traced.many_of_none (same.trans read), Reader.many_of_none read]
      exact ⟨rfl, advance⟩
  | some found =>
      obtain ⟨a, rest⟩ := found
      have round := follows.leaves read
      have remains' := remains.leaves follows.leaves.loosen read
      rw [Bool.or_false] at remains'
      obtain ⟨same', advance'⟩ := many_sound follows remains'
      rw [Traced.many_of_some (same.trans read) round.2,
        Reader.many_of_some follows.leaves.progresses read]
      exact ⟨congrArg (Option.map _) same', List.forall_mem_append.mpr
        ⟨advance, List.forall_mem_cons.mpr ⟨round, advance'⟩⟩⟩
termination_by t.length
decreasing_by exact round.2

/-- A repetition is sound where every round takes a character. -/
theorem many (follows : Follows below s moved true p q) :
    Follows below s moved false (Traced.many p) (Reader.many q) :=
  ⟨leaves_many follows.leaves.loosen, fun _ => many_sound follows⟩

theorem separated {separator : Traced Job Unit} {separator' : Reader Unit}
    (element : Follows below s true true p q)
    (between : Follows below s true true separator separator') :
    Follows below s true false (Traced.separated p separator)
      (Reader.separated q separator') :=
  (element.bind fun _ => (between.bind fun _ => element).many.bind fun _ => .pure _).loosen.orElse
    (.pure _)

end Follows
end RowFilter.Script
