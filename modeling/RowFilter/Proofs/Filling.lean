import RowFilter.Proofs.Session
import RowFilter.Proofs.Sql.Pieces
import RowFilter.Script.Builder

/-!
# Binding by name

A command is run by looking up the value of each placeholder in the bindings of the command.
The first binding of that name counts, so a name must not be bound to two values.

In a session it never is.  The filter of a statement is put together from conditions that
have been compiled in the session, so all its bindings have been made by compilations, and
the names for the values of the statement itself are new.  Therefore each place of the
statement is filled with the value that is meant for it (`filled_written`).
-/

set_option autoImplicit false

namespace RowFilter

open Sql

/-! ## Values by name -/

/-- The value of the first binding with a given name. -/
def lookup (bindings : List Binding) (name : String) : Option Value :=
  (bindings.find? (·.name == name)).map Binding.value

/-- Where no two bindings of one name differ, each one is found. -/
theorem lookup_of_mem {bindings : List Binding} {b : Binding} (member : b ∈ bindings)
    (alone : ∀ b' ∈ bindings, b'.name = b.name → b' = b) :
    lookup bindings b.name = some b.value := by
  have isFound : (bindings.find? (·.name == b.name)).isSome :=
    List.find?_isSome.mpr ⟨b, member, beq_self_eq_true _⟩
  obtain ⟨b', found⟩ := Option.isSome_iff_exists.mp isFound
  have same : b'.name = b.name := by simpa using List.find?_some found
  rw [lookup, found, alone b' (List.mem_of_find?_eq_some found) same, Option.map_some]

/-- Pieces whose bindings are all found are filled with the values of these. -/
theorem map_lookup {ps : List (Piece Binding)} {bindings : List Binding}
    (found : ∀ b ∈ constantsOf ps, lookup bindings b.name = some b.value) :
    (ps.map (Piece.map Binding.name)).map (Piece.map (lookup bindings)) =
      (ps.map (Piece.map Binding.value)).map (Piece.map some) := by
  rw [List.map_map, List.map_map]
  refine List.map_congr_left fun p member => ?_
  cases p with
  | blank | token => rfl
  | slot b => exact congrArg Piece.slot (found b (List.mem_filterMap.mpr ⟨_, member, rfl⟩))

/-! ## Filters of compiled conditions -/

/-- A condition that is put together from given ones. -/
inductive Assembled (given : List Condition) : Condition → Prop
  | given {n : Condition} : n ∈ given → Assembled given n
  | combine {left right : Condition} (c : Connective) :
      Assembled given left → Assembled given right → Assembled given (.combine left c right)
  | comparison {left right : Condition} (c : Comparator) :
      Assembled given left → Assembled given right → Assembled given (.comparison left c right)

namespace Session

variable {supply : NameSupply} {s : Session}

/-- A condition that is put together from the conditions of a session has no bindings but
those that compilations have made. -/
theorem Sound.assembled (sound : Sound supply s) {n : Condition}
    (assembled : Assembled s.conditions n) : ∀ b ∈ n.bindings, b ∈ s.bound := by
  induction assembled with
  | given member => exact sound.conditions _ member
  | combine c _ _ ih ih' =>
      intro b member
      rw [Lowering.bindings_combine] at member
      exact (List.mem_append.mp member).elim (ih b) (ih' b)
  | comparison c _ _ ih ih' =>
      intro b member
      rw [Condition.bindings] at member
      exact (List.mem_append.mp member).elim (ih b) (ih' b)

theorem Sound.whereBindings (sound : Sound supply s) {filter : Option Condition}
    (assembled : ∀ n ∈ filter, Assembled s.conditions n) :
    ∀ b ∈ whereBindings filter, b ∈ s.bound := by
  cases filter with
  | none => exact fun b member => absurd member List.not_mem_nil
  | some n => exact sound.assembled (assembled n rfl)

/-- **A statement that is written in a session is filled with the values that are meant.**
Its filter is put together from conditions that the session has compiled.  If each
placeholder of its command is replaced by the value of the first binding of that name, the
values of the statement stand in their places in order, and the filter has its own values.
No name is both new and in the filter. -/
theorem filled_written (supply : NameSupply) (operations : List Operation)
    (statement : Statement) (writable : statement.IsWritable)
    (assembled : ∀ n ∈ statement.filter,
      Assembled ((start supply).run operations).conditions n) :
    let rest := ((start supply).run operations).supply
    ∃ c last, statement.command rest = (.ok c, last) ∧
      c.text = rendered (statement.written rest) ∧
      (statement.written rest).map (Piece.map (lookup c.bindings)) =
        statement.intended.map (Piece.map some) ∧
      (rest.upcoming statement.constants.length).Disjoint
        ((whereBindings statement.filter).map Binding.name) := by
  have sound := (sound_start supply).run operations
  generalize (start supply).run operations = s at sound assembled ⊢
  obtain ⟨c, done, text, bindings⟩ := Statement.exists_command s.supply writable
  have next := NameSupply.handsOut_bindAll statement.constants s.supply
  have old := sound.whereBindings assembled
  -- The new names differ from all names that compilations have bound, so no two bindings of
  -- the command have one name unless they are the same.
  have distinct := sound.nodup_bound_append next
  refine ⟨c, _, done, text, ?_, ?_⟩
  · rw [← statement.map_name_bound s.supply, ← statement.map_value_bound s.supply]
    rw [← List.map_append] at distinct
    rw [Statement.constantsOf_bound] at bindings
    have known : ∀ b ∈ c.bindings, b ∈ s.bound ++ (s.supply.bindAll statement.constants).1 := by
      intro b member
      rw [bindings] at member
      rcases List.mem_append.mp member with new | filtered
      · exact List.mem_append_right _ new
      · exact List.mem_append_left _ (old b filtered)
    refine map_lookup fun b member => ?_
    rw [Statement.constantsOf_bound, ← bindings] at member
    exact lookup_of_mem member fun b' member' same =>
      List.inj_on_of_nodup_map distinct (known b' member') (known b member) same
  · rw [← NameSupply.map_name_bindAll statement.constants s.supply]
    refine fun name new filtered => List.disjoint_of_nodup_append distinct ?_ new
    obtain ⟨b, member, rfl⟩ := List.mem_map.mp filtered
    exact List.mem_map_of_mem (old b member)

section Samples

open Script.Builder

/-- A filter is compiled, and one more name is taken. -/
def sampleRun : List Operation :=
  [.compileExpr (arrow (equals (field "id") (constant (.integer 7)))), .take]

/-- The condition that comes out of it. -/
def sampleTest : Condition :=
  .comparison (.field (.plain "id")) .equal (.placeholder ⟨"@p0", .integer 7⟩)

/-- An update whose filter has this condition twice. -/
def sampleUpdate : Statement :=
  .update ⟨"users", [(.plain "name", .text "carol")], some (.combine sampleTest .or sampleTest)⟩

theorem filled_sampleUpdate :
    ∃ c last, sampleUpdate.command ⟨"@", 2⟩ = (.ok c, last) ∧
      c.text = "UPDATE [users] SET [name] = @p2 WHERE [id] = @p0 OR [id] = @p0" ∧
      (sampleUpdate.written ⟨"@", 2⟩).map (Piece.map (lookup c.bindings)) =
        sampleUpdate.intended.map (Piece.map some) ∧
      ["@p2"].Disjoint ["@p0", "@p0"] := by
  have compiled : ((start .fresh).run sampleRun).conditions = [sampleTest] := rfl
  have test : Assembled ((start .fresh).run sampleRun).conditions sampleTest :=
    .given (compiled ▸ List.mem_singleton_self sampleTest)
  obtain ⟨c, last, done, text, filled, apart⟩ := filled_written .fresh sampleRun sampleUpdate
    (List.cons_ne_nil _ _) fun n isFilter => by
      obtain rfl := Option.mem_some_iff.mp isFilter
      exact .combine .or test test
  exact ⟨c, last, done, text.trans (by decide +kernel), filled, apart⟩

end Samples

end Session
end RowFilter
