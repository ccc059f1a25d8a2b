import Mathlib.Data.List.Nodup
import RowFilter.Placeholder

/-!
# Names that are handed out

Every name that a supply hands out ends in a number, and the number can be read back from
the name: it is what stands after the last `p` (`numberOf_numbered`).  So two names with
different numbers are different, whatever they begin with.

`HandsOut` says that a supply has handed out certain names, one after another and under any
beginnings, and which supply is left.  The numbers of these names are consecutive, hence no
two of the names are equal (`HandsOut.nodup`), and the supply that is left has counted them
(`HandsOut.reserved_eq`).
-/

set_option autoImplicit false

namespace RowFilter.NameSupply

/-! ## The number of a name -/

/-- The number at the end of a text. -/
def numberOf (name : String) : Nat :=
  Nat.ofDigitChars 10 (name.toList.reverse.takeWhile Char.isDigit).reverse 0

/-- Beginnings are irrelevant to the number of a name, because no digit is a `p`. -/
theorem numberOf_numbered (lead : String) (n : Nat) : numberOf (numbered lead n) = n := by
  have digits : ∀ c ∈ (Nat.toDigits 10 n).reverse, c.isDigit = true := fun c member =>
    Nat.isDigit_of_mem_toDigits (by decide) (by decide) (List.mem_reverse.mp member)
  have backwards : (numbered lead n).toList.reverse =
      (Nat.toDigits 10 n).reverse ++ 'p' :: lead.toList.reverse := by
    simp [numbered, Nat.toList_repr]
  rw [numberOf, backwards, List.takeWhile_append_of_pos digits,
    List.takeWhile_cons_of_neg (by decide), List.append_nil, List.reverse_reverse,
    Nat.ofDigitChars_ten_toDigits]

/-! ## Names one after another -/

/-- A supply hands out names in turn, each under a beginning of its own, and leaves a
supply. -/
inductive HandsOut : NameSupply → List String → NameSupply → Prop
  | none (supply : NameSupply) : HandsOut supply [] supply
  | next {supply rest : NameSupply} {names : List String} (lead : String) :
      HandsOut (supply.takeWith lead).2 names rest →
        HandsOut supply ((supply.takeWith lead).1 :: names) rest

namespace HandsOut

variable {supply middle rest : NameSupply} {names others : List String}

theorem one (supply : NameSupply) (lead : String) :
    HandsOut supply [(supply.takeWith lead).1] (supply.takeWith lead).2 :=
  .next lead (.none _)

theorem append (first : HandsOut supply names middle) (second : HandsOut middle others rest) :
    HandsOut supply (names ++ others) rest := by
  induction first with
  | none => exact second
  | next lead _ ih => exact .next lead (ih second)

theorem lead_eq (handsOut : HandsOut supply names rest) : rest.lead = supply.lead := by
  induction handsOut with
  | none => rfl
  | next lead _ ih => exact ih

/-- The supply that is left has counted the names. -/
theorem reserved_eq (handsOut : HandsOut supply names rest) :
    rest.reserved = supply.reserved + names.length := by
  induction handsOut with
  | none => rfl
  | next lead _ ih => rw [ih, List.length_cons, takeWith, Nat.add_right_comm, Nat.add_assoc]

/-- The names are numbered consecutively. -/
theorem map_numberOf (handsOut : HandsOut supply names rest) :
    names.map numberOf = List.range' supply.reserved names.length := by
  induction handsOut with
  | none => rfl
  | @next supply _ _ lead _ ih =>
      rw [List.map_cons, ih, List.length_cons, List.range'_succ]
      exact congrArg (· :: _) (numberOf_numbered lead supply.reserved)

/-- **No name is handed out twice.** -/
theorem nodup (handsOut : HandsOut supply names rest) : names.Nodup := by
  apply List.Nodup.of_map numberOf
  rw [handsOut.map_numberOf]
  exact List.nodup_range'

end HandsOut

/-! ## Values bound in turn -/

theorem handsOut_bindAll (values : List Value) (supply : NameSupply) :
    supply.HandsOut ((supply.bindAll values).1.map Binding.name) (supply.bindAll values).2 := by
  induction values generalizing supply with
  | nil => exact .none supply
  | cons value values ih => exact .next supply.lead (ih (supply.bind value).2)

theorem map_value_bindAll (values : List Value) (supply : NameSupply) :
    (supply.bindAll values).1.map Binding.value = values := by
  induction values generalizing supply with
  | nil => rfl
  | cons value values ih => exact congrArg (value :: ·) (ih (supply.bind value).2)

/-- The names for the next so many values. -/
def upcoming (supply : NameSupply) (count : Nat) : List String :=
  (List.range' supply.reserved count).map (numbered supply.lead)

theorem map_name_bindAll (values : List Value) (supply : NameSupply) :
    (supply.bindAll values).1.map Binding.name = supply.upcoming values.length := by
  induction values generalizing supply with
  | nil => rfl
  | cons value values ih =>
      rw [upcoming, List.length_cons, List.range'_succ, List.map_cons]
      exact congrArg (numbered supply.lead supply.reserved :: ·) (ih (supply.bind value).2)

end RowFilter.NameSupply
