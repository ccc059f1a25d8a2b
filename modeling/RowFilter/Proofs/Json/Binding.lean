import RowFilter.Proofs.Json.Document
import RowFilter.Sql.Document

/-!
# Bindings read back from JSON

A value has no mark of its kind in JSON: an integer is a number, a text is a text.  The kinds
stay apart all the same, because a floating-point number shows a point or an exponent and a
text stands between quotes.  So a list of bindings is read back from its compact text, names
and values in order, and nothing is lost but infinities and NaN, which become the absent value
(`readBindings_bindingsJson`).
-/

set_option autoImplicit false

namespace RowFilter

/-! ## Values -/

namespace Value

/-- A value that is neither an infinity nor NaN. -/
def isFinite : Value → Bool
  | .float x => x.isFinite
  | _ => true

/-- A value, where the absent value stands for infinities and NaN. -/
def finite (v : Value) : Value :=
  if v.isFinite then v else .null

/-- The value that a document stands for.  An integer has 64 bits with its sign. -/
def ofJson : Json → Option Value
  | .null => some .null
  | .boolean b => some (.boolean b)
  | .integer n =>
      if -(2 ^ 63) ≤ n ∧ n < 2 ^ 63 then some (.integer (Int64.ofInt n)) else none
  | .float x => some (.float x)
  | .text s => some (.text s)
  | .array _ | .object _ => none

/-- A value is read back from its document, except that a number that is not finite is read as
null. -/
theorem ofJson_toJson (v : Value) : ofJson v.toJson = some v.finite := by
  cases v with
  | integer n =>
      have least : -(2 ^ 63) ≤ n.toInt := n.le_toInt
      have most : n.toInt < 2 ^ 63 := n.toInt_lt
      rw [toJson, ofJson, if_pos ⟨least, most⟩, Int64.ofInt_toInt]
      rfl
  | float x => cases bounded : x.isFinite <;> simp [toJson, ofJson, finite, isFinite, bounded]
  | _ => rfl

theorem finite_toJson (v : Value) : v.toJson.finite = v.toJson := by
  cases v with
  | float x => cases bounded : x.isFinite <;> simp [toJson, Json.finite, bounded]
  | _ => rfl

end Value

/-! ## Bindings -/

namespace Binding

/-- A binding, where the absent value stands for infinities and NaN. -/
def finite (b : Binding) : Binding := { b with value := b.value.finite }

/-- The binding that a document stands for. -/
def ofJson : Json → Option Binding
  | .object members =>
      match members.lookup "placeholder_name", members.lookup "value" with
      | some (.text name), some value => (Value.ofJson value).map fun v => ⟨name, v⟩
      | _, _ => none
  | _ => none

theorem ofJson_toJson (b : Binding) : ofJson b.toJson = some b.finite := by
  have value : (Value.ofJson b.value.toJson).map (fun v => (⟨b.name, v⟩ : Binding)) =
      some b.finite := by
    rw [b.value.ofJson_toJson]
    rfl
  exact value

theorem finite_toJson (b : Binding) : b.toJson.finite = b.toJson := by
  simp only [toJson, Json.finite, Json.finiteMembers, b.value.finite_toJson]

/-- A binding of a finite value loses nothing. -/
theorem finite_of_isFinite {b : Binding} (finite : b.value.isFinite = true) : b.finite = b := by
  rw [Binding.finite, Value.finite, if_pos finite]

end Binding

namespace Sql

/-- The bindings that a document stands for. -/
def bindingsOfJson : Json → Option (List Binding)
  | .array items => items.mapM Binding.ofJson
  | _ => none

/-- The bindings that a text stands for. -/
def readBindings (s : String) : Option (List Binding) :=
  (Json.read s).bind bindingsOfJson

variable {bindings : List Binding}

theorem finite_bindingsJson (bindings : List Binding) :
    (bindingsJson bindings).finite = bindingsJson bindings := by
  have items : (bindings.map Binding.toJson).map Json.finite = bindings.map Binding.toJson := by
    rw [List.map_map]
    exact List.map_congr_left fun b _ => b.finite_toJson
  rw [bindingsJson, Json.finite, Json.finiteItems_eq_map, items]

/-- Bindings are read back in order. -/
theorem bindingsOfJson_bindingsJson (bindings : List Binding) :
    bindingsOfJson (bindingsJson bindings) = some (bindings.map Binding.finite) := by
  rw [bindingsJson, bindingsOfJson]
  induction bindings with
  | nil => rfl
  | cons b bs ih =>
      rw [List.map_cons, List.mapM_cons, b.ofJson_toJson, ih]
      rfl

/-- **Bindings are read back from their compact text.** -/
theorem readBindings_bindingsJson (bindings : List Binding) :
    readBindings (bindingsJson bindings).compact = some (bindings.map Binding.finite) := by
  rw [readBindings, Json.read_compact, finite_bindingsJson, Option.bind_some,
    bindingsOfJson_bindingsJson]

theorem map_finite (finite : ∀ b ∈ bindings, b.value.isFinite = true) :
    bindings.map Binding.finite = bindings := by
  calc bindings.map Binding.finite
      = bindings.map id := List.map_congr_left fun b member =>
          Binding.finite_of_isFinite (finite b member)
    _ = bindings := List.map_id bindings

/-- **The JSON form of the bindings of a condition loses nothing finite.**  Where nothing is
infinite or NaN, the text determines the bindings. -/
theorem readBindings_condition :
    (∀ n : Condition,
      readBindings (bindingsJson n.bindings).compact = some (n.bindings.map Binding.finite)) ∧
    ∀ m n : Condition, (∀ b ∈ m.bindings, b.value.isFinite = true) →
      (∀ b ∈ n.bindings, b.value.isFinite = true) →
      (bindingsJson m.bindings).compact = (bindingsJson n.bindings).compact →
      m.bindings = n.bindings := by
  refine ⟨fun n => readBindings_bindingsJson n.bindings, ?_⟩
  intro m n first second same
  have read := readBindings_bindingsJson m.bindings
  rw [same, readBindings_bindingsJson, map_finite first, map_finite second] at read
  exact (Option.some.inj read).symm

section Samples

/-- Bindings of values that differ in their kind. -/
def sampleKinds : Condition :=
  .compound [.placeholder ⟨"@p0", .integer 100⟩, .placeholder ⟨"@p1", .float 100⟩,
    .placeholder ⟨"@p2", .null⟩, .placeholder ⟨"@p3", .text "null"⟩]

theorem readBindings_condition_kinds :
    readBindings (bindingsJson sampleKinds.bindings).compact =
        some (sampleKinds.bindings.map Binding.finite) ∧
      (∀ b ∈ sampleKinds.bindings, b.value.isFinite = true) ∧
      sampleKinds.bindings = (Condition.compound [sampleKinds]).bindings := by
  have finite : ∀ b ∈ sampleKinds.bindings, b.value.isFinite = true := by decide +kernel
  have same : (Condition.compound [sampleKinds]).bindings = sampleKinds.bindings := rfl
  obtain ⟨read, determined⟩ := readBindings_condition
  refine ⟨read sampleKinds, finite, determined _ _ finite ?_ ?_⟩
  · rwa [same]
  · rw [same]

/-- The order of the members is free, a number may have an exponent, and a character may be given by
its code. -/
example : readBindings "[\x7b\"value\": -15e+1, \"placeholder_name\": \"\\u0040p\"\x7d]" =
    some [⟨"@p", .float (-150)⟩] := by
  decide +kernel

end Samples

end Sql

end RowFilter
