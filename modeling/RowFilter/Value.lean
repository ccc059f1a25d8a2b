/-!
# Scalar values

A filter compares columns with constants, and a statement binds constants to
placeholders.  Both draw on the same five kinds of value: the absent value,
truth values, signed 64-bit integers, binary64 floating-point numbers and texts.

Two notions of equality are kept apart.  Equality of values as data is `=`, under
which every value equals itself.  Numeric agreement, `Value.same`, follows
floating-point comparison instead: NaN agrees with nothing, the two zeros agree,
and an integer never agrees with a floating-point number.
-/

set_option autoImplicit false

namespace RowFilter

/-- A constant written in a filter or bound to a placeholder. -/
inductive Value where
  | null
  | boolean (truth : Bool)
  | integer (number : Int64)
  | float (number : Float)
  | text (characters : String)
deriving DecidableEq, Inhabited

namespace Value

/-- Numeric agreement: floating-point numbers are compared as numbers, all other
values as data. -/
def same : Value → Value → Bool
  | .null, .null => true
  | .boolean a, .boolean b => a == b
  | .integer a, .integer b => a == b
  | .float x, .float y => x == y
  | .text s, .text t => s == t
  | _, _ => false

end Value
end RowFilter
