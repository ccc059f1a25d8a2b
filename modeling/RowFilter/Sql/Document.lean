import RowFilter.Json
import RowFilter.Sql.Command

/-!
# Bindings and commands as JSON

A program that runs a command elsewhere receives its text and its bindings as a JSON
document.  The kind of a value shows in its JSON form, so nothing else records it.
-/

set_option autoImplicit false

namespace RowFilter

/-- The JSON form of a value. -/
def Value.toJson : Value → Json
  | .null => .null
  | .boolean b => .boolean b
  | .integer n => .integer n.toInt
  | .float x => if x.isFinite then .float x else .null
  | .text s => .text s

/-- The JSON form of a binding. -/
def Binding.toJson (b : Binding) : Json :=
  .object [("placeholder_name", .text b.name), ("value", b.value.toJson)]

namespace Sql

/-- The JSON form of the bindings of a condition or a command. -/
def bindingsJson (bindings : List Binding) : Json :=
  .array (bindings.map Binding.toJson)

/-- The JSON form of a command. -/
def Command.toJson (c : Command) : Json :=
  .object [("text", .text c.text), ("parameters", bindingsJson c.bindings)]

end Sql
end RowFilter
