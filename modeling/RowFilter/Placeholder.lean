import RowFilter.Value

/-!
# Placeholders

A statement refers to its constants by placeholders, which are names such as `@p0`.
A supply hands out names numbered from zero.  Statements that are to be joined take
their names from one supply, so that no name is used for two constants.
-/

set_option autoImplicit false

namespace RowFilter

/-- A constant bound to a placeholder. -/
structure Binding where
  name : String
  value : Value
deriving DecidableEq, Inhabited

/-- The placeholders still to be handed out. -/
structure NameSupply where
  /-- What every name begins with, unless another beginning is asked for. -/
  lead : String
  /-- How many names have been handed out. -/
  reserved : Nat
deriving DecidableEq, Inhabited

namespace NameSupply

/-- What names begin with by default. -/
def defaultLead : String := "@"

/-- A supply that has handed out no name. -/
def ofLead (lead : String) : NameSupply := ⟨lead, 0⟩

/-- A fresh supply with the default beginning. -/
def fresh : NameSupply := ofLead defaultLead

/-- The name with a given beginning and number. -/
def numbered (lead : String) (n : Nat) : String :=
  lead ++ "p" ++ n.repr

/-- The next name with a given beginning.  All beginnings share one numbering. -/
def takeWith (lead : String) (supply : NameSupply) : String × NameSupply :=
  (numbered lead supply.reserved, ⟨supply.lead, supply.reserved + 1⟩)

/-- The next name. -/
def take (supply : NameSupply) : String × NameSupply :=
  supply.takeWith supply.lead

/-- Bind a value to the next name. -/
def bind (value : Value) (supply : NameSupply) : Binding × NameSupply :=
  let (name, rest) := supply.take
  (⟨name, value⟩, rest)

/-- Bind values to the next names, in order. -/
def bindAll : List Value → NameSupply → List Binding × NameSupply
  | [], supply => ([], supply)
  | value :: values, supply =>
      let (binding, rest) := supply.bind value
      let (bindings, final) := bindAll values rest
      (binding :: bindings, final)

end NameSupply
end RowFilter
