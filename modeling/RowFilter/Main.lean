import RowFilter.CommandLine

/-!
# The program

The command line is carried out, and what it leaves behind is handed to the system.
-/

set_option autoImplicit false

def main (arguments : List String) : IO UInt32 := do
  let outcome := RowFilter.CommandLine.call arguments
  IO.print outcome.output
  IO.eprint outcome.errors
  return UInt32.ofNat outcome.exitCode
