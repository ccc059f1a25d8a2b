import RowFilter.Compilation
import RowFilter.Script.Literal
import RowFilter.Sql.Document

/-!
# The command line

One filter function is compiled per call.  Its condition is printed by itself or, if a
table is given, within a query; the bindings follow, one to a line, or everything is
printed as a JSON document.

Options begin with two hyphens and may stand before or after the function.  An option
with a value takes the next argument or what follows an equals sign.  An argument that
begins with a hyphen is neither a function nor the value of an option, unless it is a
single hyphen, follows an equals sign, or comes after `--`, which ends the options.
-/

set_option autoImplicit false

namespace RowFilter.CommandLine

/-! ## Arguments -/

/-- Why the arguments make no call. -/
inductive UsageError where
  | noSource
  | extraArgument (argument : String)
  | unknownOption (argument : String)
  | noValue (option : String)
  | needlessValue (option : String)
  | repeatedOption (option : String)
  | fieldWithoutTable
deriving DecidableEq

/-- The wording of a usage error. -/
def UsageError.message : UsageError → String
  | .noSource => "no filter function is given"
  | .extraArgument a => "unexpected argument: " ++ a
  | .unknownOption a => "unknown option: " ++ a
  | .noValue o => "a value is required for " ++ o
  | .needlessValue o => "no value is allowed for " ++ o
  | .repeatedOption o => "given more than once: " ++ o
  | .fieldWithoutTable => "--field requires --table"

/-- What a call asks for.  A setting that has not been made is absent. -/
structure Settings where
  source : Option String
  table : Option String
  fields : List String
  lead : Option String
  json : Bool
deriving DecidableEq

/-- The settings before any argument has been read. -/
def Settings.blank : Settings := ⟨none, none, [], none, false⟩

/-- What an argument is, by its form. -/
inductive Argument where
  | plain (content : String)
  /-- An option, perhaps with a value after an equals sign. -/
  | option (name : String) (value : Option String)
  | endOfOptions
deriving DecidableEq

/-- Tell the form of an argument. -/
def Argument.of (argument : String) : Argument :=
  match argument.toList with
  | ['-', '-'] => .endOfOptions
  | '-' :: '-' :: rest =>
      match rest.dropWhile (· != '=') with
      | [] => .option argument none
      | _ :: value =>
          .option ("--" ++ String.ofList (rest.takeWhile (· != '='))) (String.ofList value)
  | '-' :: _ :: _ => .option argument none
  | _ => .plain argument

/-- Take an argument as the filter function. -/
def Settings.setSource (s : Settings) (source : String) : Except UsageError Settings :=
  match s.source with
  | some _ => .error (.extraArgument source)
  | none => .ok { s with source := some source }

/-- Set an option that has a value.  Any other option takes none, or is unknown. -/
def Settings.setOption (s : Settings) (option value : String) : Except UsageError Settings :=
  match option with
  | "--table" =>
      if s.table.isSome then .error (.repeatedOption option)
      else .ok { s with table := some value }
  | "--field" => .ok { s with fields := s.fields ++ [value] }
  | "--prefix" =>
      if s.lead.isSome then .error (.repeatedOption option)
      else .ok { s with lead := some value }
  | "--json" => .error (.needlessValue option)
  | _ => .error (.unknownOption option)

/-- Read the arguments from left to right. -/
def Settings.read (s : Settings) : List String → Except UsageError Settings
  | [] => .ok s
  | argument :: rest =>
      match Argument.of argument with
      | .plain source => do (← s.setSource source).read rest
      | .endOfOptions => rest.foldlM Settings.setSource s
      | .option name (some value) => do (← s.setOption name value).read rest
      | .option "--json" none =>
          if s.json then .error (.repeatedOption "--json")
          else Settings.read { s with json := true } rest
      | .option name none =>
          match rest with
          | [] => .error (.noValue name)
          | next :: others =>
              match Argument.of next with
              | .plain value => do (← s.setOption name value).read others
              | _ => .error (.noValue name)

/-- The settings of a call, which must name a filter function, and a table if it names
columns. -/
def settings (arguments : List String) : Except UsageError (String × Settings) := do
  let s ← Settings.blank.read arguments
  if s.table.isNone && !s.fields.isEmpty then throw .fieldWithoutTable
  match s.source with
  | some source => return (source, s)
  | none => throw .noSource

/-! ## Calls -/

/-- What a call leaves behind. -/
structure Outcome where
  exitCode : Nat
  output : String
  errors : String
deriving DecidableEq

/-- The command that is printed for a condition. -/
def Settings.command (s : Settings) (condition : Sql.Condition) : Sql.Command :=
  match s.table with
  | some table => (((Sql.Select.from table).addFields s.fields).filtered condition).command
  | none => ⟨condition.text, condition.bindings⟩

/-- The line that shows a binding. -/
def bindingLine (b : Binding) : String :=
  "  " ++ b.name ++ " = " ++ Script.literalText b.value ++ "\n"

/-- The text that is printed for a command. -/
def printed (json : Bool) (c : Sql.Command) : String :=
  if json then c.toJson.pretty 0 ++ "\n"
  else c.text ++ "\n" ++ String.join (c.bindings.map bindingLine)

/-- The report of a failed compilation. -/
def report (e : CompileError) : String :=
  "Error: " ++ e.message ++ "\n\nCaused by:\n    " ++ e.cause ++ "\n"

/-- Carry out the call with the given arguments. -/
def call (arguments : List String) : Outcome :=
  match settings arguments with
  | .error e => ⟨2, "", "error: " ++ e.message ++ "\n"⟩
  | .ok (source, s) =>
      match (compile source (.ofLead (s.lead.getD NameSupply.defaultLead))).result with
      | .error e => ⟨1, "", report e⟩
      | .ok condition => ⟨0, printed s.json (s.command condition), ""⟩

end RowFilter.CommandLine
