import GatedCalls.CommandLine.Switch
import GatedCalls.Removal

/-!
# Commands

What the command line asks for: a removal, or a list of the gated calls of an application.
-/

namespace GatedCalls.CommandLine

open Disk (Path)

/-- A command. -/
inductive Command where
  /-- Carry a removal out and perhaps write a report of it to a file. -/
  | remove (removal : Removal) (report : Option Path)
  /-- List the gated calls of an application. -/
  | list (input table : Path)

/-- A command, and how much of the log is shown. -/
structure Invocation where
  command : Command
  verbosity : Nat

/-- The switches in front of the command. -/
def Switch.general : List Switch :=
  [.verbose, .help, .version]

/-- The switches of the command `remove`. -/
def Switch.ofRemove : List Switch :=
  [.input, .output, .permissionTable, .library, .permission, .keepVoid, .report, .verbose, .help]

/-- The switches of the command `list`. -/
def Switch.ofList : List Switch :=
  [.input, .permissionTable, .verbose, .help]

/-- Reads the switches behind a command. Nothing else may follow. -/
def readAllSwitches (known : List Switch) (arguments : List String) :
    Except Interruption Given := do
  match ← readSwitches known [] arguments with
  | (given, []) => return given
  | (_, next :: _) => throw (.wrong (.unexpectedArgument next))

namespace Command

/-- The path that is the value of a switch. -/
def path (given : Given) (s : Switch) : Except Interruption Path := do
  return .ofText (← given.value s)

/-- The removal that switches ask for. -/
def removeOf (given : Given) : Except Interruption Command := do
  let input ← path given .input
  let output ← path given .output
  let table ← path given .permissionTable
  -- At least one permission has to be given.
  let _ ← given.value .permission
  return .remove
    { input, output, table
      libraries := (given.values .library).map Path.ofText
      permissions := .ofList (given.values .permission)
      removesVoid := given.count .keepVoid == 0
      markers := .standard
      apiLevel := Program.defaultApiLevel }
    ((given.values .report).head?.map Path.ofText)

/-- The list that switches ask for. -/
def listOf (given : Given) : Except Interruption Command := do
  return .list (← path given .input) (← path given .permissionTable)

/-- Whether the word is the name of a command. -/
def isName (word : String) : Bool :=
  word == "remove" || word == "list" || word == "help"

/-- Reads the arguments behind the command `help`: at most the name of a command. -/
def readHelp : List String → Interruption
  | [] => .help
  | [word] => if isName word then .help else .wrong (.unknownCommand word)
  | _ :: next :: _ => .wrong (.unknownCommand next)

end Command

/-- Reads the arguments of the program. Switches for the log may stand on both sides of the command;
those behind it count. -/
def Invocation.read (arguments : List String) : Except Interruption Invocation := do
  let (general, rest) ← readSwitches Switch.general [] arguments
  match rest with
  | [] => throw (.wrong .noCommand)
  | word :: rest =>
    let (known, command) ←
      match word with
      | "remove" => pure (Switch.ofRemove, Command.removeOf)
      | "list" => pure (Switch.ofList, Command.listOf)
      | "help" => throw (Command.readHelp rest)
      | word => throw (.wrong (.unknownCommand word))
    let given ← readAllSwitches known rest
    let inner := given.count .verbose
    return ⟨← command given, if inner = 0 then general.count .verbose else inner⟩

end GatedCalls.CommandLine
