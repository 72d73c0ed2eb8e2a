import GatedCalls.CommandLine.Command
import GatedCalls.Json.Outcome
import GatedCalls.Permission.Usage

/-!
# Executing commands

A command is executed on a disk. It ends with an exit code, and with texts for standard output and
standard error: the log, as far as it is shown, and behind it the failure in which the command
ended.
-/

namespace GatedCalls

/-- A report as JSON. -/
def RemovalReport.toJson (r : RemovalReport) : Json :=
  .object [("stats", r.tally.toJson), ("classes_written", .ofNat r.classesWritten),
    ("custom_classes", .ofNat r.libraryClasses), ("redirections", .ofNat r.redirections)]

/-- The line that sums a removal up. -/
def RemovalReport.summary (r : RemovalReport) (output : Disk.Path) : String :=
  toString r.tally.redirected ++ " redirected, " ++ toString r.tally.removed ++ " removed, " ++
    toString r.tally.unresolved ++ " unresolved; " ++ toString r.classesWritten ++
    " classes written to " ++ output.text ++ "\n"

/-- The printed inventory: each permission with the number of its calls, and below it the methods
that are called, with their numbers of calls at the right of four columns. -/
def PermissionUsage.print (u : PermissionUsage) : String :=
  if u.isEmpty then "No permission-protected calls found\n"
  else String.join (u.permissions.toList.map fun (permission, callees) =>
    permission ++ " (" ++ toString (u.callCount permission) ++ " calls)\n" ++
      String.join (callees.toList.map fun (callee, count) =>
        let number := toString count
        "    " ++ String.ofList (List.replicate (4 - number.length) ' ') ++ number ++ "  " ++
          callee.text ++ "\n"))

namespace CommandLine

open Disk (Path)

/-- The exit code of a command that ends in a failure. -/
def failed : UInt32 := 1

/-- The exit code of a removal that leaves gated calls in place. -/
def unresolved : UInt32 := 2

/-- The exit code for arguments that cannot be read. -/
def misused : UInt32 := 2

/-- Writes the report of a removal to a file. -/
def writeReport (r : RemovalReport) (p : Path) : Run Unit :=
  Run.changing (·.putFile p (r.toJson.pretty "").toUTF8) (Cause.writingReport p.text)

/-- Executes a command and tells the exit code and the text for standard output. -/
def Command.run : Command → Run (UInt32 × String)
  | remove removal report => do
    let result ← removal.run
    report.forM (writeReport result)
    return (if result.tally.isClean then 0 else unresolved, result.summary removal.output)
  | list input table => do
    let table ← PermissionTable.readFrom table
    let program ← ClassDirectory.read input Program.defaultApiLevel
    let usage ← Run.ofLogged (PermissionUsage.scan program table)
    return (0, usage.print)

/-- The lowest level of records that is shown. -/
def shownLevel (verbosity : Nat) : Log.Level :=
  match verbosity with
  | 0 => .warn
  | 1 => .info
  | _ => .debug

/-- The shown part of a log. -/
def printLog (verbosity : Nat) (log : List Log.Record) : String :=
  String.join
    ((log.filter fun r => (shownLevel verbosity).rank ≤ r.level.rank).map Log.Record.print)

/-- How the program ends. -/
structure Outcome where
  exitCode : UInt32
  output : String
  errors : String
  deriving DecidableEq, Repr

/-- Executes a command on a disk. -/
def Invocation.run (i : Invocation) (d : Disk) : Outcome × Disk :=
  match i.command.run.run ⟨d, #[]⟩ with
  | (.ok (exitCode, output), w) => (⟨exitCode, output, printLog i.verbosity w.log.toList⟩, w.disk)
  | (.error f, w) =>
    (⟨failed, "", printLog i.verbosity w.log.toList ++ "error: " ++ f.text ++ "\n"⟩, w.disk)

/-- The text that explains the command line. -/
def helpText : String :=
  "Remove permission-protected API calls from smali code\n\n" ++
  "  rmperm remove -i INPUT -o OUTPUT -t PERMISSION_TABLE [-c CUSTOM]... -p PERMISSION...\n" ++
  "                [--no-auto-remove-void] [--report REPORT] [-v]...\n" ++
  "  rmperm list -i INPUT -t PERMISSION_TABLE [-v]...\n"

/-- The line that names the program and its version. -/
def versionText : String :=
  "rmperm 0.1.0\n"

/-- How the program ends where the arguments ask for no command. -/
def Interruption.outcome : Interruption → Outcome
  | help => ⟨0, helpText, ""⟩
  | version => ⟨0, versionText, ""⟩
  | wrong fault => ⟨misused, "", "error: " ++ fault.message ++ "\n\n" ++ helpText⟩

/-- Runs the program with the given arguments on a disk. -/
def run (arguments : List String) (d : Disk) : Outcome × Disk :=
  match Invocation.read arguments with
  | .ok i => i.run d
  | .error interruption => (interruption.outcome, d)

end CommandLine

end GatedCalls
