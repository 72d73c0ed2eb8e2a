import GatedCalls.CommandLine.Execution
import GatedCalls.CommandLine.Reach

/-!
# The program

The program copies the part of the file tree that its command can reach, executes the command on the
copy, carries the changes over and prints.
-/

namespace GatedCalls.CommandLine

open Disk (Location Node Path)

/-- Copies what is at a place: a file with its content, a directory without or with what is in
it. -/
partial def copyNode (place : Location) (isDeep : Bool) : IO (Option Node) := do
  let here := (← IO.currentDir) / (Path.ofLocation place).text
  if !(← here.pathExists) then return none
  if !(← here.isDir) then return some (.file (← IO.FS.readBinFile here))
  if !isDeep then return some (.directory [])
  let mut entries := #[]
  for entry in ← here.readDir do
    if let some node ← copyNode (place ++ [entry.fileName]) true then
      entries := entries.push (entry.fileName, node)
  return some (.directory entries.toList)

/-- Copies what a path passes through and all that is at its end. -/
def copyPath (d : Disk) (p : Path) : IO Disk := do
  let stations := p.stations d.workingDirectory
  let mut d := d
  for place in stations do
    if (d.root.find? place).isNone then
      if let some node ← copyNode place false then d := d.enter place node
  if let some place := stations.getLast?.filter (· ≠ []) then
    if let some node ← copyNode place true then d := d.enter place node
  return d

/-- The part of the file tree that a command can reach. -/
def copyReach (arguments : List String) : IO Disk := do
  let here := (Path.ofText (← IO.currentDir).toString).segments
  let mut d : Disk := ⟨.directory [], here⟩
  for n in List.range here.length do
    d := d.enter (here.take (n + 1)) (.directory [])
  match Invocation.read arguments with
  | .error _ => return d
  | .ok i => i.command.paths.foldlM copyPath d

/-- Makes a change in the file tree. -/
def makeChange : Disk.Change → IO Unit
  | .removeFile place => IO.FS.removeFile ((Path.ofLocation place).text)
  | .removeDirectory place => IO.FS.removeDir ((Path.ofLocation place).text)
  | .makeDirectory place => IO.FS.createDir ((Path.ofLocation place).text)
  | .writeFile place content => IO.FS.writeBinFile ((Path.ofLocation place).text) content

end GatedCalls.CommandLine

open GatedCalls

/-- Runs the program. -/
def main (arguments : List String) : IO UInt32 := do
  let before ← CommandLine.copyReach arguments
  let (outcome, after) := CommandLine.run arguments before
  (Disk.changes before.root after.root).forM CommandLine.makeChange
  (← IO.getStderr).putStr outcome.errors
  (← IO.getStdout).putStr outcome.output
  return outcome.exitCode
