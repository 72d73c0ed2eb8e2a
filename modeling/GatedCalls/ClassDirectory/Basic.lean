import GatedCalls.ClassDirectory.Walk
import GatedCalls.Program
import GatedCalls.Run
import GatedCalls.Smali.ClassPrinter

/-!
# Class directories

A program is kept in a directory, one class a file, in subdirectories for the packages. Reading
takes all class files of the directory. Writing first fills a staging directory beside the goal and
then moves it there, so that the goal holds all classes or is not touched.
-/

namespace GatedCalls

open Disk (Path)

namespace ClassDef

/-- Reads a class from a file. -/
def readFrom (p : Path) : Run ClassDef := do
  let text ← Run.reading (·.readText p) (Cause.loadingFile p.text)
  Run.ofExcept ((ClassDef.read text).mapError (·.within p.text))

/-- Writes a class to a file. -/
def writeTo (c : ClassDef) (p : Path) : Run Unit :=
  Run.changing (·.putFile p c.print.toUTF8) (Cause.writingFile p.text)

/-- The directory and the file of a class below a directory: a subdirectory for each package. -/
def place (c : ClassDef) (directory : Path) : Path × Path :=
  let segments := Text.splitOf '/' c.name.path
  let package := directory.join segments.dropLast
  (package, package.push (segments.getLastD "" ++ classFileEnding))

/-- Writes a class to its place below a directory, and tells the file. -/
def writeBelow (c : ClassDef) (directory : Path) : Run Path := do
  let (package, file) := c.place directory
  Run.makeDirectories package
  c.writeTo file
  return file

end ClassDef

namespace ClassDirectory

/-- The class files below a directory. Each directory on the way is opened by its own path, which
the file system may refuse. -/
def find (directory : Path) : Run (List Path) := do
  let entries ← Run.reading (·.list directory) (Cause.readingDirectory directory.text)
  let tree := Disk.Node.directory entries
  (tree.subdirectories.map directory.join).forM fun below =>
    Run.reading (fun _ => Disk.checkPath below) (Cause.readingDirectory below.text)
  return tree.classFiles.map directory.join

/-- Reads the program in a directory. -/
def read (directory : Path) (apiLevel : UInt32) : Run Program := do
  unless (← Run.disk).isDirectory directory do
    throw (Cause.notDirectory directory.text).failure
  let classes ← (← find directory).mapM fun file => do
    Run.report .debug .directory ("Reading " ++ file.text)
    (ClassDef.readFrom file).within directory.text
  Run.report .info .directory
    (toString classes.length ++ " smali classes loaded from " ++ directory.text)
  return ⟨classes, apiLevel⟩

/-- Refuses a goal that is there and is not an empty directory. -/
def checkVacant (goal : Path) : Run Unit := do
  if (← Run.disk).pathExists goal then
    let entries ← Run.reading (·.list goal) (Cause.readingDirectory goal.text)
    unless entries.isEmpty do
      throw (Cause.outputNotEmpty goal.text).failure

/-- The directory beside the goal in which a program is put together. -/
def staging? (goal : Path) : Option Path := do
  goal.sibling? ("." ++ (← goal.fileName?) ++ ".partial")

/-- Writes the classes of a program below a directory. -/
def writeClasses (p : Program) (directory : Path) : Run Unit :=
  p.classes.forM fun c => do
    let file ← c.writeBelow directory
    Run.report .debug .directory ("Wrote " ++ file.text)

/-- Takes the staging directory away after a failure. If that is refused, it is reported. -/
def discard (staging : Path) : Run Unit := do
  match (← Run.disk).removeTree staging with
  | .ok disk => modify fun w => { w with disk }
  | .error fault =>
    Run.report .warn .directory ("Could not remove " ++ staging.text ++ ": " ++ fault.text)

/-- Makes an empty staging directory, in place of one that was left behind. -/
def prepare (staging : Path) : Run Unit := do
  if (← Run.disk).pathExists staging then
    Run.changing (·.removeTree staging) (Cause.removing staging.text)
  Run.makeDirectories staging

/-- Moves the staging directory to the goal. -/
def publish (staging goal : Path) : Run Unit := do
  if (← Run.disk).pathExists goal then
    Run.changing (·.removeDirectory goal) (Cause.removing goal.text)
  Run.changing (·.moveDirectory staging goal) (Cause.moving staging.text goal.text)

/-- Writes a program to a directory, which must not be there yet or must be empty. -/
def write (p : Program) (goal : Path) : Run Unit := do
  Run.ofExcept p.checkUnique
  checkVacant goal
  match staging? goal with
  | none => throw (Cause.outputUnnamed goal.text).failure
  | some staging =>
    -- From here on a failure must leave the goal as it was, and nothing half written beside it.
    prepare staging
    tryCatch (writeClasses p staging) fun f => do
      discard staging
      throw f
    publish staging goal
    Run.report .info .directory
      (toString p.classes.length ++ " smali classes written to " ++ goal.text)

end ClassDirectory

end GatedCalls
