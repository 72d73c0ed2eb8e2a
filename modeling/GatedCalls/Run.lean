import GatedCalls.Disk.Basic
import GatedCalls.Failure
import GatedCalls.Log

/-!
# Runs

A run works on a disk and reports what it does. It ends with a value or with a failure; what it has
changed and reported before a failure stays.
-/

namespace GatedCalls

/-- The disk that a run works on, and what it has reported so far. -/
structure Workspace where
  disk : Disk
  log : Array Log.Record

/-- Work on a disk that can fail. -/
abbrev Run : Type → Type :=
  ExceptT Failure (StateM Workspace)

namespace Run

/-- Reports a record. -/
def report (level : Log.Level) (topic : Log.Topic) (text : String) : Run Unit :=
  modify fun w => { w with log := w.log.push ⟨level, topic, text⟩ }

/-- Takes a value over and reports what was reported on the way to it. -/
def ofLogged {α : Type} (x : Logged α) : Run α := do
  modify fun w => { w with log := w.log ++ x.log }
  return x.value

/-- Goes on with a value or ends with a failure. -/
def ofExcept {α : Type} : Except Failure α → Run α
  | .ok a => return a
  | .error f => throw f

/-- The disk as it is. -/
def disk : Run Disk := do
  return (← get).disk

/-- Reads from the disk. A fault ends the run with the given cause. -/
def reading {α : Type} (read : Disk → Except Disk.Fault α) (cause : Disk.Fault → Cause) :
    Run α := do
  match read (← disk) with
  | .ok a => return a
  | .error fault => throw (cause fault).failure

/-- Changes the disk. A fault ends the run with the given cause, and the disk is as it was. -/
def changing (change : Disk → Except Disk.Fault Disk) (cause : Disk.Fault → Cause) : Run Unit := do
  match change (← disk) with
  | .ok disk => modify fun w => { w with disk }
  | .error fault => throw (cause fault).failure

/-- Makes a directory and those above it that are missing. -/
def makeDirectories (p : Disk.Path) : Run Unit := do
  let (result, disk) := (← disk).makeDirectories p
  modify fun w => { w with disk }
  match result with
  | .ok () => return
  | .error fault => throw (Cause.creatingDirectory p.text fault).failure

/-- Adds a place to the failure in which a run ends. -/
def within {α : Type} (place : String) (x : Run α) : Run α :=
  tryCatch x fun f => throw (f.within place)

end Run

end GatedCalls
