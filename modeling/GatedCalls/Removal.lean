import GatedCalls.ClassDirectory.Basic
import GatedCalls.Permission.File
import GatedCalls.Redirection.Library
import GatedCalls.Resolution.Release

/-!
# Removing permissions

A removal reads an application, the replacement libraries and the permission table, resolves the
gated calls of the application and writes the release. Nothing is written before all of it has
succeeded.
-/

namespace GatedCalls

open Disk (Path)

/-- What a removal is asked to do. -/
structure Removal where
  /-- The directory of the application. -/
  input : Path
  /-- The directory that the release is written to. -/
  output : Path
  /-- The file of the permission table. -/
  table : Path
  /-- The directories of the replacement libraries, in the order in which they are loaded. -/
  libraries : List Path
  /-- The permissions whose redirections are used. -/
  permissions : PermissionSet
  /-- Whether gated calls without a redirection are removed if they return nothing. -/
  removesVoid : Bool
  /-- The annotations by which the libraries mark what they offer. -/
  markers : Markers
  /-- The level of the platform that the application and the libraries are meant for. -/
  apiLevel : UInt32

/-- What a removal did. -/
structure RemovalReport where
  tally : Tally
  /-- The number of classes of the release. -/
  classesWritten : Nat
  /-- The number of classes that the libraries provide. -/
  libraryClasses : Nat
  /-- The number of redirections that the libraries provide. -/
  redirections : Nat
  deriving DecidableEq, Repr

namespace Removal

/-- Reads a library and adds what it offers to what is known. -/
def loadLibrary (r : Removal) (known : Replacements) (library : Path) : Run Replacements := do
  let program ← ClassDirectory.read library r.apiLevel
  let loaded ← Run.ofLogged (r.markers.load program r.permissions known)
  Run.ofExcept (loaded.mapError (·.within library.text))

/-- Reads all libraries. -/
def loadLibraries (r : Removal) : Run Replacements := do
  let known ← r.libraries.foldlM r.loadLibrary .empty
  Run.report .info .removal ("Using " ++ toString known.redirectionCount ++ " redirections from " ++
    toString known.classes.length ++ " custom classes")
  return known

/-- Carries a removal out. -/
def run (r : Removal) : Run RemovalReport := do
  let table ← PermissionTable.readFrom r.table
  let known ← r.loadLibraries
  let target ← ClassDirectory.read r.input r.apiLevel
  let release ← Run.ofExcept (← Run.ofLogged (Release.build target known table r.removesVoid))
  ClassDirectory.write release.program r.output
  return ⟨release.tally, release.program.classes.length, known.classes.length,
    known.redirectionCount⟩

end Removal

end GatedCalls
