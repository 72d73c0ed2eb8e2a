import GatedCalls.ClassDirectory.Basic
import GatedCalls.CommandLine.Command

/-!
# The reach of a command

A command looks at and changes only what lies at or below the paths that it names, and the staging
directory beside its output. So it can be executed on a copy of these parts of a file tree, and what
it has changed in the copy can be carried over.
-/

namespace GatedCalls

namespace Disk

/-- The places that a path passes through from a place: after each segment, and where `..` leads
back. What is there decides where the path leads. -/
def Path.stations (start : Location) (p : Path) : List Location :=
  (p.segments.foldl
    (fun (place, passed) segment =>
      let next :=
        if segment = "" ∨ segment = "." then place
        else if segment = ".." then place.dropLast
        else place ++ [segment]
      (next, passed ++ [next]))
    ((if p.isAbsolute then [] else start), [])).2

/-- The path of a place. -/
def Path.ofLocation (place : Location) : Path :=
  ⟨true, place⟩

/-- Enters a node at a place below the root, if the directory that it belongs to is there. -/
def enter (d : Disk) (place : Location) (node : Node) : Disk :=
  match place.getLast? with
  | none => d
  | some name => d.update place.dropLast (·.put name node)

/-- A change of a file tree at one place. -/
inductive Change where
  | removeFile (place : Location)
  | removeDirectory (place : Location)
  | makeDirectory (place : Location)
  | writeFile (place : Location) (content : ByteArray)

/-- Whether there is a node of the kind of the given one at its place. -/
def Node.hasKind (tree : Node) (entry : Location × Node) : Bool :=
  (tree.find? entry.1).any fun node => node.isDirectory == entry.2.isDirectory

/-- Whether the given node is at its place, a directory with any entries. -/
def Node.has (tree : Node) (entry : Location × Node) : Bool :=
  match tree.find? entry.1, entry.2 with
  | some (.directory _), .directory _ => true
  | some (.file content), .file content' => content == content'
  | _, _ => false

/-- The changes that lead from one file tree to another one, in an order in which they can be made:
what is in a directory is removed before it and made after it. -/
def changes (before after : Node) : List Change :=
  ((before.places.filter fun entry => !after.hasKind entry).reverse.map fun (place, node) =>
    if node.isDirectory then .removeDirectory place else .removeFile place) ++
  (after.places.filter fun entry => !before.has entry).map fun (place, node) =>
    match node with
    | .directory _ => .makeDirectory place
    | .file content => .writeFile place content

end Disk

namespace CommandLine

open Disk (Path)

/-- The paths that a command names, and the staging directory beside its output. -/
def Command.paths : Command → List Path
  | remove r report =>
    [r.input, r.output, r.table] ++ r.libraries ++ report.toList ++
      (ClassDirectory.staging? r.output).toList
  | list input table => [input, table]

end CommandLine

end GatedCalls
