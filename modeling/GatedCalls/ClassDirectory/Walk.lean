import GatedCalls.Disk.Tree

/-!
# Class files of a tree

The class files below a directory are found by name, at any depth. The entries of each directory are
visited in the order of their names, whatever the order in which they are listed.
-/

namespace GatedCalls

/-- The ending of the names of class files. -/
def classFileEnding : String := ".smali"

/-- Whether a file with this name holds a class: something stands before the ending. -/
def isClassFileName (name : String) : Bool :=
  classFileEnding.toList.isSuffixOf name.toList && name != classFileEnding

namespace Disk.Node

/-- Puts together what the entries of a directory contribute, in the order of their names. -/
def joinByName (found : List (String × List Location)) : List Location :=
  (found.mergeSort fun a b => a.1 ≤ b.1).flatMap (·.2)

mutual

/-- The places below a directory whose last name and node are picked. A directory comes before what
is in it. -/
def collect (pick : String → Node → Bool) : Node → List Location
  | file _ => []
  | directory es => joinByName (collectEntries pick es)

/-- The picked places that each entry of a directory contributes. -/
def collectEntries (pick : String → Node → Bool) :
    List (String × Node) → List (String × List Location)
  | [] => []
  | (name, node) :: es =>
    (name, (if pick name node then [[name]] else []) ++ (node.collect pick).map (name :: ·)) ::
      collectEntries pick es

end

/-- The places of the class files below a directory. -/
def classFiles (node : Node) : List Location :=
  node.collect fun name inner => !inner.isDirectory && isClassFileName name

/-- The places of the directories below a directory. -/
def subdirectories (node : Node) : List Location :=
  node.collect fun _ inner => inner.isDirectory

end Disk.Node

end GatedCalls
