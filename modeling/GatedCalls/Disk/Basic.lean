import GatedCalls.Disk.Fault
import GatedCalls.Disk.Path
import GatedCalls.Disk.Tree

/-!
# Disks

A disk is a file tree without links, in which a run has a working directory. `Disk.resolve` follows
a path to a place; the operations read what is at a place or change it. An operation on one place is
done as a whole or refused, and then the disk is as it was; only `makeDirectories` can be refused
after it has made some of the directories.
-/

namespace GatedCalls

/-- A file tree, and the place in it from which paths start that have no slash in front. -/
structure Disk where
  root : Disk.Node
  workingDirectory : Disk.Location

namespace Disk

/-- The length from which on a path is too long, in bytes. -/
def pathLimit : Nat := 4096

/-- The length of the longest name, in bytes. -/
def nameLimit : Nat := 255

/-! ### Following paths -/

/-- Refuses texts that cannot be the path of a file. -/
def checkPath (p : Path) : Except Fault Unit :=
  let text := p.text
  if text.contains '\x00' then .error .nulInPath
  else if text.isEmpty then .error .notFound
  else if pathLimit ≤ text.utf8ByteSize then .error .nameTooLong
  else .ok ()

/-- The place where a path starts. -/
def start (d : Disk) (p : Path) : Location :=
  if p.isAbsolute then [] else d.workingDirectory

/-- The entries of the directory at a place. -/
def entriesAt (d : Disk) (place : Location) : Except Fault Entries :=
  match d.root.find? place with
  | none => .error .notFound
  | some (.file _) => .error .notDirectory
  | some (.directory es) => .ok es

/-- Follows segments from a place. Each segment, also one that means nothing, needs a directory to
be followed from; the directory above the root is the root. -/
def follow (d : Disk) : Location → List String → Except Fault Location
  | place, [] => .ok place
  | place, segment :: rest =>
    match d.entriesAt place with
    | .error fault => .error fault
    | .ok es =>
      if segment = "" ∨ segment = "." then d.follow place rest
      else if segment = ".." then d.follow place.dropLast rest
      else if nameLimit < segment.utf8ByteSize then .error .nameTooLong
      else if (es.get? segment).isNone then .error .notFound
      else d.follow (place ++ [segment]) rest

/-- The place that a path leads to. -/
def resolve (d : Disk) (p : Path) : Except Fault Location := do
  checkPath p
  d.follow (d.start p) p.segments

/-- What a path names whose last segment need not be there. -/
inductive Target where
  /-- The root of the tree. -/
  | root
  /-- A directory, as the entry `.` in it. -/
  | here
  /-- A directory, as the entry `..` in another one. -/
  | above
  /-- An entry of a directory. -/
  | entry (directory : Location) (entries : Entries) (name : String)

/-- Divides the segments of a path into those before the last one that is not empty, that one, and
whether empty ones follow it. -/
def splitLast? (segments : List String) : Option (List String × String × Bool) :=
  match segments.reverse.dropWhile (· = "") with
  | [] => none
  | last :: front => some (front.reverse, last, segments.getLast? = some "")

/-- What a path names, and whether a slash stands at its end. -/
def target (d : Disk) (p : Path) : Except Fault (Target × Bool) := do
  checkPath p
  match splitLast? p.segments with
  | none => return (.root, true)
  | some (front, last, slash) =>
    let directory ← d.follow (d.start p) front
    let entries ← d.entriesAt directory
    if last = "." then return (.here, slash)
    else if last = ".." then return (.above, slash)
    else return (.entry directory entries last, slash)

/-- Refuses names that are too long. -/
def checkName (name : String) : Except Fault Unit :=
  if nameLimit < name.utf8ByteSize then .error .nameTooLong else .ok ()

/-! ### Reading -/

/-- The node that a path leads to. -/
def node? (d : Disk) (p : Path) : Option Node :=
  match d.resolve p with
  | .ok place => d.root.find? place
  | .error _ => none

/-- Whether a path leads to a file or a directory. -/
def pathExists (d : Disk) (p : Path) : Bool :=
  (d.node? p).isSome

/-- Whether a path leads to a directory. -/
def isDirectory (d : Disk) (p : Path) : Bool :=
  (d.node? p).any (·.isDirectory)

/-- The entries of a directory. -/
def list (d : Disk) (p : Path) : Except Fault Entries := do
  d.entriesAt (← d.resolve p)

/-- The text in a file. -/
def readText (d : Disk) (p : Path) : Except Fault String := do
  match d.root.find? (← d.resolve p) with
  | none => throw .notFound
  | some (.directory _) => throw .isDirectory
  | some (.file content) =>
    match String.fromUTF8? content with
    | some text => return text
    | none => throw .notUtf8

/-! ### Changing -/

/-- Changes the entries of the directory at a place. -/
def update (d : Disk) (directory : Location) (f : Entries → Entries) : Disk :=
  { d with root := d.root.update directory f }

/-- Makes a directory. -/
def makeDirectory (d : Disk) (p : Path) : Except Fault Disk := do
  match ← d.target p with
  | (.entry directory es name, _) =>
    checkName name
    if (es.get? name).isSome then throw .alreadyExists
    return d.update directory (·.put name (.directory []))
  | _ => throw .alreadyExists

/-- Makes a directory and those above it that are missing. It is no fault if the directory is
there. -/
def makeDirectories (d : Disk) (p : Path) : Except Fault Unit × Disk :=
  if p.text = "" then (.ok (), d)
  else
    match d.makeDirectory p with
    | .ok made => (.ok (), made)
    | .error .notFound =>
      match _h : p.parent? with
      | none => (.error .notFound, d)
      | some parent =>
        match d.makeDirectories parent with
        | (.error fault, d) => (.error fault, d)
        | (.ok (), d) =>
          match d.makeDirectory p with
          | .ok made => (.ok (), made)
          -- A path that ends in `..` leads to a directory that is there once its parent is made.
          | .error fault => (if d.isDirectory p then .ok () else .error fault, d)
    | .error fault => (if d.isDirectory p then .ok () else .error fault, d)
termination_by p.segments.length
decreasing_by exact Path.length_segments_parent ‹_›

/-- Writes a file, in place of one that is there. -/
def putFile (d : Disk) (p : Path) (content : ByteArray) : Except Fault Disk := do
  match ← d.target p with
  | (.entry directory es name, slash) =>
    if slash then throw .isDirectory
    checkName name
    if (es.get? name).any (·.isDirectory) then throw .isDirectory
    return d.update directory (·.put name (.file content))
  | _ => throw .isDirectory

/-- Takes an entry that is a directory away, if `mayRemove` allows it for the entries in it. -/
def removeWhere (d : Disk) (p : Path) (mayRemove : Entries → Bool) : Except Fault Disk := do
  match ← d.target p with
  | (.root, _) => throw .busy
  | (.here, _) => throw .invalidArgument
  | (.above, _) => throw .notEmpty
  | (.entry directory es name, _) =>
    checkName name
    match es.get? name with
    | none => throw .notFound
    | some (.file _) => throw .notDirectory
    | some (.directory inner) =>
      if mayRemove inner then return d.update directory (·.erase name) else throw .notEmpty

/-- Takes an empty directory away. -/
def removeDirectory (d : Disk) (p : Path) : Except Fault Disk :=
  d.removeWhere p (·.isEmpty)

/-- Takes a directory away with all that is in it. -/
def removeTree (d : Disk) (p : Path) : Except Fault Disk :=
  d.removeWhere p fun _ => true

/-- Whether a node that is a directory may be moved to where `present` is. -/
def checkReplaced (present : Option Node) : Except Fault Unit :=
  match present with
  | none => .ok ()
  | some (.file _) => .error .notDirectory
  | some (.directory es) => if es.isEmpty then .ok () else .error .notEmpty

/-- Moves a directory. What it is moved to may be an empty directory, and then it takes its place,
but not a place inside itself. -/
def moveDirectory (d : Disk) (source goal : Path) : Except Fault Disk := do
  match ← d.target source, ← d.target goal with
  | (.entry dir es name, _), (.entry dir' es' name', _) =>
    checkName name
    checkName name'
    match es.get? name with
    | none => throw .notFound
    | some (.file _) => throw .notDirectory
    | some node@(.directory _) =>
      -- The order of these three counts: a directory can be moved to where it is, though not empty.
      if (dir ++ [name]).isPrefixOf dir' then throw .invalidArgument
      if dir ++ [name] = dir' ++ [name'] then return d
      checkReplaced (es'.get? name')
      return (d.update dir (·.erase name)).update dir' (·.put name' node)
  | _, _ => throw .busy

end Disk

end GatedCalls
