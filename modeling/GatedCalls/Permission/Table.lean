import GatedCalls.Failure
import GatedCalls.Text.Line
import Std.Data.ExtTreeMap
import Std.Data.ExtTreeSet

/-!
# Permission tables

A permission table says of each gated method which permissions a call of it needs. As text it has
one method a line, with its permissions behind it, separated by commas; a number sign begins a
comment. Entries for the same method add up. No method is entered without a permission.
-/

namespace GatedCalls

open Text

/-- A set of permissions, in the order of their names. -/
abbrev PermissionSet : Type :=
  Std.ExtTreeSet String

/-- The gated methods and the permissions that calls of them need. -/
structure PermissionTable where
  apis : Std.ExtTreeMap MethodRef PermissionSet

namespace PermissionTable

/-- The table without entries. -/
def empty : PermissionTable :=
  ⟨∅⟩

/-- The permissions that a call of the method needs, if the method is gated. -/
def get? (t : PermissionTable) (m : MethodRef) : Option PermissionSet :=
  t.apis[m]?

/-- Whether the method is gated. -/
def contains (t : PermissionTable) (m : MethodRef) : Bool :=
  t.apis.contains m

/-- The number of gated methods. -/
def size (t : PermissionTable) : Nat :=
  t.apis.size

/-- Whether no method is gated. -/
def isEmpty (t : PermissionTable) : Bool :=
  t.apis.isEmpty

/-- All permissions of the table. -/
def permissions (t : PermissionTable) : PermissionSet :=
  t.apis.foldl (fun all _ ps => all ∪ ps) ∅

/-- Adds permissions to those that a method needs. At least one has to be given. -/
def insert (t : PermissionTable) (m : MethodRef) (ps : PermissionSet) :
    Except Failure PermissionTable :=
  if ps.isEmpty then .error (Cause.noPermissions m).failure
  else .ok ⟨t.apis.alter m fun known => some (known.getD ∅ ∪ ps)⟩

/-! ### Reading -/

/-- Whether the character may stand in the name of a permission. -/
def isPermissionChar (c : Char) : Bool :=
  !isBlank c && c != ',' && c != '#'

/-- Takes the name of a permission. -/
def permissionReader : Reader String := do
  let name ← Reader.run1 isPermissionChar
  return String.ofList name

/-- The name of a permission has at least one character. -/
theorem progresses_permissionReader : permissionReader.Progresses :=
  (Reader.progresses_run1 _).bind fun _ => Reader.forward_pure _

/-- Takes an entry: a method reference and one or more permissions. -/
def entryReader : Reader (MethodRef × List String) := do
  let m ← MethodRef.reader
  Reader.spaces1
  let ps ←
    Reader.sepBy1 permissionReader progresses_permissionReader Reader.comma Reader.forward_comma
  Reader.spaces
  return (m, ps)

/-- A line without its comment and the blanks around it. -/
def content (line : List Char) : List Char :=
  trim (line.takeWhile (· != '#'))

/-- Adds the entry on a line, which has the given number. -/
def addLine (t : PermissionTable) (line : List Char) (number : Nat) :
    Except Failure PermissionTable :=
  let entry := content line
  if entry.isEmpty then .ok t
  else
    match entryReader.whole? entry with
    | some (m, ps) => t.insert m (.ofList ps)
    | none => .error (Cause.tableLine number (String.ofList entry)).failure

/-- Reads a table. -/
def ofText (text : String) : Except Failure PermissionTable :=
  ((lines text.toList).zipIdx 1).foldlM (fun t (line, number) => t.addLine line number) empty

end PermissionTable

end GatedCalls
