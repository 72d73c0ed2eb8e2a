import GatedCalls.Log
import GatedCalls.Permission.Table
import GatedCalls.Program

/-!
# Usage of permissions

An inventory of the gated calls of a program: for each permission, which methods that need it are
called, and how often. Calls of every kind count; a call that needs two permissions counts under
both.
-/

namespace GatedCalls

/-- For each permission, the gated methods that are called, with the number of calls. -/
structure PermissionUsage where
  permissions : Std.ExtTreeMap String (Std.ExtTreeMap MethodRef Nat)

namespace PermissionUsage

/-- The inventory of a program without gated calls. -/
def empty : PermissionUsage :=
  ⟨∅⟩

/-- Whether there are no gated calls. -/
def isEmpty (u : PermissionUsage) : Bool :=
  u.permissions.isEmpty

/-- The number of calls that need the permission. -/
def callCount (u : PermissionUsage) (permission : String) : Nat :=
  match u.permissions[permission]? with
  | some callees => callees.foldl (fun n _ k => n + k) 0
  | none => 0

/-- Counts one more call of a method under a permission. -/
def add (u : PermissionUsage) (callee : MethodRef) (permission : String) : PermissionUsage :=
  ⟨u.permissions.alter permission fun callees =>
    some ((callees.getD ∅).alter callee fun n => some (n.getD 0 + 1))⟩

/-- Counts one more call of a method that needs the given permissions. -/
def addCall (u : PermissionUsage) (callee : MethodRef) (ps : PermissionSet) : PermissionUsage :=
  ps.toList.foldl (fun u p => u.add callee p) u

/-- The inventory of the calls of the given methods, in order. -/
def ofCallees (table : PermissionTable) (callees : List MethodRef) : PermissionUsage :=
  callees.foldl
    (fun u callee =>
      match table.get? callee with
      | some ps => u.addCall callee ps
      | none => u)
    empty

/-- The inventory of the gated calls of a program. -/
def scan (p : Program) (table : PermissionTable) : Logged PermissionUsage :=
  let callees := p.callees
  let usage := ofCallees table callees
  let sites := callees.countP table.contains
  ⟨usage, [⟨.info, .usage, "Found " ++ toString sites ++ " gated call sites needing " ++
    toString usage.permissions.size ++ " permissions"⟩]⟩

end PermissionUsage

end GatedCalls
