import GatedCalls.Log
import GatedCalls.Permission.Table
import GatedCalls.Redirection.Table
import GatedCalls.Smali.ClassDef

/-!
# Call sites

The calls that a resolution looks at are the virtual calls of gated methods. Each gets a verdict: it
is redirected to a static replacement, which takes the receiver as its first argument in the same
register; or it is removed, if it returns nothing and the resolution may remove such calls; or it
stays unresolved.
-/

namespace GatedCalls

/-- What a resolution goes by: which methods are gated, where their calls are sent, and whether
calls that return nothing are removed when they are sent nowhere. -/
structure Resolver where
  permissions : PermissionTable
  redirections : RedirectionTable
  removesVoid : Bool

/-- What becomes of a gated call. -/
inductive Verdict where
  | redirected (replacement : MethodRef)
  | removed
  | unresolved
  deriving DecidableEq, Repr

/-- Whether the verdict leaves the call as it is. -/
def Verdict.keeps : Verdict → Bool
  | unresolved => true
  | _ => false

/-- The call in place of a virtual one: static, with the same registers. -/
def Call.redirect (c : Call) (replacement : MethodRef) : Call :=
  { c with dispatch := .static, callee := replacement }

/-- A gated call with the permissions that it needs and with its verdict. -/
structure CallSite where
  call : Call
  permissions : PermissionSet
  verdict : Verdict

namespace CallSite

/-- What stands in the place of the call after the resolution. -/
def resolved (s : CallSite) : List BodyItem :=
  match s.verdict with
  | .redirected replacement => [.instruction (.call (s.call.redirect replacement))]
  | .removed => []
  | .unresolved => [.instruction (.call s.call)]

/-- The permissions that the call needs, as they are reported. -/
def permissionList (s : CallSite) : String :=
  ", ".intercalate s.permissions.toList

/-- The record of the verdict on a call in the method `caller`. -/
def verdictRecord (caller : MethodRef) (s : CallSite) : Log.Record :=
  match s.verdict with
  | .redirected replacement => ⟨.debug, .resolution, caller.text ++ ": redirecting " ++
      s.call.callee.text ++ " to " ++ replacement.text⟩
  | .removed => ⟨.debug, .resolution, caller.text ++ ": removing call to " ++ s.call.callee.text⟩
  | .unresolved => ⟨.error, .resolution, caller.text ++ ": no replacement for " ++
      s.call.callee.text ++ " which requires " ++ s.permissionList⟩

/-- The records of a call in the method `caller`. -/
def records (caller : MethodRef) (s : CallSite) : List Log.Record :=
  [⟨.debug, .resolution, caller.text ++ ": call to " ++ s.call.callee.text ++ " requires " ++
    s.permissionList⟩, s.verdictRecord caller]

end CallSite

namespace Resolver

/-- The verdict on gated virtual calls of a method. -/
def verdict (r : Resolver) (callee : MethodRef) : Verdict :=
  match r.redirections.get? callee with
  | some replacement => .redirected replacement
  | none => if r.removesVoid && callee.returnsVoid then .removed else .unresolved

/-- The call site that a call is, if it is virtual and its method is gated. -/
def siteOfCall? (r : Resolver) (c : Call) : Option CallSite :=
  if c.isVirtual then
    (r.permissions.get? c.callee).map fun ps => ⟨c, ps, r.verdict c.callee⟩
  else none

/-- The call site that an entry of a body is. -/
def site? (r : Resolver) (item : BodyItem) : Option CallSite :=
  match item with
  | .instruction (.call c) => r.siteOfCall? c
  | _ => none

end Resolver

end GatedCalls
