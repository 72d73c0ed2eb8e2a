import GatedCalls.Descriptor.MethodRef
import GatedCalls.Smali.ClassDef
import Std.Data.ExtTreeMap
import Std.Data.ExtTreeSet

/-!
# Redirections

A redirection sends the calls of one method to another one, which is static and takes the receiver
of the call as its first parameter. `Replacements` is what the replacement libraries provide: the
classes to ship, and for each permission its redirections.
-/

namespace GatedCalls

/-- Calls of `callee` become static calls of `replacement`. -/
structure Redirection where
  callee : MethodRef
  replacement : MethodRef
  deriving DecidableEq, Repr

namespace Redirection

/-- The redirection as it is reported. -/
def text (r : Redirection) : String :=
  r.callee.text ++ " => " ++ r.replacement.text

/-- Redirections are ordered by the callee, then by the replacement. -/
instance : Ord Redirection where
  compare := compareLex (compareOn callee) (compareOn replacement)

instance : Std.TransOrd Redirection :=
  inferInstanceAs (Std.TransCmp (compareLex (compareOn callee) (compareOn replacement)))

instance : Std.LawfulEqOrd Redirection where
  eq_of_compare {a b} h := by
    obtain ⟨o, r⟩ := a
    obtain ⟨o', r'⟩ := b
    obtain ⟨h₁, h₂⟩ := compareLex_eq_eq.1 h
    have h₁ : o = o' := Std.LawfulEqOrd.eq_of_compare h₁
    have h₂ : r = r' := Std.LawfulEqOrd.eq_of_compare h₂
    rw [h₁, h₂]

end Redirection

/-- What the replacement libraries provide. -/
structure Replacements where
  /-- The classes that are shipped with the application. -/
  classes : List ClassDef
  /-- The redirections for each permission. -/
  redirections : Std.ExtTreeMap String (Std.ExtTreeSet Redirection)

namespace Replacements

/-- Nothing is provided. -/
def empty : Replacements :=
  ⟨[], ∅⟩

/-- The number of redirections, over all permissions. -/
def redirectionCount (r : Replacements) : Nat :=
  r.redirections.foldl (fun n _ rs => n + rs.size) 0

/-- The redirections with their permissions, in the order of both. -/
def entries (r : Replacements) : List (String × Redirection) :=
  r.redirections.toList.flatMap fun (permission, rs) => rs.toList.map fun x => (permission, x)

/-- The redirections of a permission. -/
def redirectionsFor (r : Replacements) (permission : String) : Std.ExtTreeSet Redirection :=
  r.redirections.getD permission ∅

/-- Adds a redirection for a permission. -/
def add (r : Replacements) (permission : String) (x : Redirection) : Replacements :=
  { r with
    redirections := r.redirections.alter permission fun known => some ((known.getD ∅).insert x) }

/-- Adds classes behind those that are there. -/
def addClasses (r : Replacements) (cs : List ClassDef) : Replacements :=
  { r with classes := r.classes ++ cs }

end Replacements

end GatedCalls
