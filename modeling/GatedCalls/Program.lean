import GatedCalls.Smali.ClassReader
import Std.Data.ExtTreeSet

/-!
# Programs

A program is the classes of one application or of one replacement library, in the order in which
they were read, with the level of the platform that it is meant for.
-/

namespace GatedCalls

/-- The classes of an application or of a library. -/
structure Program where
  classes : List ClassDef
  apiLevel : UInt32
  deriving DecidableEq, Repr

namespace Program

/-- The level of the platform that is assumed where none is given. -/
def defaultApiLevel : UInt32 := 19

/-- The names of the classes, in order. -/
def names (p : Program) : List ClassName :=
  p.classes.map (·.name)

/-- The first class with the given descriptor. -/
def findClass? (p : Program) (descriptor : String) : Option ClassDef :=
  p.classes.find? fun c => c.name.descriptor == descriptor

/-- The methods that the instructions of the program call, once for each call, in order. -/
def callees (p : Program) : List MethodRef :=
  p.classes.flatMap fun c => c.methods.flatMap fun m => m.body.filterMap BodyItem.callee?

/-- Reads a program from the texts of its classes. -/
def read (texts : List String) (apiLevel : UInt32) : Except Failure Program := do
  let classes ← texts.mapM ClassDef.read
  return ⟨classes, apiLevel⟩

end Program

namespace ClassName

/-- The first name of the list that stands in `seen` or further ahead in the list. -/
def firstRepeatedFrom? (seen : Std.ExtTreeSet ClassName) : List ClassName → Option ClassName
  | [] => none
  | c :: cs => if c ∈ seen then some c else firstRepeatedFrom? (seen.insert c) cs

/-- The first name that already stands further ahead in the list. -/
def firstRepeated? (cs : List ClassName) : Option ClassName :=
  firstRepeatedFrom? ∅ cs

end ClassName

/-- Refuses a program in which two classes have the same name. -/
def Program.checkUnique (p : Program) : Except Failure Unit :=
  match ClassName.firstRepeated? p.names with
  | some c => .error (Cause.duplicateClass c).failure
  | none => .ok ()

end GatedCalls
