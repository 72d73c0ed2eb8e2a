import GatedCalls.Text.Blank

/-!
# Class names

A class is named by its package path, with slashes: `java/lang/Object`. The name has two spellings:
as a descriptor, `Ljava/lang/Object;`, and in Java source, `java.lang.Object`.
-/

namespace GatedCalls

/-- The name of a class, with slashes between the packages and the class. -/
structure ClassName where
  path : String
  deriving DecidableEq, Repr, Inhabited

namespace ClassName

open Text

/-- The spelling `Lpackage/Name;`. -/
def descriptor (c : ClassName) : String :=
  "L" ++ c.path ++ ";"

/-- The spelling `package.Name`. -/
def javaName (c : ClassName) : String :=
  String.ofList (c.path.toList.map fun x => if x = '/' then '.' else x)

/-- Reads a descriptor, with blanks around it; the `L` and the `;` may be missing. -/
def ofDescriptor (text : String) : ClassName :=
  let body :=
    match trim text.toList with
    | 'L' :: s => s
    | s => s
  ⟨String.ofList (if body.getLast? = some ';' then body.dropLast else body)⟩

/-- Reads the spelling of Java source, with blanks around it. -/
def ofJavaName (text : String) : ClassName :=
  ⟨String.ofList ((trim text.toList).map fun x => if x = '.' then '/' else x)⟩

/-- Class names are ordered by the code points of their paths. -/
instance : Ord ClassName where
  compare := compareOn path

instance : Std.TransOrd ClassName :=
  inferInstanceAs (Std.TransCmp (compareOn path))

instance : Std.LawfulEqOrd ClassName where
  eq_of_compare {a b} h := by
    obtain ⟨a⟩ := a
    obtain ⟨b⟩ := b
    exact congrArg mk (Std.LawfulEqOrd.eq_of_compare h)

end ClassName

end GatedCalls
