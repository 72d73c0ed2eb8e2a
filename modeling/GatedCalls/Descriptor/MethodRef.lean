import GatedCalls.Descriptor.Prototype

/-!
# Method references

A method reference names a method by the class that defines it, its own name and its prototype:
`Lfoo/Bar;->name(I)V`. The class is kept as it is spelled: a call may also go through an array type,
as in `[I->clone()Ljava/lang/Object;`.
-/

namespace GatedCalls

open Text

/-- The name of a method anywhere in a program: the descriptor of the defining class, the name of
the method and its prototype. -/
structure MethodRef where
  owner : String
  name : String
  proto : Prototype
  deriving DecidableEq, Repr, Inhabited

namespace MethodRef

/-- The spelling in smali text. -/
def text (m : MethodRef) : String :=
  m.owner ++ "->" ++ m.name ++ m.proto.descriptor

/-- Takes a method reference. The owner ends at the first arrow and the name at the first
parenthesis after it; blanks around both are dropped. -/
def reader : Reader MethodRef := do
  let owner ← Reader.before "->"
  Reader.literal "->"
  let name ← Reader.before "("
  let proto ← Prototype.reader
  return ⟨String.ofList (trim owner), String.ofList (trim name), proto⟩

/-- Reads a whole method reference, with blanks around it. -/
def ofText? (s : String) : Option MethodRef :=
  reader.whole? (trim s.toList)

/-- Whether the method returns nothing. -/
def returnsVoid (m : MethodRef) : Bool :=
  m.proto.returnsVoid

/-- A method returns nothing exactly if its result is of type void. -/
theorem returnsVoid_iff {m : MethodRef} : m.returnsVoid = true ↔ m.proto.result = .void :=
  Prototype.returnsVoid_iff

/-- Method references are ordered by owner, then by name, then by prototype. -/
instance : Ord MethodRef where
  compare := compareLex (compareOn owner) (compareLex (compareOn name) (compareOn proto))

instance : Std.TransOrd MethodRef :=
  inferInstanceAs
    (Std.TransCmp (compareLex (compareOn owner) (compareLex (compareOn name) (compareOn proto))))

instance : Std.LawfulEqOrd MethodRef where
  eq_of_compare {a b} h := by
    obtain ⟨o, n, p⟩ := a
    obtain ⟨o', n', p'⟩ := b
    obtain ⟨h₁, h⟩ := compareLex_eq_eq.1 h
    obtain ⟨h₂, h₃⟩ := compareLex_eq_eq.1 h
    have h₁ : o = o' := Std.LawfulEqOrd.eq_of_compare h₁
    have h₂ : n = n' := Std.LawfulEqOrd.eq_of_compare h₂
    have h₃ : p = p' := Std.LawfulEqOrd.eq_of_compare h₃
    rw [h₁, h₂, h₃]

end MethodRef

end GatedCalls
