import GatedCalls.Descriptor.JavaType

/-!
# Prototypes

A prototype is what a method takes and returns. Its descriptor has the descriptors of the parameters
in parentheses, one after another, and that of the result behind: `(I[J)V`.
-/

namespace GatedCalls

open Text

/-- The types of the parameters of a method and of its result. -/
structure Prototype where
  params : List JavaType
  result : JavaType
  deriving DecidableEq, Repr, Inhabited

namespace Prototype

/-- The spelling of class files. -/
def descriptor (p : Prototype) : String :=
  "(" ++ String.join (p.params.map JavaType.descriptor) ++ ")" ++ p.result.descriptor

/-- Takes the descriptor of a prototype. -/
def reader : Reader Prototype := do
  Reader.literal "("
  let params ← Reader.many JavaType.reader JavaType.progresses_reader
  Reader.literal ")"
  let result ← JavaType.reader
  return ⟨params, result⟩

/-- Reading a prototype moves forward. -/
theorem forward_reader : reader.Forward :=
  (Reader.forward_literal "(").bind fun _ =>
    (Reader.forward_many JavaType.forward_reader).bind fun _ =>
      (Reader.forward_literal ")").bind fun _ =>
        JavaType.forward_reader.bind fun _ => Reader.forward_pure _

/-- Reads a whole descriptor, with blanks around it. -/
def ofDescriptor? (text : String) : Option Prototype :=
  reader.whole? (trim text.toList)

/-- Whether the method returns nothing. -/
def returnsVoid (p : Prototype) : Bool :=
  p.result == .void

/-- A method returns nothing exactly if its result is of type void. -/
theorem returnsVoid_iff {p : Prototype} : p.returnsVoid = true ↔ p.result = .void :=
  beq_iff_eq

/-- Prototypes are ordered by their parameters, as words over types, and then by their results. -/
instance : Ord Prototype where
  compare := compareLex (compareOn params) (compareOn result)

instance : Std.TransOrd Prototype :=
  inferInstanceAs (Std.TransCmp (compareLex (compareOn params) (compareOn result)))

instance : Std.LawfulEqOrd Prototype where
  eq_of_compare {p q} h := by
    obtain ⟨ps, r⟩ := p
    obtain ⟨qs, t⟩ := q
    obtain ⟨h₁, h₂⟩ := compareLex_eq_eq.1 h
    have h₁ : ps = qs := Std.LawfulEqOrd.eq_of_compare h₁
    have h₂ : r = t := Std.LawfulEqOrd.eq_of_compare h₂
    rw [h₁, h₂]

end Prototype

end GatedCalls
