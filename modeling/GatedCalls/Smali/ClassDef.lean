import GatedCalls.Smali.AnnotationBlock
import GatedCalls.Smali.Instruction

/-!
# Classes

A class as far as the resolution of its calls needs it. What is not understood is kept as text, so
that it can be printed again: string literals with their escapes, directives and instructions other
than calls as they are written.
-/

namespace GatedCalls

/-- An entry of the body of a method: a label, a line number, an instruction, or a directive. A
directive of several lines has them separated by line feeds. -/
inductive BodyItem where
  | label (name : String)
  | line (number : UInt32)
  | directive (text : String)
  | instruction (i : Instruction)
  deriving DecidableEq, Repr, Inhabited

/-- The instruction of an entry. -/
def BodyItem.instruction? : BodyItem → Option Instruction
  | instruction i => some i
  | _ => none

/-- The method that an entry calls, if it is a call. -/
def BodyItem.callee? (item : BodyItem) : Option MethodRef :=
  item.instruction?.bind Instruction.callee?

/-- A field of a class. -/
structure Field where
  name : String
  modifiers : List Modifier
  type : JavaType
  /-- The text of the value that the field starts with. -/
  initial : Option String
  annotations : List AnnotationBlock
  deriving DecidableEq, Repr

/-- A method of a class. -/
structure Method where
  name : String
  modifiers : List Modifier
  isConstructor : Bool
  proto : Prototype
  /-- The number of registers beside those of the parameters; methods without code have none. -/
  locals : Option UInt32
  annotations : List AnnotationBlock
  body : List BodyItem
  deriving DecidableEq, Repr

namespace Method

/-- Whether every class may call the method. -/
def isPublic (m : Method) : Bool :=
  m.modifiers.contains .public

/-- Whether the method has no receiver. -/
def isStatic (m : Method) : Bool :=
  m.modifiers.contains .static

/-- A public method is one with the modifier. -/
theorem isPublic_iff {m : Method} : m.isPublic = true ↔ .public ∈ m.modifiers :=
  List.contains_iff_mem

/-- A static method is one with the modifier. -/
theorem isStatic_iff {m : Method} : m.isStatic = true ↔ .static ∈ m.modifiers :=
  List.contains_iff_mem

/-- Whether the method has code; abstract and native methods have none. -/
def hasBody (m : Method) : Bool :=
  m.locals.isSome || !m.body.isEmpty

end Method

/-- A class: what a file of smali text defines. -/
structure ClassDef where
  name : ClassName
  modifiers : List Modifier
  /-- The name of the source file, as the body of a string literal. -/
  source : Option String
  /-- The class that is extended; only `java/lang/Object` has none. -/
  superclass : Option ClassName
  interfaces : List ClassName
  annotations : List AnnotationBlock
  fields : List Field
  methods : List Method
  deriving DecidableEq, Repr

namespace ClassDef

/-- Whether every class may use the class. -/
def isPublic (c : ClassDef) : Bool :=
  c.modifiers.contains .public

/-- A public class is one with the modifier. -/
theorem isPublic_iff {c : ClassDef} : c.isPublic = true ↔ .public ∈ c.modifiers :=
  List.contains_iff_mem

/-- The reference to a method of the class. -/
def methodRef (c : ClassDef) (m : Method) : MethodRef :=
  ⟨c.name.descriptor, m.name, m.proto⟩

end ClassDef

end GatedCalls
