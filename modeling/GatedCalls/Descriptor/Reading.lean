import GatedCalls.Failure

/-!
# Reading descriptors with a reason

The readers of whole descriptors, with the failure that names the text that is none.
-/

namespace GatedCalls

/-- Reads a type descriptor, with blanks around it. -/
def JavaType.readDescriptor (text : String) : Except Failure JavaType :=
  match JavaType.ofDescriptor? text with
  | some t => .ok t
  | none => .error (Cause.typeDescriptor text).failure

/-- Reads the Java spelling of a type. -/
def JavaType.readJavaName (text : String) : Except Failure JavaType :=
  match JavaType.ofJavaName? text with
  | some t => .ok t
  | none => .error Cause.emptyJavaName.failure

/-- Reads the descriptor of a prototype, with blanks around it. -/
def Prototype.readDescriptor (text : String) : Except Failure Prototype :=
  match Prototype.ofDescriptor? text with
  | some p => .ok p
  | none => .error (Cause.protoDescriptor text).failure

/-- Reads a method reference, with blanks around it. -/
def MethodRef.read (text : String) : Except Failure MethodRef :=
  match MethodRef.ofText? text with
  | some m => .ok m
  | none => .error (Cause.methodReference text).failure

end GatedCalls
