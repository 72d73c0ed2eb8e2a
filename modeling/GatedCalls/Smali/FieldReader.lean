import GatedCalls.Smali.AnnotationReader
import GatedCalls.Smali.ClassDef
import GatedCalls.Smali.ModifierReader

/-!
# Reading fields

A field is one line, and the annotations on the lines below it if the words `.end field` close them
off. Annotations that are not closed off belong to the class, and are left unread.
-/

namespace GatedCalls

open Text

namespace Field

/-- Whether the character may stand in the name of a field. -/
def isNameChar (c : Char) : Bool :=
  c != ':' && c != '\n'

/-- Whether the character may stand in the type of a field. -/
def isTypeChar (c : Char) : Bool :=
  !isBlank c && c != '='

/-- Takes the type of a field. Fails behind it if it is no type descriptor. -/
def typeReader : Reader JavaType := do
  let text ← Reader.run1 isTypeChar
  match JavaType.ofDescriptor? (String.ofList text) with
  | some t => return t
  | none => Reader.fail

/-- Takes an equals sign and the rest of the line, which is the initial value of a field. -/
def initialReader : Reader String := do
  Reader.spaces
  Reader.literal "="
  Reader.spaces
  let text ← Reader.lineText
  return String.ofList (trim text)

/-- Takes what follows the word `.field`. Annotations belong to the field only if they are closed
off behind it. -/
def tailReader : Reader Field := do
  Reader.spaces1
  let modifiers ← Modifier.listReader
  let name ← Reader.run1 isNameChar
  Reader.literal ":"
  let type ← typeReader
  let initial ← Reader.optional initialReader
  let _ ← Reader.restOfLine
  let annotations ← Reader.optional (AnnotationBlock.closedReader ".end field")
  return ⟨String.ofList (trim name), modifiers, type, initial, annotations.getD []⟩

/-- Takes a field. -/
def reader : Reader Field := do
  Reader.literal ".field"
  tailReader

/-- Reading the type of a field moves forward. -/
theorem forward_typeReader : typeReader.Forward := by
  refine (Reader.forward_run1 _).bind fun text => ?_
  split
  · exact Reader.forward_pure _
  · exact Reader.forward_fail

/-- Reading an initial value moves forward. -/
theorem forward_initialReader : initialReader.Forward :=
  Reader.forward_spaces.bind fun _ =>
    (Reader.forward_literal _).bind fun _ =>
      Reader.forward_spaces.bind fun _ =>
        Reader.forward_lineText.bind fun _ => Reader.forward_pure _

/-- What follows the word `.field` is read forward. -/
theorem forward_tailReader : tailReader.Forward :=
  Reader.forward_spaces1.bind fun _ =>
    Modifier.forward_listReader.bind fun _ =>
      (Reader.forward_run1 _).bind fun _ =>
        (Reader.forward_literal _).bind fun _ =>
          forward_typeReader.bind fun _ =>
            forward_initialReader.optional.bind fun _ =>
              Reader.forward_restOfLine.bind fun _ =>
                (AnnotationBlock.forward_closedReader _).optional.bind fun _ =>
                  Reader.forward_pure _

/-- Reading a field moves forward. -/
theorem forward_reader : reader.Forward :=
  (Reader.forward_literal _).bind fun _ => forward_tailReader

/-- A field has at least the word `.field`. -/
theorem progresses_reader : reader.Progresses :=
  (Reader.progresses_literal (by decide)).bind fun _ => forward_tailReader

end Field

end GatedCalls
