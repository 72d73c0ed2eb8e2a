import GatedCalls.Smali.FieldReader
import GatedCalls.Smali.MethodReader
import GatedCalls.Text.Line

/-!
# Reading classes

The text of a class is a sequence of statements, each told apart by its first word, with layout
between them. Where a statement cannot be read, `ClassDef.read` reports the line on which its reader
stopped. Of statements that can be said only once, the last one counts.
-/

namespace GatedCalls

open Text

/-! ### Statements -/

/-- A statement at the top level of the text of a class. -/
inductive Statement where
  | comment
  | header (modifiers : List Modifier) (name : ClassName)
  | superclass (name : ClassName)
  | source (body : String)
  | implemented (name : ClassName)
  | annotated (a : AnnotationBlock)
  | field (f : Field)
  | method (m : Method)
  deriving DecidableEq, Repr

namespace Statement

/-- Takes the rest of the line as the name of a class. -/
def nameReader : Reader ClassName := do
  let text ← Reader.restOfLine
  return ClassName.ofDescriptor (String.ofList text)

/-- Reading the name of a class moves forward. -/
theorem forward_nameReader : nameReader.Forward :=
  Reader.forward_restOfLine.bind fun _ => Reader.forward_pure _

/-- Takes a comment, which goes to the end of the line. -/
def commentReader : Reader Statement := do
  Reader.literal "#"
  let _ ← Reader.run Reader.isInLine
  return comment

/-- Takes the line that names the class. -/
def headerReader : Reader Statement := do
  Reader.literal ".class"
  Reader.spaces1
  let modifiers ← Modifier.listReader
  let name ← nameReader
  return header modifiers name

/-- Takes the line that names the class that is extended. -/
def superclassReader : Reader Statement := do
  Reader.literal ".super"
  Reader.spaces1
  let name ← nameReader
  return superclass name

/-- Takes a line that names an interface. -/
def implementedReader : Reader Statement := do
  Reader.literal ".implements"
  Reader.spaces1
  let name ← nameReader
  return implemented name

/-- Takes the line that names the source file; what follows the literal does not count. -/
def sourceReader : Reader Statement := do
  Reader.literal ".source"
  let body ← StringLiteral.reader
  let _ ← Reader.restOfLine
  return source (String.ofList body)

/-- Takes an annotation of the class. -/
def annotatedReader : Reader Statement := do
  let a ← AnnotationBlock.reader false
  return annotated a

/-- Takes a field. -/
def fieldReader : Reader Statement := do
  let f ← Field.reader
  return field f

/-- Takes a method. -/
def methodReader : Reader Statement := do
  let m ← Method.reader
  return method m

/-- The statements, each with the beginning that tells it apart. -/
def readers : List (String × Reader Statement) :=
  [("#", commentReader), (".class", headerReader), (".super", superclassReader),
    (".source", sourceReader), (".implements", implementedReader), (".annotation", annotatedReader),
    (".field", fieldReader), (".method", methodReader)]

/-- The reader of the statement with which the text begins. -/
def readerFor (s : List Char) : Reader Statement :=
  match readers.find? fun (beginning, _) => startsWith beginning s with
  | some (_, r) => r
  | none => Reader.fail

/-- Takes a statement. -/
def reader : Reader Statement :=
  fun s => readerFor s s

/-- The reader of each kind of statement moves forward. -/
theorem forward_of_mem {beginning : String} {r : Reader Statement}
    (h : (beginning, r) ∈ readers) : r.Forward := by
  simp only [readers, List.mem_cons, Prod.mk.injEq, List.not_mem_nil, or_false] at h
  rcases h with
    ⟨_, rfl⟩ | ⟨_, rfl⟩ | ⟨_, rfl⟩ | ⟨_, rfl⟩ | ⟨_, rfl⟩ | ⟨_, rfl⟩ | ⟨_, rfl⟩ | ⟨_, rfl⟩
  -- In the order of `readers`.
  · exact (Reader.forward_literal _).bind fun _ =>
      (Reader.forward_run _).bind fun _ => Reader.forward_pure _
  · exact (Reader.forward_literal _).bind fun _ =>
      Reader.forward_spaces1.bind fun _ =>
        Modifier.forward_listReader.bind fun _ =>
          forward_nameReader.bind fun _ => Reader.forward_pure _
  · exact (Reader.forward_literal _).bind fun _ =>
      Reader.forward_spaces1.bind fun _ => forward_nameReader.bind fun _ => Reader.forward_pure _
  · exact (Reader.forward_literal _).bind fun _ =>
      StringLiteral.forward_reader.bind fun _ =>
        Reader.forward_restOfLine.bind fun _ => Reader.forward_pure _
  · exact (Reader.forward_literal _).bind fun _ =>
      Reader.forward_spaces1.bind fun _ => forward_nameReader.bind fun _ => Reader.forward_pure _
  · exact (AnnotationBlock.forward_reader false).bind fun _ => Reader.forward_pure _
  · exact Field.forward_reader.bind fun _ => Reader.forward_pure _
  · exact Method.forward_reader.bind fun _ => Reader.forward_pure _

/-- A statement of each kind has at least the word with which it begins. -/
theorem progresses_of_mem {beginning : String} {r : Reader Statement}
    (h : (beginning, r) ∈ readers) : r.Progresses := by
  simp only [readers, List.mem_cons, Prod.mk.injEq, List.not_mem_nil, or_false] at h
  rcases h with
    ⟨_, rfl⟩ | ⟨_, rfl⟩ | ⟨_, rfl⟩ | ⟨_, rfl⟩ | ⟨_, rfl⟩ | ⟨_, rfl⟩ | ⟨_, rfl⟩ | ⟨_, rfl⟩
  -- In the order of `readers`; each of them begins with a word that is not empty.
  · exact (Reader.progresses_literal (by decide)).bind fun _ =>
      (Reader.forward_run _).bind fun _ => Reader.forward_pure _
  · exact (Reader.progresses_literal (by decide)).bind fun _ =>
      Reader.forward_spaces1.bind fun _ =>
        Modifier.forward_listReader.bind fun _ =>
          forward_nameReader.bind fun _ => Reader.forward_pure _
  · exact (Reader.progresses_literal (by decide)).bind fun _ =>
      Reader.forward_spaces1.bind fun _ => forward_nameReader.bind fun _ => Reader.forward_pure _
  · exact (Reader.progresses_literal (by decide)).bind fun _ =>
      StringLiteral.forward_reader.bind fun _ =>
        Reader.forward_restOfLine.bind fun _ => Reader.forward_pure _
  · exact (Reader.progresses_literal (by decide)).bind fun _ =>
      Reader.forward_spaces1.bind fun _ => forward_nameReader.bind fun _ => Reader.forward_pure _
  · exact (AnnotationBlock.progresses_reader false).bind fun _ => Reader.forward_pure _
  · exact Field.progresses_reader.bind fun _ => Reader.forward_pure _
  · exact Method.progresses_reader.bind fun _ => Reader.forward_pure _

/-- Whatever a text begins with, its statement is read forward. -/
theorem forward_readerFor (s : List Char) : (readerFor s).Forward := by
  unfold readerFor
  split
  · next h => exact forward_of_mem (List.mem_of_find?_eq_some h)
  · exact Reader.forward_fail

/-- Whatever a text begins with, its statement is not empty. -/
theorem progresses_readerFor (s : List Char) : (readerFor s).Progresses := by
  unfold readerFor
  split
  · next h => exact progresses_of_mem (List.mem_of_find?_eq_some h)
  · exact ⟨fun h => by injection h⟩

/-- Reading a statement moves forward. -/
theorem forward_reader : reader.Forward where
  ok {s} := (forward_readerFor s).ok
  error {s} := (forward_readerFor s).error

/-- A statement is not empty. -/
theorem progresses_reader : reader.Progresses where
  lt {s} := (progresses_readerFor s).lt

/-- Takes a statement and the layout behind it. -/
def spacedReader : Reader Statement := do
  let st ← reader
  Reader.layout
  return st

/-- Reading a statement and the layout behind it moves forward. -/
theorem forward_spacedReader : spacedReader.Forward :=
  forward_reader.bind fun _ => Reader.forward_layout.bind fun _ => Reader.forward_pure _

/-- A statement with the layout behind it is not empty. -/
theorem progresses_spacedReader : spacedReader.Progresses :=
  progresses_reader.bind fun _ => Reader.forward_layout.bind fun _ => Reader.forward_pure _

/-- Reads a whole text as statements. -/
def readAll (s : List Char) : Except (List Char) (List Statement) :=
  let t := s.dropWhile isLayout
  match Reader.manyTill Reader.endOfText spacedReader progresses_spacedReader t t with
  | .ok ((statements, ()), _) => .ok statements
  | .error e => .error e

/-- The modifiers and the name that a statement gives the class. -/
def header? : Statement → Option (List Modifier × ClassName)
  | header modifiers name => some (modifiers, name)
  | _ => none

/-- The extended class that a statement names. -/
def superclass? : Statement → Option ClassName
  | superclass name => some name
  | _ => none

/-- The source file that a statement names. -/
def source? : Statement → Option String
  | source body => some body
  | _ => none

/-- The interface that a statement names. -/
def implemented? : Statement → Option ClassName
  | implemented name => some name
  | _ => none

/-- The annotation that a statement is. -/
def annotated? : Statement → Option AnnotationBlock
  | annotated a => some a
  | _ => none

/-- The field that a statement is. -/
def field? : Statement → Option Field
  | field f => some f
  | _ => none

/-- The method that a statement is. -/
def method? : Statement → Option Method
  | method m => some m
  | _ => none

end Statement

/-! ### Classes -/

namespace ClassDef

/-- The class that statements define, if one of them names it. -/
def ofStatements? (sts : List Statement) : Option ClassDef :=
  match (sts.filterMap Statement.header?).getLast? with
  | none => none
  | some (modifiers, name) =>
    some {
      name
      modifiers
      source := (sts.filterMap Statement.source?).getLast?
      superclass := (sts.filterMap Statement.superclass?).getLast?
      interfaces := sts.filterMap Statement.implemented?
      annotations := sts.filterMap Statement.annotated?
      fields := sts.filterMap Statement.field?
      methods := sts.filterMap Statement.method? }

/-- The number of the line on which the rest of a text begins. -/
def lineNumber (whole rest : List Char) : Nat :=
  (whole.take (whole.length - rest.length)).count '\n' + 1

/-- The first line of a text, trimmed. -/
def firstLine (s : List Char) : String :=
  String.ofList (trim ((lines s).headD []))

/-- Reads the smali text of a class. -/
def read (text : String) : Except Failure ClassDef :=
  let s := text.toList
  match Statement.readAll s with
  | .error rest => .error (Cause.line (lineNumber s rest) (firstLine rest)).failure
  | .ok sts =>
    match ofStatements? sts with
    | some c => .ok c
    | none => .error Cause.noClassLine.failure

end ClassDef

end GatedCalls
