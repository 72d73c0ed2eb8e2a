import GatedCalls.Smali.AnnotationReader
import GatedCalls.Smali.ClassDef

/-!
# Reading the entries of methods

Most entries of a method are lines of their own (`Entry.ofLine?`); annotations, blocks of data and
parameters with annotations span several lines.
-/

namespace GatedCalls

open Text

/-- A part of the text of a method. -/
inductive Entry where
  | comment
  | locals (n : UInt32)
  | annotated (a : AnnotationBlock)
  | item (i : BodyItem)
  deriving DecidableEq, Repr

namespace Entry

/-- Reads a trimmed line that is an entry of its own. -/
def ofLine? (line : List Char) : Option Entry :=
  if startsWith ".locals" line then (word32? (trim (line.drop 7))).map locals
  else if startsWith ".line" line then (word32? (trim (line.drop 5))).map fun n => item (.line n)
  else if startsWith ":" line then
    match Label.reader line with
    | .ok (name, _) => some (item (.label name))
    | .error _ => none
  else if startsWith "." line then some (item (.directive (String.ofList line)))
  else
    match Instruction.readLine line with
    | .ok (i, _) => some (item (.instruction i))
    | .error _ => none

/-- The words that end the block of data that a line opens, if it opens one. -/
def dataEnd? (line : List Char) : Option String :=
  if startsWith ".array-data" line then some ".end array-data"
  else if startsWith ".packed-switch" line then some ".end packed-switch"
  else if startsWith ".sparse-switch" line then some ".end sparse-switch"
  else none

/-- Takes a comment, which goes to the end of the line. -/
def commentReader : Reader Entry := do
  Reader.literal "#"
  let _ ← Reader.run Reader.isInLine
  return comment

/-- Takes an annotation. -/
def annotationReader : Reader Entry := do
  let a ← AnnotationBlock.reader false
  return annotated a

/-- Takes a block with all its lines as one directive. -/
def directiveReader (closing : String) : Reader Entry := do
  let text ← blockReader closing
  return item (.directive text)

/-- Whether a parameter line has annotations of its own: they are closed off behind it. -/
def isClosedParam (line rest : List Char) : Bool :=
  startsWith ".param" line &&
    match AnnotationBlock.closedReader ".end param" rest with
    | .ok _ => true
    | .error _ => false

/-- Takes an entry that begins with neither a comment nor an annotation. -/
def lineReader : Reader Entry :=
  fun s =>
    match Reader.line s with
    | .error e => .error e
    | .ok (text, rest) =>
      match dataEnd? (trim text) with
      | some closing => directiveReader closing s
      | none =>
        if isClosedParam (trim text) rest then directiveReader ".end param" s
        else
          match ofLine? (trim text) with
          | some e => .ok (e, rest)
          | none => .error s

/-- Takes an entry of a method. -/
def reader : Reader Entry :=
  fun s =>
    if startsWith "#" s then commentReader s
    else if startsWith ".annotation" s then annotationReader s
    else lineReader s

/-- Reading a comment moves forward. -/
theorem forward_commentReader : commentReader.Forward :=
  (Reader.forward_literal _).bind fun _ =>
    (Reader.forward_run _).bind fun _ => Reader.forward_pure _

/-- A comment has at least its number sign. -/
theorem progresses_commentReader : commentReader.Progresses :=
  (Reader.progresses_literal (by decide)).bind fun _ =>
    (Reader.forward_run _).bind fun _ => Reader.forward_pure _

/-- Reading an annotation of a method moves forward. -/
theorem forward_annotationReader : annotationReader.Forward :=
  (AnnotationBlock.forward_reader false).bind fun _ => Reader.forward_pure _

/-- An annotation of a method is not empty. -/
theorem progresses_annotationReader : annotationReader.Progresses :=
  (AnnotationBlock.progresses_reader false).bind fun _ => Reader.forward_pure _

/-- Reading a directive of several lines moves forward. -/
theorem forward_directiveReader (closing : String) : (directiveReader closing).Forward :=
  (forward_blockReader closing).bind fun _ => Reader.forward_pure _

/-- A directive of several lines has at least its last line. -/
theorem progresses_directiveReader (closing : String) : (directiveReader closing).Progresses :=
  (progresses_blockReader closing).bind fun _ => Reader.forward_pure _

/-- Reading an entry that begins with a line moves forward. -/
theorem forward_lineReader : lineReader.Forward where
  ok {s a t} := by
    fun_cases lineReader s with
    | case2 text rest hline closing hdata => exact (forward_directiveReader closing).ok
    | case3 text rest hline hdata hparam => exact (forward_directiveReader ".end param").ok
    | case4 text rest hline hdata hparam e hentry =>
      intro h
      cases h
      exact Reader.forward_line.ok hline
    | _ => intro h; contradiction
  error {s e} := by
    fun_cases lineReader s with
    | case1 e' hline =>
      intro h
      cases h
      exact Reader.forward_line.error hline
    | case2 text rest hline closing hdata => exact (forward_directiveReader closing).error
    | case3 text rest hline hdata hparam => exact (forward_directiveReader ".end param").error
    | case4 => intro h; contradiction
    | case5 =>
      intro h
      cases h
      exact List.suffix_refl _

/-- An entry that begins with a line takes at least that line. -/
theorem progresses_lineReader : lineReader.Progresses where
  lt {s a t} := by
    fun_cases lineReader s with
    | case2 text rest hline closing hdata => exact (progresses_directiveReader closing).lt
    | case3 text rest hline hdata hparam => exact (progresses_directiveReader ".end param").lt
    | case4 text rest hline hdata hparam e hentry =>
      intro h
      cases h
      exact Reader.progresses_line.lt hline
    | _ => intro h; contradiction

/-- Reading an entry moves forward. -/
theorem forward_reader : reader.Forward :=
  forward_commentReader.ite
    (forward_annotationReader.ite forward_lineReader (startsWith ".annotation")) (startsWith "#")

/-- An entry takes at least one character. -/
theorem progresses_reader : reader.Progresses :=
  progresses_commentReader.ite
    (progresses_annotationReader.ite progresses_lineReader (startsWith ".annotation"))
    (startsWith "#")

/-- Takes an entry and the layout behind it. -/
def spacedReader : Reader Entry := do
  let e ← reader
  Reader.layout
  return e

/-- Reading an entry and the layout behind it moves forward. -/
theorem forward_spacedReader : spacedReader.Forward :=
  forward_reader.bind fun _ => Reader.forward_layout.bind fun _ => Reader.forward_pure _

/-- An entry with the layout behind it takes at least one character. -/
theorem progresses_spacedReader : spacedReader.Progresses :=
  progresses_reader.bind fun _ => Reader.forward_layout.bind fun _ => Reader.forward_pure _

/-- The number of registers that an entry declares. -/
def locals? : Entry → Option UInt32
  | locals n => some n
  | _ => none

/-- The annotation that an entry is. -/
def block? : Entry → Option AnnotationBlock
  | annotated a => some a
  | _ => none

/-- What an entry contributes to the body. -/
def item? : Entry → Option BodyItem
  | item i => some i
  | _ => none

end Entry

end GatedCalls
