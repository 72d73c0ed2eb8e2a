import GatedCalls.Smali.AnnotationBlock
import GatedCalls.Text.Alphanumeric

/-!
# Reading the elements of annotations

`Element.nameReader` takes the name of an element off a smali text, and `ElementValue.flatReader` a
value that is no annotation: a constant of an enumeration, an array, or whatever stands on the line.
An array that does not come to its end is therefore read as plain text.

An item of an array is kept as its text. An annotation that is one is a block of lines, which
`blockReader` takes without reading what the lines say.
-/

namespace GatedCalls

open Text

/-- Takes the lines of a block down to the first one that begins with `closing`, and yields those
that are not blank, trimmed. Fails where the block began if it has no such line. -/
def blockReader (closing : String) : Reader String :=
  fun s =>
    match Reader.manyTill (closingLine closing) Reader.line Reader.progresses_line s s with
    | .ok ((lines, last), t) =>
      let lines := (lines.map trim).filter (! ·.isEmpty)
      .ok (joinLines ((lines ++ [last]).map String.ofList), t)
    | .error e => .error e
where
  /-- Takes a line that begins with `closing`, but for blanks, and yields it trimmed. -/
  closingLine (closing : String) : Reader (List Char) := do
    let text ← Reader.line
    if startsWith closing (trim text) then return trim text else Reader.fail

/-- Reading the last line of a block moves forward. -/
theorem forward_closingLine (closing : String) : (blockReader.closingLine closing).Forward := by
  refine Reader.forward_line.bind fun text => ?_
  split
  · exact Reader.forward_pure _
  · exact Reader.forward_fail

/-- Reading a block moves forward, and a block without an end fails where it began. -/
theorem forward_blockReader (closing : String) : (blockReader closing).Forward where
  ok {s a t} h := by
    unfold blockReader at h
    split at h
    · next hlines =>
      cases h
      exact Reader.manyTill_suffix (forward_closingLine closing) Reader.forward_line hlines
    · contradiction
  error {s e} h := by
    unfold blockReader at h
    split at h
    · contradiction
    · next hlines =>
      cases h
      exact Reader.manyTill_error_suffix Reader.forward_line (List.suffix_refl s) hlines

/-- The last line of a block is not empty. -/
theorem progresses_closingLine (closing : String) :
    (blockReader.closingLine closing).Progresses := by
  refine Reader.progresses_line.bind fun text => ?_
  split
  · exact Reader.forward_pure _
  · exact Reader.forward_fail

/-- A block has at least its last line. -/
theorem progresses_blockReader (closing : String) : (blockReader closing).Progresses where
  lt {s a t} h := by
    unfold blockReader at h
    split at h
    · next he =>
      cases h
      exact Reader.manyTill_lt Reader.progresses_line (progresses_closingLine closing) he
    · contradiction

namespace ElementValue

/-- Whether the character may stand in an item of an array that is no string. -/
def isItemChar (c : Char) : Bool :=
  c != ',' && c != '\x7d' && c != '\n'

/-- Takes an item of an array that is neither a string nor an annotation: the text up to a comma, a
brace or the end of the line. -/
def plainItemReader : Reader String := do
  let text ← Reader.inLayout (Reader.run1 isItemChar)
  return String.ofList (trim text)

/-- Takes a string as an item of an array, and yields it with its quotes. -/
def stringItemReader : Reader String := do
  let body ← Reader.inLayout StringLiteral.reader
  return "\"" ++ String.ofList body ++ "\""

/-- Takes an annotation with all its lines, or plain text. -/
def otherItemReader : Reader String :=
  fun s =>
    if startsWith ".subannotation" s then blockReader ".end subannotation" s else plainItemReader s

/-- Takes an item of an array and the comma behind it, if there is one. -/
def itemReader : Reader String := do
  let item ← Reader.orElse stringItemReader otherItemReader
  let _ ← Reader.optional (Reader.inLayout (Reader.literal ","))
  return item

/-- Reading a plain item moves forward. -/
theorem forward_plainItemReader : plainItemReader.Forward :=
  (Reader.forward_run1 _).inLayout.bind fun _ => Reader.forward_pure _

/-- A plain item has at least one character. -/
theorem progresses_plainItemReader : plainItemReader.Progresses :=
  (Reader.progresses_run1 _).inLayout.bind fun _ => Reader.forward_pure _

/-- Reading a string as an item moves forward. -/
theorem forward_stringItemReader : stringItemReader.Forward :=
  StringLiteral.forward_reader.inLayout.bind fun _ => Reader.forward_pure _

/-- A string has at least its quotes. -/
theorem progresses_stringItemReader : stringItemReader.Progresses :=
  StringLiteral.progresses_reader.inLayout.bind fun _ => Reader.forward_pure _

/-- Reading an item that is no string moves forward. -/
theorem forward_otherItemReader : otherItemReader.Forward :=
  (forward_blockReader _).ite forward_plainItemReader (startsWith ".subannotation")

/-- An item that is no string is not empty. -/
theorem progresses_otherItemReader : otherItemReader.Progresses :=
  (progresses_blockReader _).ite progresses_plainItemReader (startsWith ".subannotation")

/-- Reading an item moves forward. -/
theorem forward_itemReader : itemReader.Forward :=
  (forward_stringItemReader.orElse forward_otherItemReader).bind fun _ =>
    (Reader.forward_literal _).inLayout.optional.bind fun _ => Reader.forward_pure _

/-- No item is empty, so an array comes to an end. -/
theorem progresses_itemReader : itemReader.Progresses :=
  (progresses_stringItemReader.orElse progresses_otherItemReader).bind fun _ =>
    (Reader.forward_literal _).inLayout.optional.bind fun _ => Reader.forward_pure _

/-- Takes the brace that ends an array. -/
def closingBrace : Reader Unit :=
  Reader.inLayout (Reader.literal "\x7d")

/-- Reading the end of an array moves forward. -/
theorem forward_closingBrace : closingBrace.Forward :=
  (Reader.forward_literal _).inLayout

/-- Takes an array: items in braces. -/
def arrayReader : Reader ElementValue :=
  fun s =>
    match Reader.inLayout (Reader.literal "\x7b") s with
    | .error e => .error e
    | .ok ((), t) =>
      match Reader.manyTill closingBrace itemReader progresses_itemReader s t with
      | .ok ((items, _), u) => .ok (array items, u)
      | .error e => .error e

/-- Reading an array moves forward. -/
theorem forward_arrayReader : arrayReader.Forward where
  ok {s a t} h := by
    unfold arrayReader at h
    split at h
    · contradiction
    · next u hopen =>
      split at h
      · next hitems =>
        cases h
        have hu := (Reader.forward_literal _).inLayout.ok hopen
        exact (Reader.manyTill_suffix forward_closingBrace forward_itemReader hitems).trans hu
      · contradiction
  error {s e} h := by
    unfold arrayReader at h
    split at h
    · next hopen =>
      cases h
      exact (Reader.forward_literal _).inLayout.error hopen
    · next u hopen =>
      split at h
      · contradiction
      · next hitems =>
        cases h
        have hu := (Reader.forward_literal _).inLayout.ok hopen
        exact Reader.manyTill_error_suffix forward_itemReader hu hitems

/-- Takes a constant of an enumeration: the descriptor of the enumeration and the name of the
constant. What follows on the line, the type of the constant, does not count. -/
def constantReader : Reader ElementValue := do
  Reader.inLayout (Reader.literal ".enum")
  let owner ← Reader.run1 fun c => c != '-'
  Reader.literal "->"
  let name ← Reader.run fun c => c != ':' && c != '\n'
  let _ ← Reader.restOfLine
  return constant (ClassName.ofDescriptor (String.ofList owner)) (String.ofList name)

/-- Reading a constant of an enumeration moves forward. -/
theorem forward_constantReader : constantReader.Forward :=
  (Reader.forward_literal _).inLayout.bind fun _ =>
    (Reader.forward_run1 _).bind fun _ =>
      (Reader.forward_literal _).bind fun _ =>
        (Reader.forward_run _).bind fun _ =>
          Reader.forward_restOfLine.bind fun _ => Reader.forward_pure _

/-- Takes the rest of the line as it stands. -/
def singleReader : Reader ElementValue := do
  let text ← Reader.restOfLine
  return single (String.ofList (trim text))

/-- Reading the rest of a line as a value moves forward. -/
theorem forward_singleReader : singleReader.Forward :=
  Reader.forward_restOfLine.bind fun _ => Reader.forward_pure _

/-- Takes a value that is no annotation. -/
def flatReader : Reader ElementValue :=
  Reader.orElse constantReader (Reader.orElse arrayReader singleReader)

/-- Reading a value that is no annotation moves forward. -/
theorem forward_flatReader : flatReader.Forward :=
  forward_constantReader.orElse (forward_arrayReader.orElse forward_singleReader)

end ElementValue

/-- Whether the character may stand in the name of an element. -/
def Element.isNameChar (c : Char) : Bool :=
  isAlphanumeric c || c == '_' || c == '$'

/-- Takes the name of an element and the equals sign behind it. -/
def Element.nameReader : Reader String := do
  let name ← Reader.inLayout (Reader.run1 Element.isNameChar)
  Reader.literal "="
  Reader.spaces
  return String.ofList name

/-- Reading the name of an element moves forward. -/
theorem Element.forward_nameReader : Element.nameReader.Forward :=
  (Reader.forward_run1 _).inLayout.bind fun _ =>
    (Reader.forward_literal _).bind fun _ =>
      Reader.forward_spaces.bind fun _ => Reader.forward_pure _

/-- The name of an element is not empty. -/
theorem Element.progresses_nameReader : Element.nameReader.Progresses :=
  (Reader.progresses_run1 _).inLayout.bind fun _ =>
    (Reader.forward_literal _).bind fun _ =>
      Reader.forward_spaces.bind fun _ => Reader.forward_pure _

end GatedCalls
