import GatedCalls.Proofs.Text.Rounds
import GatedCalls.Smali.ClassReader

/-!
# Reading always ends

The text of a class is read by loops: over the statements, the entries of a method, the elements of
an annotation, the items of an array, the lines of a block and the modifiers in front of a name.
None of them counts its rounds. Each round works on a shorter suffix of the text of the round before
(`ReadingLoop.GoesRound.isWithin`), and so does an annotation that is read as the value of an
element (`AnnotationBlock.ReadsNested.isWithin`). Where rounds and calls are counted, a number of
them is therefore enough that the length of the text tells (`ReadingLoop.resultWithin_eq`,
`AnnotationBlock.within_eq`), and reading ends on whatever text (`ClassDef.reading_ends`).
-/

namespace GatedCalls

open Relation (ReflTransGen)
open Text
open Text.Reader (IsWithin)

namespace AnnotationBlock

/-! ### Elements -/

/-- Takes an element. -/
def elementReader : Reader Element := do
  let name ← Element.nameReader
  let value ← valueReader
  return ⟨name, value⟩

/-- Reading the value of an element moves forward. -/
theorem forward_valueReader : valueReader.Forward where
  ok {s v t} h := by
    rw [valueReader_apply] at h
    split at h
    · next hnested =>
      cases h
      exact (forward_reader true).ok hnested
    · exact ElementValue.forward_flatReader.ok h
  error {s e} h := by
    rw [valueReader_apply] at h
    split at h
    · cases h
    · exact ElementValue.forward_flatReader.error h

/-- Reading an element moves forward. -/
theorem forward_elementReader : elementReader.Forward :=
  Element.forward_nameReader.bind fun _ => forward_valueReader.bind fun _ => Reader.forward_pure _

/-- An element has at least its name. -/
theorem progresses_elementReader : elementReader.Progresses :=
  Element.progresses_nameReader.bind fun _ => forward_valueReader.bind fun _ =>
    Reader.forward_pure _

/-- Whether an annotation that is read from `s` has another one read from `t`: the value of the
element that begins at `element`, which is reached after the first line and other elements. -/
structure ReadsNested (nested : Bool) (s element t : List Char) : Prop where
  /-- The first line and all elements in front of this one are read. -/
  reached : ∃ first u, headerReader nested s = .ok (first, u) ∧
    ReflTransGen (Reader.GoesRound (closingReader nested) elementReader) u element
  /-- The annotation does not end here. -/
  goesOn : ∃ e, closingReader nested element = .error e
  /-- The name of the element is read, and its value comes next. -/
  named : ∃ name, Element.nameReader element = .ok (name, t)

/-- An annotation that is read as the value of an element is read from a shorter suffix of the text
of the element, and of the text of the annotation that the element is in. -/
theorem ReadsNested.isWithin {nested : Bool} {s element t : List Char}
    (h : ReadsNested nested s element t) : IsWithin t element ∧ IsWithin t s := by
  obtain ⟨first, u, hfirst, hrounds⟩ := h.reached
  obtain ⟨name, hname⟩ := h.named
  have hvalue : IsWithin t element :=
    Element.forward_nameReader.isWithin Element.progresses_nameReader hname
  have helement : element <:+ u :=
    Reader.isSuffix_of_rounds
      (fun h => h.isWithin forward_elementReader progresses_elementReader) hrounds
  have hheader : IsWithin u s :=
    (forward_headerReader nested).isWithin (progresses_headerReader nested) hfirst
  refine ⟨hvalue, hvalue.1.trans (helement.trans hheader.1), ?_⟩
  calc t.length < element.length := hvalue.2
    _ ≤ u.length := helement.length_le
    _ ≤ s.length := hheader.2.le

/-! ### Counted rounds and calls -/

mutual

/-- Reads an annotation. There is no result if calls of these three functions stand deeper in each
other than the given number. -/
def readWithin : Nat → (nested : Bool) → (s : List Char) →
    Option (Except (List Char) (AnnotationBlock × List Char))
  | 0, _, _ => none
  | n + 1, nested, s =>
    match headerReader nested s with
    | .error e => some (.error e)
    | .ok ((visibility, type), t) =>
      (readElementsWithin n nested t).map fun
        | .error e => .error e
        | .ok (elements, u) => .ok (⟨visibility, type, elements⟩, u)

/-- Reads elements down to the words that end the annotation. Each round is a call. -/
def readElementsWithin : Nat → (nested : Bool) → (s : List Char) →
    Option (Except (List Char) (List Element × List Char))
  | 0, _, _ => none
  | n + 1, nested, s =>
    match closingReader nested s with
    | .ok ((), t) => some (.ok ([], t))
    | .error _ =>
      match Element.nameReader s with
      | .error _ => some (.error s)
      | .ok (name, t) =>
        (readValueWithin n t).bind fun
          | .error _ => some (.error s)
          | .ok (value, u) =>
            (readElementsWithin n nested u).map fun
              | .error e => .error e
              | .ok (elements, w) => .ok (⟨name, value⟩ :: elements, w)

/-- Reads the value of an element. -/
def readValueWithin : Nat → (s : List Char) →
    Option (Except (List Char) (ElementValue × List Char))
  | 0, _ => none
  | n + 1, s =>
    (readWithin n true s).map fun
      | .ok (a, t) => .ok (.nested a, t)
      | .error _ => ElementValue.flatReader s

end

variable {n : Nat} {nested : Bool} {s : List Char}

/-- With the rounds and calls that shorter texts need, the elements of a text are read. -/
theorem readElementsWithin_succ
    (hvalue : ∀ t : List Char, t.length < s.length → readValueWithin n t = some (valueReader t))
    (helements : ∀ t : List Char, t.length < s.length →
      readElementsWithin n nested t = some (elementsReader nested t)) :
    readElementsWithin (n + 1) nested s = some (elementsReader nested s) := by
  rw [readElementsWithin, elementsReader_apply]
  cases hclosing : closingReader nested s with
  | ok x => rfl
  | error e =>
    cases hname : Element.nameReader s with
    | error e' => rfl
    | ok x =>
      obtain ⟨name, t⟩ := x
      have ht := Element.progresses_nameReader.lt hname
      simp only [hvalue t ht, Option.bind_some]
      cases hv : valueReader t with
      | error e' => rfl
      | ok y =>
        obtain ⟨value, u⟩ := y
        have hu := (forward_valueReader.length_le hv).trans_lt ht
        simp only [helements u hu]
        cases elementsReader nested u <;> rfl

/-- With the calls that the elements of shorter texts need, an annotation is read. -/
theorem readWithin_succ (helements : ∀ t : List Char, t.length < s.length →
      readElementsWithin n nested t = some (elementsReader nested t)) :
    readWithin (n + 1) nested s = some (reader nested s) := by
  rw [readWithin, reader_apply]
  cases hfirst : headerReader nested s with
  | error e => rfl
  | ok x =>
    obtain ⟨⟨visibility, type⟩, t⟩ := x
    simp only [helements t ((progresses_headerReader nested).lt hfirst)]
    cases elementsReader nested t <;> rfl

/-- With the calls that an annotation needs, and one more, a value is read. -/
theorem readValueWithin_succ (hread : readWithin n true s = some (reader true s)) :
    readValueWithin (n + 1) s = some (valueReader s) := by
  rw [readValueWithin, valueReader_apply, hread]
  cases reader true s <;> rfl

/-- Three calls for each character are enough: for the value of an element, the annotation that it
is, and the elements of that. -/
theorem within_eq (n : Nat) (s : List Char) :
    (3 * s.length < n → ∀ nested, readElementsWithin n nested s = some (elementsReader nested s)) ∧
      (3 * s.length + 1 < n → ∀ nested, readWithin n nested s = some (reader nested s)) ∧
      (3 * s.length + 2 < n → readValueWithin n s = some (valueReader s)) := by
  induction n generalizing s with
  | zero => exact ⟨fun h => by omega, fun h => by omega, fun h => by omega⟩
  | succ n ih =>
    refine ⟨fun h nested => ?_, fun h nested => ?_, fun h => ?_⟩
    · exact readElementsWithin_succ (fun t ht => (ih t).2.2 (by omega))
        fun t ht => (ih t).1 (by omega) nested
    · exact readWithin_succ fun t ht => (ih t).1 (by omega) nested
    · exact readValueWithin_succ ((ih s).2.1 (by omega) true)

end AnnotationBlock

/-! ### Loops -/

/-- The loops of reading the text of a class. -/
inductive ReadingLoop where
  /-- Over the statements of a class. -/
  | statements
  /-- Over the entries of a method. -/
  | entries
  /-- Over the elements of an annotation. -/
  | elements (nested : Bool)
  /-- Over the items of an array. -/
  | items
  /-- Over the lines of a block. -/
  | blockLines (closing : String)
  /-- Over the modifiers in front of a name. -/
  | modifiers

namespace ReadingLoop

/-- Whether a loop that works on a text goes round again, and then works on another one. -/
def GoesRound : ReadingLoop → List Char → List Char → Prop
  | statements => Reader.GoesRound Reader.endOfText Statement.spacedReader
  | entries => Reader.GoesRound Method.closing Entry.spacedReader
  | elements nested =>
    Reader.GoesRound (AnnotationBlock.closingReader nested) AnnotationBlock.elementReader
  | items => Reader.GoesRound ElementValue.closingBrace ElementValue.itemReader
  | blockLines closing => Reader.GoesRound (blockReader.closingLine closing) Reader.line
  | modifiers => fun s t => ∃ m, Modifier.reader s = .ok (m, t)

/-- What a loop takes off a text. -/
def Value : ReadingLoop → Type
  | statements => List Statement × Unit
  | entries => List Entry × Unit
  | elements _ => List Element
  | items => List String × Unit
  | blockLines _ => List (List Char) × List Char
  | modifiers => List Modifier

/-- What a loop gives that works on a text `s` and belongs to a construct that began at `start`. -/
def result : (l : ReadingLoop) → (start s : List Char) →
    Except (List Char) (l.Value × List Char)
  | statements =>
    Reader.manyTill Reader.endOfText Statement.spacedReader Statement.progresses_spacedReader
  | entries => Reader.manyTill Method.closing Entry.spacedReader Entry.progresses_spacedReader
  | elements nested => fun _ => AnnotationBlock.elementsReader nested
  | items => Reader.manyTill ElementValue.closingBrace ElementValue.itemReader
      ElementValue.progresses_itemReader
  | blockLines closing =>
    Reader.manyTill (blockReader.closingLine closing) Reader.line Reader.progresses_line
  | modifiers => fun _ => Reader.many Modifier.reader Modifier.progresses_reader

/-- The same with the rounds of the loop counted, and with the calls that stand in each other where
a round can come back to the loop. There is no result if the given number is not enough. -/
def resultWithin : (l : ReadingLoop) → (start : List Char) → (n : Nat) → (s : List Char) →
    Option (Except (List Char) (l.Value × List Char))
  | statements => Reader.manyTillWithin Reader.endOfText Statement.spacedReader
  | entries => Reader.manyTillWithin Method.closing Entry.spacedReader
  | elements nested => fun _ n => AnnotationBlock.readElementsWithin n nested
  | items => Reader.manyTillWithin ElementValue.closingBrace ElementValue.itemReader
  | blockLines closing => Reader.manyTillWithin (blockReader.closingLine closing) Reader.line
  | modifiers => fun _ n s => (Reader.takeManyWithin Modifier.reader n s).map .ok

/-- Each round of a loop works on a shorter suffix of the text of the round before. -/
theorem GoesRound.isWithin {l : ReadingLoop} {s t : List Char} (h : l.GoesRound s t) :
    IsWithin t s := by
  cases l with
  | statements =>
    exact Reader.GoesRound.isWithin Statement.forward_spacedReader
      Statement.progresses_spacedReader h
  | entries =>
    exact Reader.GoesRound.isWithin Entry.forward_spacedReader Entry.progresses_spacedReader h
  | elements nested =>
    exact Reader.GoesRound.isWithin AnnotationBlock.forward_elementReader
      AnnotationBlock.progresses_elementReader h
  | items =>
    exact Reader.GoesRound.isWithin ElementValue.forward_itemReader
      ElementValue.progresses_itemReader h
  | blockLines closing =>
    exact Reader.GoesRound.isWithin Reader.forward_line Reader.progresses_line h
  | modifiers =>
    obtain ⟨m, hm⟩ := h
    exact Modifier.forward_reader.isWithin Modifier.progresses_reader hm

/-- Each loop is over after a number of rounds that the length of the text tells. -/
theorem resultWithin_eq (l : ReadingLoop) (start : List Char) {n : Nat} {s : List Char}
    (h : 3 * s.length < n) : l.resultWithin start n s = some (l.result start s) := by
  have hlength : s.length < n := by omega
  cases l with
  | statements => exact Reader.manyTillWithin_eq Statement.progresses_spacedReader start hlength
  | entries => exact Reader.manyTillWithin_eq Entry.progresses_spacedReader start hlength
  | elements nested => exact (AnnotationBlock.within_eq n s).1 h nested
  | items => exact Reader.manyTillWithin_eq ElementValue.progresses_itemReader start hlength
  | blockLines closing => exact Reader.manyTillWithin_eq Reader.progresses_line start hlength
  | modifiers =>
    exact congrArg (Option.map Except.ok)
      (Reader.takeManyWithin_eq Modifier.progresses_reader hlength)

end ReadingLoop

namespace ClassDef

/-- The class that the statements of a text define, or the failure that is reported. -/
def ofStatementLoop (s : List Char) :
    Except (List Char) (ReadingLoop.statements.Value × List Char) → Except Failure ClassDef
  | .error rest => .error (Cause.line (lineNumber s rest) (firstLine rest)).failure
  | .ok ((sts, _), _) =>
    match ofStatements? sts with
    | some c => .ok c
    | none => .error Cause.noClassLine.failure

/-- Reads the text of a class with the rounds of the loop over its statements counted. There is no
result if the given number is not enough. -/
def readWithin (n : Nat) (text : String) : Option (Except Failure ClassDef) :=
  let s := text.toList
  let t := s.dropWhile isLayout
  (ReadingLoop.statements.resultWithin t n t).map (ofStatementLoop s)

/-- The text of a class is read as the loop over its statements gives it. -/
theorem read_eq (text : String) :
    read text = ofStatementLoop text.toList (ReadingLoop.statements.result
      (text.toList.dropWhile isLayout) (text.toList.dropWhile isLayout)) := by
  simp only [read, Statement.readAll, ReadingLoop.result]
  cases Reader.manyTill Reader.endOfText Statement.spacedReader Statement.progresses_spacedReader
    (text.toList.dropWhile isLayout) (text.toList.dropWhile isLayout) <;> rfl

/-- With more rounds than three for each character the text of a class is read. -/
theorem readWithin_eq {n : Nat} {text : String} (h : 3 * text.toList.length < n) :
    readWithin n text = some (read text) := by
  have hshorter := (List.dropWhile_suffix isLayout (l := text.toList)).length_le
  rw [readWithin, ReadingLoop.resultWithin_eq _ _ (by omega), Option.map_some, read_eq]

/-- Reading ends on every text. Each round of each loop works on a shorter suffix of the text of the
round before, so there are no more rounds than characters. An annotation that is read as the value
of an element is read from a shorter suffix of the text of the element, and of the text of the
annotation around it. So a number of rounds and of calls within each other that the length of the
text tells is enough for each loop, for an annotation and for a class, and what is read then is what
is read from the text. -/
theorem reading_ends :
    (∀ (l : ReadingLoop) {s t : List Char}, l.GoesRound s t → t <:+ s ∧ t.length < s.length) ∧
    (∀ (l : ReadingLoop) {s : List Char} {ts : List (List Char)},
      List.IsChain l.GoesRound (s :: ts) → ts.length ≤ s.length) ∧
    (∀ {nested : Bool} {s element t : List Char}, AnnotationBlock.ReadsNested nested s element t →
      (t <:+ element ∧ t.length < element.length) ∧ t <:+ s ∧ t.length < s.length) ∧
    (∀ (l : ReadingLoop) (start : List Char) {n : Nat} {s : List Char}, 3 * s.length < n →
      l.resultWithin start n s = some (l.result start s)) ∧
    (∀ (nested : Bool) {n : Nat} {s : List Char}, 3 * s.length + 1 < n →
      AnnotationBlock.readWithin n nested s = some (AnnotationBlock.reader nested s)) ∧
    ∀ {n : Nat} {text : String}, 3 * text.toList.length < n →
      readWithin n text = some (read text) := by
  refine ⟨fun l s t h => h.isWithin, fun l s ts h => ?_, fun h => h.isWithin,
    fun l start n s h => l.resultWithin_eq start h,
    fun nested n s h => (AnnotationBlock.within_eq n s).2.1 h nested, fun h => readWithin_eq h⟩
  exact Reader.length_le_of_rounds (fun h => ReadingLoop.GoesRound.isWithin h) h

/-- An annotation whose element has another one as its value; neither is closed. -/
def unclosedText : String :=
  ".annotation build La;\nx = .subannotation Lb;\ny = \x7b"

/-- Reading this text ends, and the annotation in the element is read from a shorter suffix. -/
theorem reading_ends_unclosed :
    (".subannotation Lb;\ny = \x7b".toList <:+ unclosedText.toList ∧
      ".subannotation Lb;\ny = \x7b".toList.length < unclosedText.toList.length) ∧
    readWithin 151 unclosedText = some (read unclosedText) := by
  have hnested : AnnotationBlock.ReadsNested false unclosedText.toList
      "x = .subannotation Lb;\ny = \x7b".toList ".subannotation Lb;\ny = \x7b".toList :=
    ⟨⟨(.build, .object ⟨"a"⟩), _, rfl, .refl⟩, ⟨_, rfl⟩, ⟨"x", rfl⟩⟩
  exact ⟨(reading_ends.2.2.1 hnested).2, reading_ends.2.2.2.2.2 (by decide)⟩

end ClassDef

end GatedCalls
