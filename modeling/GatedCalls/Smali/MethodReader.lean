import GatedCalls.Smali.EntryReader
import GatedCalls.Smali.ModifierReader

/-!
# Reading methods

A method is a first line, entries with layout between them, and a line that ends it. Its annotations
and its body are the entries of the one kind and of the other, each in the order of the text.
-/

namespace GatedCalls

open Text

namespace Method

/-- Puts the entries of a method in their places. Of several declarations of the number of registers
the last one counts. -/
def withEntries (m : Method) (entries : List Entry) : Method :=
  { m with
    locals := (entries.filterMap Entry.locals?).getLast?
    annotations := entries.filterMap Entry.block?
    body := entries.filterMap Entry.item? }

/-- Whether the character may stand in the name of a method. -/
def isNameChar (c : Char) : Bool :=
  c != '(' && c != '\n'

/-- Takes the first line of a method, which yields a method without entries. -/
def headerReader : Reader Method := do
  Reader.literal ".method"
  Reader.spaces1
  let modifiers ← Modifier.listReader
  let constructorWord ← Reader.optional (do Reader.literal "constructor"; Reader.spaces1)
  let name ← Reader.run1 isNameChar
  let proto ← Prototype.reader
  let _ ← Reader.restOfLine
  return ⟨String.ofList (trim name), modifiers, constructorWord.isSome, proto, none, [], []⟩

/-- What follows the word `.method` on the first line is read forward. -/
theorem forward_headerTail :
    (do
      Reader.spaces1
      let modifiers ← Modifier.listReader
      let constructorWord ← Reader.optional (do Reader.literal "constructor"; Reader.spaces1)
      let name ← Reader.run1 isNameChar
      let proto ← Prototype.reader
      let _ ← Reader.restOfLine
      return ⟨String.ofList (trim name), modifiers, constructorWord.isSome, proto, none, [], []⟩ :
      Reader Method).Forward :=
  Reader.forward_spaces1.bind fun _ =>
    Modifier.forward_listReader.bind fun _ =>
      ((Reader.forward_literal _).bind fun _ => Reader.forward_spaces1).optional.bind fun _ =>
        (Reader.forward_run1 _).bind fun _ =>
          Prototype.forward_reader.bind fun _ =>
            Reader.forward_restOfLine.bind fun _ => Reader.forward_pure _

/-- Reading the first line of a method moves forward. -/
theorem forward_headerReader : headerReader.Forward :=
  (Reader.forward_literal _).bind fun _ => forward_headerTail

/-- The first line of a method has at least the word `.method`. -/
theorem progresses_headerReader : headerReader.Progresses :=
  (Reader.progresses_literal (by decide)).bind fun _ => forward_headerTail

/-- The words that end a method. -/
def closing : Reader Unit :=
  Reader.literal ".end method"

/-- Reading the end of a method moves forward. -/
theorem forward_closing : closing.Forward :=
  Reader.forward_literal _

/-- Takes a method. Where its end is missing, the failure is at its beginning. -/
def reader : Reader Method :=
  fun s =>
    match (do let m ← headerReader; Reader.layout; return m : Reader Method) s with
    | .error e => .error e
    | .ok (m, t) =>
      match Reader.manyTill closing Entry.spacedReader Entry.progresses_spacedReader s t with
      | .error e => .error e
      | .ok ((entries, ()), u) =>
        match Reader.restOfLine u with
        | .error e => .error e
        | .ok (_, w) => .ok (m.withEntries entries, w)

/-- Reading the first line and the layout behind it moves forward. -/
theorem forward_spacedHeader :
    (do let m ← headerReader; Reader.layout; return m : Reader Method).Forward :=
  forward_headerReader.bind fun _ => Reader.forward_layout.bind fun _ => Reader.forward_pure _

/-- The first line with the layout behind it is not empty. -/
theorem progresses_spacedHeader :
    (do let m ← headerReader; Reader.layout; return m : Reader Method).Progresses :=
  progresses_headerReader.bind fun _ => Reader.forward_layout.bind fun _ => Reader.forward_pure _

/-- Reading a method moves forward. -/
theorem forward_reader : reader.Forward where
  ok {s a t} := by
    fun_cases reader s with
    | case4 m u hheader entries v hentries line w hline =>
      intro h
      cases h
      have hv := Reader.manyTill_suffix forward_closing Entry.forward_spacedReader hentries
      exact ((Reader.forward_restOfLine.ok hline).trans hv).trans (forward_spacedHeader.ok hheader)
    | _ => intro h; contradiction
  error {s e} := by
    fun_cases reader s with
    | case1 e' hheader =>
      intro h
      cases h
      exact forward_spacedHeader.error hheader
    | case2 m u hheader e' hentries =>
      intro h
      cases h
      exact Reader.manyTill_error_suffix Entry.forward_spacedReader
        (forward_spacedHeader.ok hheader) hentries
    | case3 m u hheader entries v hentries e' hline =>
      intro h
      cases h
      have hv := Reader.manyTill_suffix forward_closing Entry.forward_spacedReader hentries
      exact ((Reader.forward_restOfLine.error hline).trans hv).trans
        (forward_spacedHeader.ok hheader)
    | case4 => intro h; contradiction

/-- A method has at least its first line. -/
theorem progresses_reader : reader.Progresses where
  lt {s a t} := by
    fun_cases reader s with
    | case4 m u hheader entries v hentries line w hline =>
      intro h
      cases h
      have hv := Reader.manyTill_suffix forward_closing Entry.forward_spacedReader hentries
      have hw := ((Reader.forward_restOfLine.ok hline).trans hv).length_le
      exact Nat.lt_of_le_of_lt hw (progresses_spacedHeader.lt hheader)
    | _ => intro h; contradiction

end Method

end GatedCalls
