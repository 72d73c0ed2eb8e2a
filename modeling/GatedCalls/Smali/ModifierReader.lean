import GatedCalls.Smali.Modifier
import GatedCalls.Text.Alphanumeric
import GatedCalls.Text.Reader.Repetition

/-!
# Reading modifiers

A word is a modifier only if a space follows it. `Modifier.listReader` takes modifiers as long as
there are any and leaves the first word that is none, so a name may begin with the letters of a
modifier.
-/

namespace GatedCalls

open Text

/-- Takes a modifier and the spaces behind it. -/
def Modifier.reader : Reader Modifier := do
  Reader.spaces
  let word ← Reader.run1 fun c => isAlphanumeric c || c == '-'
  Reader.spaces1
  match Modifier.ofWord? (String.ofList word) with
  | some m => return m
  | none => Reader.fail

/-- What follows the word of a modifier is read forward. -/
theorem Modifier.forward_readerTail (word : List Char) :
    (do
      Reader.spaces1
      match Modifier.ofWord? (String.ofList word) with
      | some m => return m
      | none => Reader.fail : Reader Modifier).Forward := by
  refine Reader.forward_spaces1.bind fun _ => ?_
  split
  · exact Reader.forward_pure _
  · exact Reader.forward_fail

/-- Reading a modifier moves forward. -/
theorem Modifier.forward_reader : Modifier.reader.Forward :=
  Reader.forward_spaces.bind fun _ =>
    (Reader.forward_run1 _).bind fun word => Modifier.forward_readerTail word

/-- A modifier has at least one letter, so a list of modifiers comes to an end. -/
theorem Modifier.progresses_reader : Modifier.reader.Progresses :=
  Reader.Progresses.bind_right Reader.forward_spaces fun _ =>
    (Reader.progresses_run1 _).bind fun word => Modifier.forward_readerTail word

/-- Takes the modifiers at the beginning of a text, down to the first word that is none. -/
def Modifier.listReader : Reader (List Modifier) := do
  let ms ← Reader.many Modifier.reader Modifier.progresses_reader
  Reader.spaces
  return ms

/-- Reading modifiers moves forward. -/
theorem Modifier.forward_listReader : Modifier.listReader.Forward :=
  (Reader.forward_many Modifier.forward_reader).bind fun _ =>
    Reader.forward_spaces.bind fun _ => Reader.forward_pure _

end GatedCalls
