import GatedCalls.Descriptor.MethodRef
import GatedCalls.Smali.Register
import GatedCalls.Text.Alphanumeric

/-!
# Instructions

Of the instructions of a method only the calls are taken apart: into the kind of dispatch, the
registers and the method that is called. Every other instruction is its own text. A line reads as a
call exactly if its first word is the mnemonic of one.
-/

namespace GatedCalls

open Text

/-- How a call finds the method that it runs. -/
inductive Dispatch where
  | virtual
  | super
  | direct
  | static
  | interface
  deriving DecidableEq, Repr, Inhabited

namespace Dispatch

/-- All kinds of dispatch. -/
def all : List Dispatch :=
  [virtual, super, direct, static, interface]

/-- The word for the kind of dispatch in a mnemonic. -/
def word : Dispatch → String
  | virtual => "virtual"
  | super => "super"
  | direct => "direct"
  | static => "static"
  | interface => "interface"

end Dispatch

/-- A call instruction: its dispatch, the registers that hold the receiver and the arguments, and
the method that it names. -/
structure Call where
  dispatch : Dispatch
  operands : Operands
  callee : MethodRef
  deriving DecidableEq, Repr, Inhabited

namespace Call

/-- The first word of a call; calls over a range of registers have a mnemonic of their own. -/
def mnemonic (dispatch : Dispatch) (isRange : Bool) : String :=
  "invoke-" ++ dispatch.word ++ if isRange then "/range" else ""

/-- The ten mnemonics, each with what it stands for. -/
def mnemonics : List (String × Dispatch × Bool) :=
  [false, true].flatMap fun isRange =>
    Dispatch.all.map fun dispatch => (mnemonic dispatch isRange, dispatch, isRange)

/-- The call instruction as a line. -/
def text (c : Call) : String :=
  mnemonic c.dispatch c.operands.isRange ++ " " ++ c.operands.text ++ ", " ++ c.callee.text

/-- Takes what follows the mnemonic of a call. -/
def tailReader (dispatch : Dispatch) (isRange : Bool) : Reader Call := do
  Reader.spaces1
  let operands ← if isRange then Operands.rangeReader else Operands.listReader
  Reader.comma
  let callee ← MethodRef.reader
  Reader.spaces
  return ⟨dispatch, operands, callee⟩

/-- Whether the call dispatches on the receiver: the one kind that a static method can replace. -/
def isVirtual (c : Call) : Bool :=
  c.dispatch == .virtual

end Call

/-- An instruction: a call, or the text of anything else. -/
inductive Instruction where
  | call (c : Call)
  | other (text : String)
  deriving DecidableEq, Repr, Inhabited

namespace Instruction

/-- The instruction as a line. -/
def text : Instruction → String
  | call c => c.text
  | other s => s

/-- The method that the instruction calls, if it is a call. -/
def callee? : Instruction → Option MethodRef
  | call c => some c.callee
  | other _ => none

/-- Whether the character may stand in a mnemonic. -/
def isMnemonicChar (c : Char) : Bool :=
  isAlphanumeric c || c == '-' || c == '/'

/-- Takes an instruction off a line without blanks around it. Anything but a call takes the whole
line. -/
def reader : Reader Instruction :=
  fun line =>
    match Reader.run1 isMnemonicChar line with
    | .error e => .error e
    | .ok (word, rest) =>
      match Call.mnemonics.lookup (String.ofList word) with
      | none => .ok (other (String.ofList line), [])
      | some (dispatch, isRange) =>
        match Call.tailReader dispatch isRange rest with
        | .ok (c, rest) => .ok (call c, rest)
        | .error e => .error e

/-- Takes an instruction off a line; the blanks around it do not count. -/
def readLine (line : List Char) : Except (List Char) (Instruction × List Char) :=
  reader (trim line)

end Instruction

namespace Label

/-- Whether the character may stand in the name of a label. -/
def isNameChar (c : Char) : Bool :=
  isAlphanumeric c || c == '_' || c == '$'

/-- Takes a label: a colon and a name. -/
def reader : Reader String := do
  Reader.literal ":"
  let name ← Reader.run1 isNameChar
  return String.ofList name

/-- The label with its colon. -/
def text (name : String) : String :=
  ":" ++ name

end Label

end GatedCalls
