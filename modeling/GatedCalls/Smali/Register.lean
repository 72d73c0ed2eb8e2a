import GatedCalls.Text.Numeral
import GatedCalls.Text.Reader.Repetition

/-!
# Registers

A register of a method is named by its place in the whole frame, `v3`, or among the parameters,
`p0`. A call names its registers in a list, `{v0, p1}`, or as a range of consecutive ones, `{v0 ..
v5}`.
-/

namespace GatedCalls

open Text

/-- A register: numbered in the frame, or among the parameters. -/
inductive Register where
  | frame (n : UInt16)
  | param (n : UInt16)
  deriving DecidableEq, Repr, Inhabited

namespace Register

/-- The name of the register. -/
def text : Register → String
  | frame n => "v" ++ toString n.toNat
  | param n => "p" ++ toString n.toNat

/-- The number of a register. A number that does not fit in 16 bits is refused where it begins. -/
def numberReader : Reader UInt16 :=
  fun s =>
    match Reader.run1 Char.isDigit s with
    | .ok (ds, t) =>
      match digits? 10 ds with
      | some n => if n < UInt16.size then .ok (UInt16.ofNat n, t) else .error s
      | none => .error s
    | .error e => .error e

/-- Takes the name of a register. -/
def reader : Reader Register := do
  let kind ← Reader.satisfy fun c => c == 'v' || c == 'p'
  let n ← numberReader
  return if kind = 'p' then param n else frame n

/-- Reading the number of a register moves forward. -/
theorem forward_numberReader : numberReader.Forward where
  ok {s n t} h := by
    unfold numberReader at h
    split at h
    · next he =>
      split at h
      · split at h
        · cases h
          exact (Reader.forward_run1 _).ok he
        · contradiction
      · contradiction
    · contradiction
  error {s e} h := by
    unfold numberReader at h
    split at h
    · split at h
      · split at h
        · contradiction
        · cases h
          exact List.suffix_refl _
      · cases h
        exact List.suffix_refl _
    · next he =>
      cases h
      exact (Reader.forward_run1 _).error he

/-- Reading a register moves forward. -/
theorem forward_reader : reader.Forward :=
  (Reader.forward_satisfy _).bind fun _ => forward_numberReader.bind fun _ => Reader.forward_pure _

/-- A register has at least its letter. -/
theorem progresses_reader : reader.Progresses :=
  (Reader.progresses_satisfy _).bind fun _ =>
    forward_numberReader.bind fun _ => Reader.forward_pure _

end Register

/-- The registers of a call: a list of them, or the first and the last of a range. -/
inductive Operands where
  | list (registers : List Register)
  | range (first last : Register)
  deriving DecidableEq, Repr, Inhabited

namespace Operands

/-- The registers in braces. -/
def text : Operands → String
  | list registers => "\x7b" ++ ", ".intercalate (registers.map Register.text) ++ "\x7d"
  | range first last => "\x7b" ++ first.text ++ " .. " ++ last.text ++ "\x7d"

/-- Whether the registers are a range. -/
def isRange : Operands → Bool
  | list _ => false
  | range _ _ => true

/-- Takes a list of registers in braces. -/
def listReader : Reader Operands := do
  Reader.literal "\x7b"
  Reader.spaces
  let registers ←
    Reader.sepBy Register.reader Register.progresses_reader Reader.comma Reader.forward_comma
  Reader.spaces
  Reader.literal "\x7d"
  return list registers

/-- Takes a range of registers in braces. -/
def rangeReader : Reader Operands := do
  Reader.literal "\x7b"
  Reader.spaces
  let first ← Register.reader
  Reader.spaces
  Reader.literal ".."
  Reader.spaces
  let last ← Register.reader
  Reader.spaces
  Reader.literal "\x7d"
  return range first last

/-- Reading a list of registers moves forward. -/
theorem forward_listReader : listReader.Forward :=
  (Reader.forward_literal _).bind fun _ =>
    Reader.forward_spaces.bind fun _ =>
      (Reader.forward_sepBy Register.forward_reader).bind fun _ =>
        Reader.forward_spaces.bind fun _ =>
          (Reader.forward_literal _).bind fun _ => Reader.forward_pure _

/-- Reading a range of registers moves forward. -/
theorem forward_rangeReader : rangeReader.Forward :=
  (Reader.forward_literal _).bind fun _ =>
    Reader.forward_spaces.bind fun _ =>
      Register.forward_reader.bind fun _ =>
        Reader.forward_spaces.bind fun _ =>
          (Reader.forward_literal _).bind fun _ =>
            Reader.forward_spaces.bind fun _ =>
              Register.forward_reader.bind fun _ =>
                Reader.forward_spaces.bind fun _ =>
                  (Reader.forward_literal _).bind fun _ => Reader.forward_pure _

end Operands

end GatedCalls
