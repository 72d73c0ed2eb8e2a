/-!
# Numerals

Reading unsigned numerals in a radix up to sixteen. A plus sign may stand in front, nothing else
may.
-/

namespace GatedCalls.Text

/-- The value of a digit: decimal digits, then the letters of either case. -/
def digitValue (c : Char) : Option Nat :=
  if '0' ≤ c ∧ c ≤ '9' then some (c.toNat - 48)
  else if 'a' ≤ c ∧ c ≤ 'f' then some (c.toNat - 87)
  else if 'A' ≤ c ∧ c ≤ 'F' then some (c.toNat - 55)
  else none

/-- The number that digits denote after a beginning that denotes `n`. -/
def digitsFrom (radix n : Nat) : List Char → Option Nat
  | [] => some n
  | c :: cs =>
    match digitValue c with
    | some d => if d < radix then digitsFrom radix (radix * n + d) cs else none
    | none => none

/-- The number that one or more digits denote. -/
def digits? (radix : Nat) : List Char → Option Nat
  | [] => none
  | c :: cs => digitsFrom radix 0 (c :: cs)

/-- The number that a numeral with an optional plus sign denotes. -/
def unsigned? (radix : Nat) : List Char → Option Nat
  | '+' :: cs => digits? radix cs
  | cs => digits? radix cs

/-- The 32-bit number that a decimal numeral denotes. -/
def word32? (s : List Char) : Option UInt32 :=
  match unsigned? 10 s with
  | some n => if n < UInt32.size then some (UInt32.ofNat n) else none
  | none => none

end GatedCalls.Text
