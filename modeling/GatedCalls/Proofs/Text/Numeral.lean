import GatedCalls.Text.Numeral

/-!
# Numerals are read as they are printed

The decimal digits of a number are digits, at least one of them, and they denote the number.
-/

namespace GatedCalls.Text

/-- Digits behind others go on from the number that those denote. -/
theorem digitsFrom_append (radix n : Nat) (ds ds' : List Char) :
    digitsFrom radix n (ds ++ ds') = (digitsFrom radix n ds).bind (digitsFrom radix · ds') := by
  induction ds generalizing n with
  | nil => rfl
  | cons d ds ih =>
    simp only [List.cons_append, digitsFrom]
    cases digitValue d with
    | none => rfl
    | some v =>
      by_cases h : v < radix
      · simp only [h, if_true, ih]
      · simp only [h, if_false, Option.bind_none]

/-- The value of the character of a decimal digit. -/
theorem digitValue_digitChar {d : Nat} (h : d < 10) : digitValue d.digitChar = some d :=
  have hall : ∀ d < 10, digitValue (Nat.digitChar d) = some d := by decide
  hall d h

/-- A digit is worth less than sixteen. -/
theorem digitValue_lt {c : Char} {d : Nat} (h : digitValue c = some d) : d < 16 := by
  have hcode (low high : Char) : low ≤ c ∧ c ≤ high ↔ low.toNat ≤ c.toNat ∧ c.toNat ≤ high.toNat :=
    Iff.rfl
  simp only [digitValue, hcode, Char.reduceToNat] at h
  split at h
  case isTrue hdecimal =>
    obtain rfl := Option.some.inj h
    omega
  case isFalse =>
    split at h
    case isTrue hlower =>
      obtain rfl := Option.some.inj h
      omega
    case isFalse =>
      split at h
      case isTrue hupper =>
        obtain rfl := Option.some.inj h
        omega
      case isFalse => cases h

/-- The digits of a number denote it. -/
theorem digitsFrom_toDigits (n : Nat) : digitsFrom 10 0 (Nat.toDigits 10 n) = some n := by
  induction n using Nat.strongRecOn with
  | _ n ih =>
    by_cases h : n < 10
    · rw [Nat.toDigits_of_lt_base h]
      simp [digitsFrom, digitValue_digitChar h, h]
    · have hmod : n % 10 < 10 := by omega
      have hsum : 10 * (n / 10) + n % 10 = n := by omega
      rw [Nat.toDigits_of_base_le (by decide) (by omega), digitsFrom_append, ih (n / 10) (by omega)]
      simp [digitsFrom, digitValue_digitChar hmod, hmod, hsum]

/-- The digits of a printed number are decimal digits. -/
theorem isDigit_of_mem_toString {n : Nat} {c : Char} (h : c ∈ (toString n).toList) :
    c.isDigit = true := by
  rw [Nat.toString_eq_ofList_toDigits, String.toList_ofList] at h
  exact Nat.isDigit_of_mem_toDigits (by decide) (by decide) h

/-- A printed number has at least one digit. -/
theorem toList_toString_ne_nil (n : Nat) : (toString n).toList ≠ [] := by
  rw [Nat.toString_eq_ofList_toDigits, String.toList_ofList]
  exact Nat.toDigits_ne_nil

/-- A printed number is read as it is. -/
theorem digits?_toString (n : Nat) : digits? 10 (toString n).toList = some n := by
  have hne := toList_toString_ne_nil n
  have hvalue : digitsFrom 10 0 (toString n).toList = some n := by
    rw [Nat.toString_eq_ofList_toDigits, String.toList_ofList]
    exact digitsFrom_toDigits n
  obtain ⟨d, ds, hds⟩ := List.exists_cons_of_ne_nil hne
  rw [hds] at hvalue ⊢
  exact hvalue

/-- A printed 32-bit number is read as it is. -/
theorem word32?_toString (n : UInt32) : word32? (toString n.toNat).toList = some n := by
  have hvalue : unsigned? 10 (toString n.toNat).toList = some n.toNat := by
    rw [← digits?_toString n.toNat]
    obtain ⟨d, ds, hds⟩ := List.exists_cons_of_ne_nil (toList_toString_ne_nil n.toNat)
    have hmem : d ∈ (toString n.toNat).toList := hds ▸ List.mem_cons_self
    have hdigit : d.isDigit = true := isDigit_of_mem_toString hmem
    have hplus : d ≠ '+' := by rintro rfl; revert hdigit; decide
    rw [hds]
    unfold unsigned?
    split
    · next heq => exact absurd (List.cons.inj heq).1 hplus
    · rfl
  have hsize : n.toNat < UInt32.size := n.toNat_lt
  rw [word32?, hvalue]
  simp [hsize]

end GatedCalls.Text
