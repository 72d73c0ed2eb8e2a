/-!
# Blank characters

Unicode's `White_Space` characters and the trimming of texts by them. Two narrower classes are used
inside a smali line and between lines: `isSpace` (space and tab) and `isLayout` (also the two line
break characters).
-/

namespace GatedCalls.Text

/-- Whether the character has Unicode's `White_Space` property. -/
def isBlank (c : Char) : Bool :=
  c == ' ' || ('\t' ≤ c && c ≤ '\r') || c == '\x85' || c == '\u00a0' || c == '\u1680' ||
    ('\u2000' ≤ c && c ≤ '\u200a') || c == '\u2028' || c == '\u2029' || c == '\u202f' ||
    c == '\u205f' || c == '\u3000'

/-- Whether the character is a space or a tab. -/
def isSpace (c : Char) : Bool :=
  c == ' ' || c == '\t'

/-- Whether the character is a space, a tab, a carriage return or a line feed. -/
def isLayout (c : Char) : Bool :=
  c == ' ' || c == '\t' || c == '\r' || c == '\n'

/-- Drops the blank characters at the beginning of a text. -/
def trimStart (s : List Char) : List Char :=
  s.dropWhile isBlank

/-- Drops the blank characters at the end of a text. -/
def trimEnd (s : List Char) : List Char :=
  (s.reverse.dropWhile isBlank).reverse

/-- Drops the blank characters at both ends of a text. -/
def trim (s : List Char) : List Char :=
  trimEnd (trimStart s)

/-- All layout is blank. -/
theorem isBlank_of_isLayout {c : Char} (h : isLayout c) : isBlank c := by
  simp only [isLayout, Bool.or_eq_true, beq_iff_eq] at h
  rcases h with ((rfl | rfl) | rfl) | rfl <;> decide

/-- All spaces are layout. -/
theorem isLayout_of_isSpace {c : Char} (h : isSpace c) : isLayout c := by
  simp only [isSpace, Bool.or_eq_true, beq_iff_eq] at h
  rcases h with rfl | rfl <;> decide

/-- What is left after trimming in front is a suffix. -/
theorem trimStart_suffix (s : List Char) : trimStart s <:+ s :=
  List.dropWhile_suffix isBlank

/-- What is left after trimming at the end is a beginning of the text. -/
theorem trimEnd_isPrefix (s : List Char) : trimEnd s <+: s := by
  rw [← List.reverse_suffix, trimEnd, List.reverse_reverse]
  exact List.dropWhile_suffix isBlank

/-- Trimming adds nothing. -/
theorem length_trim_le (s : List Char) : (trim s).length ≤ s.length :=
  Nat.le_trans (trimEnd_isPrefix _).length_le (trimStart_suffix s).length_le

end GatedCalls.Text
