import GatedCalls.Text.Numeral
import GatedCalls.Text.Reader.Repetition

/-!
# String literals

A string literal stands between quotes and spells some characters by escapes. `bodyEnd` finds where
a literal ends; the literal itself is kept as it is spelled. `unescape` gives the text that the
spelling denotes.
-/

namespace GatedCalls.StringLiteral

open Text

/-- Whether the character may stand behind a backslash. -/
def isEscapable (c : Char) : Bool :=
  c == '\'' || c == '"' || c == 't' || c == 'b' || c == 'n' || c == 'r' || c == 'f' || c == 'u' ||
    c == '\\'

/-- Divides a text at the first quote that no backslash escapes, or at its end. A backslash with
nothing or with another character behind it makes this impossible. -/
def bodyEnd : List Char → Option (List Char × List Char)
  | [] => some ([], [])
  | ['\\'] => none
  | '\\' :: c :: s =>
    if isEscapable c then (bodyEnd s).map fun (body, rest) => ('\\' :: c :: body, rest) else none
  | c :: s =>
    if c = '"' then some ([], c :: s)
    else (bodyEnd s).map fun (body, rest) => (c :: body, rest)

/-- Takes the body of a literal. Where there is none, the body is empty: then no quote can
follow. -/
def bodyReader : Reader (List Char) :=
  fun s => .ok ((bodyEnd s).getD ([], s))

/-- Takes a string literal, with spaces before it, and yields its body. -/
def reader : Reader (List Char) := do
  Reader.spaces
  Reader.literal "\""
  let body ← bodyReader
  Reader.literal "\""
  return body

/-- The body and what is left make up the text. -/
theorem eq_append_of_bodyEnd {s body rest : List Char} (h : bodyEnd s = some (body, rest)) :
    s = body ++ rest := by
  induction s using bodyEnd.induct generalizing body rest with
  | case1 => simp_all [bodyEnd]
  | case2 => simp [bodyEnd] at h
  | case3 c s hc ih =>
    simp only [bodyEnd, hc, if_true, Option.map_eq_some_iff] at h
    obtain ⟨⟨b, r⟩, hb, he⟩ := h
    injection he with h₁ h₂
    subst h₁ h₂
    simp [ih hb]
  | case4 c s hc => simp [bodyEnd, hc] at h
  | case5 s h₁ h₂ => simp_all [bodyEnd]
  | case6 c s h₁ h₂ hc ih =>
    rw [bodyEnd] at h
    · simp only [hc, if_false, Option.map_eq_some_iff] at h
      obtain ⟨⟨b, r⟩, hb, he⟩ := h
      injection he with h₁ h₂
      subst h₁ h₂
      simp [ih hb]
    · simpa using h₁
    · simpa using h₂

/-- Reading the body of a literal moves forward. -/
theorem forward_bodyReader : bodyReader.Forward where
  ok {s body t} h := by
    injection h with h
    cases hb : bodyEnd s with
    | none =>
      rw [hb] at h
      injection h with _ h
      exact h ▸ List.suffix_refl _
    | some x =>
      rw [hb] at h
      exact ⟨body, (eq_append_of_bodyEnd (hb.trans (congrArg some h))).symm⟩
  error h := by injection h

/-- Reading a literal moves forward. -/
theorem forward_reader : reader.Forward :=
  Reader.forward_spaces.bind fun _ =>
    (Reader.forward_literal _).bind fun _ =>
      forward_bodyReader.bind fun _ =>
        (Reader.forward_literal _).bind fun _ => Reader.forward_pure _

/-- A literal has at least its quotes. -/
theorem progresses_reader : reader.Progresses :=
  Reader.Progresses.bind_right Reader.forward_spaces fun _ =>
    (Reader.progresses_literal (by decide)).bind fun _ =>
      forward_bodyReader.bind fun _ =>
        (Reader.forward_literal _).bind fun _ => Reader.forward_pure _

/-- The character with the code point that hexadecimal digits denote, if there is one. -/
def codePoint? (digits : List Char) : Option Char :=
  match unsigned? 16 digits with
  | some n => if n.isValidChar then some (Char.ofNat n) else none
  | none => none

/-- The text that the body of a literal denotes. An escape that denotes no character stands for
itself. -/
def unescape : List Char → List Char
  | [] => []
  | ['\\'] => ['\\']
  | '\\' :: 'n' :: s => '\n' :: unescape s
  | '\\' :: 't' :: s => '\t' :: unescape s
  | '\\' :: 'r' :: s => '\r' :: unescape s
  | '\\' :: 'u' :: s =>
    match codePoint? (s.take 4) with
    | some c => c :: unescape (s.drop 4)
    | none => '\\' :: 'u' :: (s.take 4 ++ unescape (s.drop 4))
  | '\\' :: c :: s => c :: unescape s
  | c :: s => c :: unescape s
termination_by s => s.length

/-- The text that a literal with its quotes denotes. -/
def value? (literal : String) : Option String :=
  match trim literal.toList with
  | '"' :: s => if s.getLast? = some '"' then some (String.ofList (unescape s.dropLast)) else none
  | _ => none

end GatedCalls.StringLiteral
