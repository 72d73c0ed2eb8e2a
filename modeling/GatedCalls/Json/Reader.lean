import GatedCalls.Json.Syntax
import GatedCalls.Text.Reader.Repetition

/-!
# Reading JSON

`Json.read?` reads a text that is one JSON document with layout around it. Arrays and objects are
read by functions that return what they leave with the proof that it is shorter than what they were
given.
-/

namespace GatedCalls.Json

open Text

/-- Takes a punctuation mark with layout before it. -/
def mark (c : Char) : Reader Char := do
  Reader.layout
  Reader.satisfy (· == c)

/-- A mark is a character, and so something is taken. -/
theorem progresses_mark (c : Char) : (mark c).Progresses :=
  Reader.Progresses.bind_right Reader.forward_layout fun _ => Reader.progresses_satisfy _

/-! ### Scalars -/

/-- Divides a text behind the quote that ends a string, if the text up to there is well formed. -/
def stringEnd : List Char → Option (List Char × List Char)
  | [] => none
  | '"' :: s => some ([], s)
  | '\\' :: 'u' :: a :: b :: c :: d :: s =>
    if (hexUnit? a b c d).isSome then
      (stringEnd s).map fun (body, rest) => ('\\' :: 'u' :: a :: b :: c :: d :: body, rest)
    else none
  | '\\' :: c :: s =>
    if (escapeLetter? c).isSome then
      (stringEnd s).map fun (body, rest) => ('\\' :: c :: body, rest)
    else none
  | c :: s =>
    if c.toNat < 32 ∨ c = '\\' then none
    else (stringEnd s).map fun (body, rest) => (c :: body, rest)

/-- The end of a string takes at least the closing quote. -/
theorem length_lt_of_stringEnd {s body rest : List Char} (h : stringEnd s = some (body, rest)) :
    rest.length < s.length := by
  fun_induction stringEnd s generalizing body rest with
  | case1 | case4 | case6 | case7 => contradiction
  | case2 s =>
    cases h
    exact Nat.lt_succ_self _
  | case3 a b c d s _ ih =>
    obtain ⟨⟨body', rest'⟩, hend, hsame⟩ := Option.map_eq_some_iff.mp h
    cases hsame
    have hlt := ih hend
    simp only [List.length_cons]
    omega
  | case5 c s _ _ ih =>
    obtain ⟨⟨body', rest'⟩, hend, hsame⟩ := Option.map_eq_some_iff.mp h
    cases hsame
    exact Nat.lt_succ_of_lt (Nat.lt_succ_of_lt (ih hend))
  | case8 c s _ _ _ _ ih =>
    obtain ⟨⟨body', rest'⟩, hend, hsame⟩ := Option.map_eq_some_iff.mp h
    cases hsame
    exact Nat.lt_succ_of_lt (ih hend)

/-- Takes a string with layout before it, and yields what stands between its quotes. -/
def stringReader : Reader String :=
  fun s =>
    match mark '"' s with
    | .error e => .error e
    | .ok (_, t) =>
      match stringEnd t with
      | some (body, rest) => .ok (String.ofList body, rest)
      | none => .error t

/-- A string takes at least its quotes. -/
theorem length_lt_of_stringReader {s t : List Char} {body : String}
    (h : stringReader s = .ok (body, t)) : t.length < s.length := by
  unfold stringReader at h
  split at h
  · contradiction
  · next hm =>
    split at h
    · next he =>
      cases h
      exact Nat.lt_trans (length_lt_of_stringEnd he) ((progresses_mark _).lt hm)
    · contradiction

/-- Takes the digits in front of a point: no further digit follows a leading zero. -/
def integerReader : Reader (List Char) :=
  Reader.orElse (do let c ← Reader.satisfy (· == '0'); return [c]) (Reader.run1 Char.isDigit)

/-- Takes a point and digits. -/
def fractionReader : Reader (List Char) := do
  let point ← Reader.satisfy (· == '.')
  let digits ← Reader.run1 Char.isDigit
  return point :: digits

/-- Takes an exponent. -/
def exponentReader : Reader (List Char) := do
  let e ← Reader.satisfy fun c => c == 'e' || c == 'E'
  let sign ← Reader.optional (Reader.satisfy fun c => c == '+' || c == '-')
  let digits ← Reader.run1 Char.isDigit
  return e :: (sign.toList ++ digits)

/-- Takes a number and yields its spelling. -/
def numberReader : Reader Json := do
  let sign ← Reader.optional (Reader.satisfy (· == '-'))
  let digits ← integerReader
  let fraction ← Reader.optional fractionReader
  let exponent ← Reader.optional exponentReader
  return number (String.ofList (sign.toList ++ digits ++ fraction.getD [] ++ exponent.getD []))

/-- Takes a word that stands for a value. -/
def wordReader (word : String) (value : Json) : Reader Json := do
  Reader.literal word
  return value

/-- Takes a value without parts, with layout before it, but no string. -/
def wordOrNumberReader : Reader Json := do
  Reader.layout
  Reader.orElse (wordReader "null" null) <|
    Reader.orElse (wordReader "true" (boolean true)) <|
      Reader.orElse (wordReader "false" (boolean false)) numberReader

/-- A number has at least one digit. -/
theorem progresses_numberReader : numberReader.Progresses := by
  refine Reader.Progresses.bind_right (Reader.forward_satisfy _).optional fun _ => ?_
  have hi : integerReader.Progresses :=
    ((Reader.progresses_satisfy _).bind fun _ => Reader.forward_pure _).orElse
      (Reader.progresses_run1 _)
  have hf : fractionReader.Forward :=
    (Reader.forward_satisfy _).bind fun _ =>
      (Reader.forward_run1 _).bind fun _ => Reader.forward_pure _
  have he : exponentReader.Forward :=
    (Reader.forward_satisfy _).bind fun _ =>
      (Reader.forward_satisfy _).optional.bind fun _ =>
        (Reader.forward_run1 _).bind fun _ => Reader.forward_pure _
  exact hi.bind fun _ => hf.optional.bind fun _ => he.optional.bind fun _ => Reader.forward_pure _

/-- A word that is not empty takes at least one letter. -/
theorem progresses_wordReader {word : String} (h : word.toList ≠ []) (value : Json) :
    (wordReader word value).Progresses :=
  (Reader.progresses_literal h).bind fun _ => Reader.forward_pure _

/-- Neither a word nor a number is empty. -/
theorem progresses_wordOrNumberReader : wordOrNumberReader.Progresses :=
  Reader.Progresses.bind_right Reader.forward_layout fun _ =>
    (progresses_wordReader (by decide) _).orElse <|
      (progresses_wordReader (by decide) _).orElse <|
        (progresses_wordReader (by decide) _).orElse progresses_numberReader

/-- Takes a value without parts, with layout before it. -/
def scalarReader : Reader Json :=
  fun s =>
    match stringReader s with
    | .ok (body, t) => .ok (string body, t)
    | .error _ => wordOrNumberReader s

/-- A value without parts has at least one character. -/
theorem length_lt_of_scalarReader {s t : List Char} {j : Json} (h : scalarReader s = .ok (j, t)) :
    t.length < s.length := by
  unfold scalarReader at h
  split at h
  · next he =>
    cases h
    exact length_lt_of_stringReader he
  · exact progresses_wordOrNumberReader.lt h

/-- Takes the name of a member and the colon behind it. -/
def memberNameReader : Reader String :=
  fun s =>
    match stringReader s with
    | .error e => .error e
    | .ok (name, t) =>
      match mark ':' t with
      | .error e => .error e
      | .ok (_, u) => .ok (name, u)

/-- The name of a member takes at least its quotes. -/
theorem length_lt_of_memberNameReader {s t : List Char} {name : String}
    (h : memberNameReader s = .ok (name, t)) : t.length < s.length := by
  unfold memberNameReader at h
  split at h
  · contradiction
  · next hs =>
    split at h
    · contradiction
    · next hm =>
      cases h
      exact Nat.lt_trans ((progresses_mark _).lt hm) (length_lt_of_stringReader hs)

/-! ### Arrays and objects -/

/-- The texts that are shorter than a text. -/
abbrev Shorter (s : List Char) : Type :=
  { t : List Char // t.length < s.length }

mutual

/-- Reads a value with layout before it. -/
def readValue (s : List Char) : Option (Json × Shorter s) :=
  match h : mark '[' s with
  | .ok (_, t) =>
    have ht := (progresses_mark _).lt h
    match h : mark ']' t with
    | .ok (_, u) => some (array [], ⟨u, Nat.lt_trans ((progresses_mark _).lt h) ht⟩)
    | .error _ =>
      match readItems t with
      | some (items, u) => some (array items, ⟨u.1, Nat.lt_trans u.2 ht⟩)
      | none => none
  | .error _ =>
    match h : mark '\x7b' s with
    | .ok (_, t) =>
      have ht := (progresses_mark _).lt h
      match h : mark '\x7d' t with
      | .ok (_, u) => some (object [], ⟨u, Nat.lt_trans ((progresses_mark _).lt h) ht⟩)
      | .error _ =>
        match readMembers t with
        | some (members, u) => some (object members, ⟨u.1, Nat.lt_trans u.2 ht⟩)
        | none => none
    | .error _ =>
      match h : scalarReader s with
      | .ok (j, t) => some (j, ⟨t, length_lt_of_scalarReader h⟩)
      | .error _ => none
termination_by (s.length, 0)

/-- Reads one or more items of an array and the bracket behind them. -/
def readItems (s : List Char) : Option (List Json × Shorter s) :=
  match readValue s with
  | none => none
  | some (j, t) =>
    have ht := t.2
    match h : mark ',' t.1 with
    | .ok (_, u) =>
      have hu := (progresses_mark _).lt h
      match readItems u with
      | some (js, w) => some (j :: js, ⟨w.1, Nat.lt_trans w.2 (Nat.lt_trans hu ht)⟩)
      | none => none
    | .error _ =>
      match h : mark ']' t.1 with
      | .ok (_, u) => some ([j], ⟨u, Nat.lt_trans ((progresses_mark _).lt h) ht⟩)
      | .error _ => none
termination_by (s.length, 1)

/-- Reads one or more members of an object and the brace behind them. -/
def readMembers (s : List Char) : Option (List (String × Json) × Shorter s) :=
  match h : memberNameReader s with
  | .error _ => none
  | .ok (name, t) =>
    have ht := length_lt_of_memberNameReader h
    match readValue t with
    | none => none
    | some (j, u) =>
      have hu := u.2
      match h : mark ',' u.1 with
      | .ok (_, w) =>
        have hw := (progresses_mark _).lt h
        match readMembers w with
        | some (members, x) =>
          some ((name, j) :: members, ⟨x.1, by have := x.2; omega⟩)
        | none => none
      | .error _ =>
        match h : mark '\x7d' u.1 with
        | .ok (_, w) => some ([(name, j)], ⟨w, by have := (progresses_mark _).lt h; omega⟩)
        | .error _ => none
termination_by (s.length, 1)

end

/-- Reads a text that is one document with layout around it. -/
def read? (text : String) : Option Json :=
  match readValue text.toList with
  | some (j, t) => if t.1.all isLayout then some j else none
  | none => none

end GatedCalls.Json
