import GatedCalls.Text.Numeral

/-!
# JSON

JSON documents as trees that keep numbers and strings as they are spelled: what a string denotes is
found by `decode`, and `encode` gives its spelling. A document prints on one line (`compact`) or,
for people, with one value a line (`pretty`).
-/

namespace GatedCalls

/-- A JSON document. A number is its spelling, a string the text between its quotes. -/
inductive Json where
  | null
  | boolean (b : Bool)
  | number (spelling : String)
  | string (body : String)
  | array (items : List Json)
  | object (members : List (String × Json))
  deriving Repr, Inhabited

namespace Json

/-! ### Strings and numbers -/

/-- The lower-case hexadecimal digit of a number below sixteen. -/
def hexDigit (n : Nat) : Char :=
  if n < 10 then Char.ofNat (48 + n) else Char.ofNat (87 + n)

/-- Spells a character inside a string. Quotes, backslashes and control characters are escaped. -/
def encodeChar (c : Char) : List Char :=
  match c with
  | '"' => ['\\', '"']
  | '\\' => ['\\', '\\']
  | '\x08' => ['\\', 'b']
  | '\t' => ['\\', 't']
  | '\n' => ['\\', 'n']
  | '\x0c' => ['\\', 'f']
  | '\r' => ['\\', 'r']
  | c =>
    if c.toNat < 32 then ['\\', 'u', '0', '0', hexDigit (c.toNat / 16), hexDigit (c.toNat % 16)]
    else [c]

/-- The string value that denotes the text. -/
def ofString (s : String) : Json :=
  string (String.ofList (s.toList.flatMap encodeChar))

/-- The number that denotes a natural number. -/
def ofNat (n : Nat) : Json :=
  number (toString n)

/-- The number that four hexadecimal digits denote. -/
def hexUnit? (a b c d : Char) : Option Nat := do
  return 4096 * (← Text.digitValue a) + 256 * (← Text.digitValue b) +
    16 * (← Text.digitValue c) + (← Text.digitValue d)

/-- The character that a letter denotes behind a backslash. -/
def escapeLetter? : Char → Option Char
  | '"' => some '"'
  | '\\' => some '\\'
  | '/' => some '/'
  | 'b' => some '\x08'
  | 'f' => some '\x0c'
  | 'n' => some '\n'
  | 'r' => some '\r'
  | 't' => some '\t'
  | _ => none

/-- The text that the body of a string denotes. Characters beyond the basic plane may be spelled as
two surrogates; a surrogate on its own denotes nothing. -/
def decode : List Char → Option (List Char)
  | [] => some []
  | '\\' :: 'u' :: a :: b :: c :: d :: '\\' :: 'u' :: e :: f :: g :: h :: s =>
    match hexUnit? a b c d with
    | none => none
    | some high =>
      if 0xD800 ≤ high ∧ high < 0xDC00 then
        match hexUnit? e f g h with
        | none => none
        | some low =>
          if 0xDC00 ≤ low ∧ low < 0xE000 then
            (decode s).map (Char.ofNat (0x10000 + 0x400 * (high - 0xD800) + (low - 0xDC00)) :: ·)
          else none
      else if 0xDC00 ≤ high ∧ high < 0xE000 then none
      else (decode ('\\' :: 'u' :: e :: f :: g :: h :: s)).map (Char.ofNat high :: ·)
  | '\\' :: 'u' :: a :: b :: c :: d :: s =>
    match hexUnit? a b c d with
    | none => none
    | some n => if 0xD800 ≤ n ∧ n < 0xE000 then none else (decode s).map (Char.ofNat n :: ·)
  | '\\' :: c :: s =>
    match escapeLetter? c with
    | none => none
    | some x => (decode s).map (x :: ·)
  | ['\\'] => none
  | c :: s => (decode s).map (c :: ·)

/-- The text that a string value denotes. -/
def asString? : Json → Option String
  | string body => (decode body.toList).map String.ofList
  | _ => none

/-- The natural number that a number denotes, if it is spelled with digits only and fits in 64
bits. -/
def asNat? : Json → Option Nat
  | number spelling =>
    if spelling.toList.all Char.isDigit then
      let n := spelling.toList.foldl (fun n c => 10 * n + (c.toNat - 48)) 0
      if n < UInt64.size then some n else none
    else none
  | _ => none

/-! ### Printing -/

mutual

/-- The document on one line, without blanks. -/
def compact : Json → String
  | null => "null"
  | boolean b => if b then "true" else "false"
  | number spelling => spelling
  | string body => "\"" ++ body ++ "\""
  | array items => "[" ++ compactItems items ++ "]"
  | object members => "\x7b" ++ compactMembers members ++ "\x7d"

/-- The items of an array, with commas between them. -/
def compactItems : List Json → String
  | [] => ""
  | [j] => j.compact
  | j :: js => j.compact ++ "," ++ compactItems js

/-- The members of an object, with commas between them. -/
def compactMembers : List (String × Json) → String
  | [] => ""
  | [(name, j)] => "\"" ++ name ++ "\":" ++ j.compact
  | (name, j) :: js => "\"" ++ name ++ "\":" ++ j.compact ++ "," ++ compactMembers js

end

mutual

/-- The document with one value a line, each level two spaces further in. -/
def pretty (indent : String) : Json → String
  | array [] => "[]"
  | array items => "[\n" ++ prettyItems (indent ++ "  ") items ++ "\n" ++ indent ++ "]"
  | object [] => "\x7b\x7d"
  | object members =>
    "\x7b\n" ++ prettyMembers (indent ++ "  ") members ++ "\n" ++ indent ++ "\x7d"
  | j => j.compact

/-- The items of an array, each on lines of its own. -/
def prettyItems (indent : String) : List Json → String
  | [] => ""
  | [j] => indent ++ j.pretty indent
  | j :: js => indent ++ j.pretty indent ++ ",\n" ++ prettyItems indent js

/-- The members of an object, each on lines of its own. -/
def prettyMembers (indent : String) : List (String × Json) → String
  | [] => ""
  | [(name, j)] => indent ++ "\"" ++ name ++ "\": " ++ j.pretty indent
  | (name, j) :: js =>
    indent ++ "\"" ++ name ++ "\": " ++ j.pretty indent ++ ",\n" ++ prettyMembers indent js

end

end Json

end GatedCalls
