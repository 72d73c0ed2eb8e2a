import GatedCalls.Text.Blank

/-!
# Readers

A reader takes a value off the beginning of a text and leaves the rest, or it fails and names the
text that stood where it failed. Readers compose in sequence (`do`) and as alternatives (`orElse`).
-/

namespace GatedCalls.Text

/-- Whether the text begins with the given one. -/
def startsWith (beginning : String) (s : List Char) : Bool :=
  beginning.toList.isPrefixOf s

/-- Takes a value off the beginning of a text. A failure is the text left where it happened. -/
def Reader (α : Type) : Type :=
  List Char → Except (List Char) (α × List Char)

namespace Reader

variable {α β : Type}

instance : Monad Reader where
  pure a s := .ok (a, s)
  bind r f s :=
    match r s with
    | .ok (a, t) => f a t
    | .error e => .error e

/-- A constant reader takes nothing. -/
@[simp] theorem pure_apply (a : α) (s : List Char) : (pure a : Reader α) s = .ok (a, s) := rfl

/-- A sequence goes on with what the first reader leaves. -/
@[simp] theorem bind_apply (r : Reader α) (f : α → Reader β) (s : List Char) :
    (r >>= f) s =
      match r s with
      | .ok (a, t) => f a t
      | .error e => .error e := rfl

/-- Fails where it stands. -/
def fail : Reader α :=
  fun s => .error s

/-- The second reader where the first one fails, from the same place. -/
def orElse (r₁ r₂ : Reader α) : Reader α :=
  fun s =>
    match r₁ s with
    | .ok x => .ok x
    | .error _ => r₂ s

/-- What the reader takes, or nothing where it fails. -/
def optional (r : Reader α) : Reader (Option α) :=
  fun s =>
    match r s with
    | .ok (a, t) => .ok (some a, t)
    | .error _ => .ok (none, s)

/-- Takes the given text. -/
def literal (text : String) : Reader Unit :=
  fun s =>
    match text.toList.isPrefixOf? s with
    | some t => .ok ((), t)
    | none => .error s

/-- Takes one character that satisfies the test. -/
def satisfy (p : Char → Bool) : Reader Char :=
  fun s =>
    match s with
    | c :: t => if p c then .ok (c, t) else .error s
    | [] => .error s

/-- Takes the longest beginning whose characters all satisfy the test. -/
def run (p : Char → Bool) : Reader (List Char) :=
  fun s => .ok (s.takeWhile p, s.dropWhile p)

/-- Takes the longest beginning whose characters all satisfy the test, and at least one. -/
def run1 (p : Char → Bool) : Reader (List Char) :=
  fun s =>
    match s.takeWhile p with
    | [] => .error s
    | cs => .ok (cs, s.dropWhile p)

/-- Takes spaces and tabs, if any. -/
def spaces : Reader Unit := do
  let _ ← run isSpace

/-- Takes one or more spaces and tabs. -/
def spaces1 : Reader Unit := do
  let _ ← run1 isSpace

/-- Takes spaces, tabs and line breaks, if any. -/
def layout : Reader Unit := do
  let _ ← run isLayout

/-- Takes a comma with spaces around it. -/
def comma : Reader Unit := do
  spaces
  literal ","
  spaces

/-- Takes what the reader takes together with the layout on both sides of it. -/
def inLayout (r : Reader α) : Reader α := do
  layout
  let a ← r
  layout
  return a

/-- The text before the first occurrence of `stop`, and the text from there on. -/
def breakAt (stop : List Char) : List Char → Option (List Char × List Char)
  | [] => if stop.isEmpty then some ([], []) else none
  | c :: s =>
    if stop.isPrefixOf (c :: s) then some ([], c :: s)
    else (breakAt stop s).map fun (before, rest) => (c :: before, rest)

/-- Takes what stands before the first occurrence of `stop`; fails where there is none. -/
def before (stop : String) : Reader (List Char) :=
  fun s =>
    match breakAt stop.toList s with
    | some found => .ok found
    | none => .error s

/-- Whether the character is neither a carriage return nor a line feed. -/
def isInLine (c : Char) : Bool :=
  c != '\r' && c != '\n'

/-- Takes what is left of the line, its line break excluded. A carriage return that no line feed
follows is not part of any line: where one comes first, the reader fails. -/
def lineText : Reader (List Char) :=
  fun s =>
    match s.dropWhile isInLine with
    | '\r' :: '\n' :: rest => .ok (s.takeWhile isInLine, '\r' :: '\n' :: rest)
    | '\r' :: _ => .error s
    | rest => .ok (s.takeWhile isInLine, rest)

/-- Takes a line break, if one stands here. -/
def lineBreak : Reader Unit :=
  fun s =>
    match s with
    | '\n' :: t => .ok ((), t)
    | '\r' :: '\n' :: t => .ok ((), t)
    | _ => .ok ((), s)

/-- Takes what is left of the line together with its line break, which is not part of the value. -/
def restOfLine : Reader (List Char) := do
  let text ← lineText
  lineBreak
  return text

/-- The value that the reader takes off the whole text, if nothing is left over. -/
def whole? (r : Reader α) (s : List Char) : Option α :=
  match r s with
  | .ok (a, []) => some a
  | _ => none

/-- Succeeds at the end of the text only. -/
def endOfText : Reader Unit :=
  fun s => if s.isEmpty then .ok ((), []) else .error s

/-- Takes a line together with its line break; there has to be one. -/
def line : Reader (List Char) :=
  fun s => if s.isEmpty then .error s else restOfLine s

end Reader

end GatedCalls.Text
