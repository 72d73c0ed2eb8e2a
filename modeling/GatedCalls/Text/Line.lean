/-!
# Lines

A text is divided into lines at its line feeds; one carriage return before a line feed belongs to
the line break. A text that ends with a line feed has no further, empty line after it.
-/

namespace GatedCalls.Text

/-- The lines of a text that follows the reversed beginning `done` of its first line. -/
def linesFrom (done : List Char) : List Char → List (List Char)
  | [] => if done.isEmpty then [] else [done.reverse]
  | '\n' :: s =>
    match done with
    | '\r' :: line => line.reverse :: linesFrom [] s
    | line => line.reverse :: linesFrom [] s
  | c :: s => linesFrom (c :: done) s

/-- The lines of a text, without their line breaks. -/
def lines (s : List Char) : List (List Char) :=
  linesFrom [] s

/-- Puts line feeds between the lines. -/
def joinLines (ls : List String) : String :=
  "\n".intercalate ls

/-- The lines of a string. -/
def linesOf (s : String) : List String :=
  (lines s.toList).map String.ofList

/-- The empty text has no lines. -/
@[simp] theorem lines_nil : lines [] = [] := rfl

end GatedCalls.Text
