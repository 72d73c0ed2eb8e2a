import GatedCalls.Text.Split

/-!
# Paths

The path of a file is a text whose slashes separate segments. A path keeps the spelling in which it
was given, because that is how it is reported: `./app` stays `./app`, and `app/` keeps its last
slash. Empty segments and segments `.` mean nothing to the file system; at the end of a path the
operations below pass over them. Only a `.` that begins a path counts, as the directory that the
path starts from.
-/

namespace GatedCalls.Disk

open Text

/-- A path: whether it starts with a slash, and the segments between the slashes behind that. -/
structure Path where
  isAbsolute : Bool
  segments : List String
  deriving DecidableEq, Repr

namespace Path

/-- The path that a text spells. -/
def ofText (text : String) : Path :=
  match text.toList with
  | '/' :: s => ⟨true, (splitAt '/' s).map String.ofList⟩
  | s => ⟨false, (splitAt '/' s).map String.ofList⟩

/-- The text of a path. -/
def text (p : Path) : String :=
  (if p.isAbsolute then "/" else "") ++ "/".intercalate p.segments

/-- Reversed segments without those at the end that mean nothing. -/
def significantFrom (isAbsolute : Bool) : List String → List String
  | [] => []
  | [s] => if s = "" ∨ (isAbsolute ∧ s = ".") then [] else [s]
  | s :: rest => if s = "" ∨ s = "." then significantFrom isAbsolute rest else s :: rest

/-- The segments of a path, reversed, without those at the end that mean nothing. -/
def significant (p : Path) : List String :=
  significantFrom p.isAbsolute p.segments.reverse

/-- The name of the file or directory, unless the path ends in `.` or `..` or is a root. -/
def fileName? (p : Path) : Option String :=
  match p.significant with
  | [] => none
  | name :: _ => if name = "." ∨ name = ".." then none else some name

/-- The path without its last segment. -/
def parent? (p : Path) : Option Path :=
  match p.significant with
  | [] => none
  | _ :: rest => some ⟨p.isAbsolute, (significantFrom p.isAbsolute rest).reverse⟩

/-- The path with one more segment. It takes the place of an empty segment at the end. -/
def push (p : Path) (segment : String) : Path :=
  if p.segments.getLast? = some "" then { p with segments := p.segments.dropLast ++ [segment] }
  else { p with segments := p.segments ++ [segment] }

/-- The path with more segments. -/
def join (p : Path) (segments : List String) : Path :=
  segments.foldl push p

/-- The path of another file in the directory of a file. -/
def sibling? (p : Path) (name : String) : Option Path :=
  p.parent?.map (·.push name)

/-- Passing over segments adds none. -/
theorem length_significantFrom_le (isAbsolute : Bool) (ss : List String) :
    (significantFrom isAbsolute ss).length ≤ ss.length := by
  fun_induction significantFrom isAbsolute ss <;> grind

/-- A parent has fewer segments. -/
theorem length_segments_parent {p q : Path} (h : p.parent? = some q) :
    q.segments.length < p.segments.length := by
  have hp := length_significantFrom_le p.isAbsolute p.segments.reverse
  unfold parent? at h
  split at h
  · simp at h
  · next s rest hs =>
    rw [← Option.some.inj h]
    have hr := length_significantFrom_le p.isAbsolute rest
    unfold significant at hs
    simp_all
    omega

end Path

end GatedCalls.Disk
