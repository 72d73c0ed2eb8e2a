/-!
# Splitting at a character

Splitting cuts a text at every place where a separator stands. There is at least one piece, and
putting the separators back between the pieces gives the text again.
-/

namespace GatedCalls.Text

/-- The pieces of a text between the separators. -/
def splitAt (sep : Char) : List Char → List (List Char)
  | [] => [[]]
  | c :: s =>
    if c = sep then [] :: splitAt sep s
    else
      match splitAt sep s with
      | [] => [[c]]
      | piece :: pieces => (c :: piece) :: pieces

/-- The pieces of a string between the separators. -/
def splitOf (sep : Char) (s : String) : List String :=
  (splitAt sep s.toList).map String.ofList

/-- Splitting yields at least one part. -/
theorem splitAt_ne_nil (sep : Char) (s : List Char) : splitAt sep s ≠ [] := by
  cases s with
  | nil => simp [splitAt]
  | cons c s => grind [splitAt]

/-- Splitting a text yields at least one part. -/
theorem splitOf_ne_nil (sep : Char) (s : String) : splitOf sep s ≠ [] := by
  simp [splitOf, splitAt_ne_nil]

/-- Splitting is undone by putting the separators back. -/
theorem intercalate_splitAt (sep : Char) (s : List Char) :
    [sep].intercalate (splitAt sep s) = s := by
  induction s with
  | nil => rfl
  | cons c s ih =>
    have hne := splitAt_ne_nil sep s
    rw [splitAt]
    split
    · next h =>
      cases hs : splitAt sep s with
      | nil => exact absurd hs hne
      | cons piece pieces => rw [hs] at ih; simp [List.intercalate_cons_cons, ih, h]
    · cases hs : splitAt sep s with
      | nil => exact absurd hs hne
      | cons piece pieces =>
        rw [hs] at ih
        cases pieces <;> simp_all [List.intercalate_cons_cons]

/-- A text without separators is one piece. -/
theorem splitAt_of_not_mem {sep : Char} {s : List Char} (h : sep ∉ s) : splitAt sep s = [s] := by
  induction s with
  | nil => rfl
  | cons c s ih =>
    rw [List.mem_cons, not_or] at h
    rw [splitAt, if_neg (Ne.symm h.1), ih h.2]

end GatedCalls.Text
