import GatedCalls.Text.Split
import Mathlib.Data.List.Basic

/-!
# Pieces put together

Pieces that are put together with separators can be put together in two parts, with a separator
between the parts. So what the first pieces make is the beginning of the whole, and what is added to
the last piece stands at the end. Splitting at a separator gives pieces that make the text again.
-/

namespace GatedCalls.Text

/-- Pieces are put together in two parts. -/
theorem intercalate_append (sep : List Char) {xs ys : List (List Char)} (hxs : xs ≠ [])
    (hys : ys ≠ []) :
    sep.intercalate (xs ++ ys) = sep.intercalate xs ++ sep ++ sep.intercalate ys := by
  induction xs with
  | nil => exact absurd rfl hxs
  | cons x xs ih =>
    cases xs with
    | nil =>
      obtain ⟨y, ys, rfl⟩ := List.exists_cons_of_ne_nil hys
      simp [List.intercalate_cons_cons]
    | cons x' xs =>
      rw [List.cons_append, List.cons_append, List.intercalate_cons_cons,
        List.intercalate_cons_cons, ← List.cons_append, ih (List.cons_ne_nil x' xs)]
      simp only [List.append_assoc]

/-- What is added to the last piece stands at the end. -/
theorem intercalate_concat_append (sep : List Char) (xs : List (List Char)) (y z : List Char) :
    sep.intercalate (xs ++ [y ++ z]) = sep.intercalate (xs ++ [y]) ++ z := by
  by_cases hxs : xs = []
  · simp [hxs, List.intercalate]
  · rw [intercalate_append sep hxs (List.cons_ne_nil _ []),
      intercalate_append sep hxs (List.cons_ne_nil _ [])]
    simp [List.intercalate]

/-- Pieces put together begin with what the first of them make together. -/
theorem intercalate_isPrefix (sep : List Char) {xs ys : List (List Char)} (h : xs <+: ys) :
    sep.intercalate xs <+: sep.intercalate ys := by
  obtain ⟨rest, rfl⟩ := h
  by_cases hxs : xs = []
  · exact hxs ▸ List.nil_prefix
  by_cases hrest : rest = []
  · simp [hrest]
  · rw [intercalate_append sep hxs hrest, List.append_assoc]
    exact List.prefix_append _ _

/-- Pieces put together end with what the last of them make together. -/
theorem intercalate_isSuffix (sep : List Char) {xs ys : List (List Char)} (h : xs <:+ ys) :
    sep.intercalate xs <:+ sep.intercalate ys := by
  obtain ⟨rest, rfl⟩ := h
  by_cases hxs : xs = []
  · exact hxs ▸ List.nil_suffix
  by_cases hrest : rest = []
  · simp [hrest]
  · rw [intercalate_append sep hrest hxs]
    exact List.suffix_append _ _

/-- Nothing is put together from empty pieces only. -/
theorem eq_nil_of_intercalate_eq_nil {sep : List Char} {xs : List (List Char)}
    (h : sep.intercalate xs = []) : ∀ x ∈ xs, x = [] := by
  induction xs with
  | nil => exact fun x hx => absurd hx List.not_mem_nil
  | cons x xs ih =>
    cases xs with
    | nil =>
      intro y hy
      rw [List.mem_singleton.mp hy]
      simpa [List.intercalate] using h
    | cons x' xs =>
      rw [List.intercalate_cons_cons, List.append_assoc, List.append_eq_nil_iff,
        List.append_eq_nil_iff] at h
      obtain ⟨hx, -, hxs⟩ := h
      exact List.forall_mem_cons.mpr ⟨hx, ih hxs⟩

/-- The pieces of a string make it again. -/
theorem intercalate_splitOf (sep : Char) (s : String) :
    [sep].intercalate ((splitOf sep s).map String.toList) = s.toList := by
  rw [splitOf, List.map_map]
  simpa [Function.comp_def] using intercalate_splitAt sep s.toList

/-- A text is split at a separator in it and on both sides of it. -/
theorem splitAt_append_cons (sep : Char) (s t : List Char) :
    splitAt sep (s ++ sep :: t) = splitAt sep s ++ splitAt sep t := by
  induction s with
  | nil => simp [splitAt]
  | cons c s ih =>
    obtain ⟨piece, pieces, hpieces⟩ := List.exists_cons_of_ne_nil (splitAt_ne_nil sep s)
    rw [List.cons_append, splitAt, splitAt, ih, hpieces]
    split <;> rfl

/-- What is added to a text without a separator is added to its last piece. -/
theorem splitAt_append_of_not_mem {sep : Char} {t : List Char} (h : sep ∉ t) {s : List Char}
    {front : List (List Char)} {last : List Char} (hs : splitAt sep s = front ++ [last]) :
    splitAt sep (s ++ t) = front ++ [last ++ t] := by
  induction s generalizing front last with
  | nil =>
    obtain ⟨rfl, rfl⟩ : front = [] ∧ last = [] := by
      cases front with
      | nil => simpa [splitAt, eq_comm] using hs
      | cons x front => simp [splitAt] at hs
    exact splitAt_of_not_mem h
  | cons c s ih =>
    rw [splitAt] at hs
    rw [List.cons_append, splitAt]
    split at hs
    case isTrue hc =>
      -- The separator ends an empty piece, so the last one is in what follows it.
      cases front with
      | nil => exact absurd (List.cons.inj hs).2 (splitAt_ne_nil sep s)
      | cons x front =>
        obtain ⟨rfl, hrest⟩ := List.cons.inj hs
        rw [if_pos hc, ih hrest]
        rfl
    case isFalse hc =>
      rw [if_neg hc]
      cases hpieces : splitAt sep s with
      | nil => exact absurd hpieces (splitAt_ne_nil sep s)
      | cons piece pieces =>
        rw [hpieces] at hs
        cases front with
        | nil =>
          obtain ⟨rfl, rfl⟩ := List.cons.inj hs
          have honly : splitAt sep s = [] ++ [piece] := hpieces
          rw [ih honly]
          rfl
        | cons x front =>
          obtain ⟨rfl, rfl⟩ := List.cons.inj hs
          have hmore : splitAt sep s = (piece :: front) ++ [last] := hpieces
          rw [ih hmore]
          rfl

end GatedCalls.Text
