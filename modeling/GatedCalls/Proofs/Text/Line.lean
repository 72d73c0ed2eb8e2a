import Mathlib.Data.List.Basic
import GatedCalls.Proofs.Text.Trim
import GatedCalls.Text.Line

/-!
# Lines

A text is its first line, a line break and the lines behind; lines that are in line and not empty
are got back after they have been joined.
-/

namespace GatedCalls.Text

/-- Characters that break no line are added to the line. -/
theorem linesFrom_append {done l : List Char} (h : '\n' ∉ l) (s : List Char) :
    linesFrom done (l ++ s) = linesFrom (l.reverse ++ done) s := by
  induction l generalizing done with
  | nil => rfl
  | cons c l ih =>
    obtain ⟨hc, hl⟩ := not_or.mp (mt List.mem_cons.mpr h)
    have hstep : linesFrom done (c :: (l ++ s)) = linesFrom (c :: done) (l ++ s) := by
      rw [linesFrom]
      exact fun heq => absurd heq.symm hc
    rw [List.cons_append, hstep, ih hl]
    simp

/-- A line feed ends a line. -/
theorem lines_append {l : List Char} (h : '\n' ∉ l) (hreturn : l.getLast? ≠ some '\r')
    (s : List Char) : lines (l ++ '\n' :: s) = l :: lines s := by
  have hrev : ∀ line, l.reverse = '\r' :: line → False := by
    intro line heq
    apply hreturn
    rw [List.getLast?_eq_head?_reverse, heq]
    rfl
  rw [lines, linesFrom_append h, List.append_nil, linesFrom, List.reverse_reverse]
  · rfl
  · exact hrev

/-- A carriage return in front of the line feed belongs to the line break. -/
theorem lines_append_return {l : List Char} (h : '\n' ∉ l) (s : List Char) :
    lines (l ++ '\r' :: '\n' :: s) = l :: lines s := by
  have heq : l ++ '\r' :: '\n' :: s = (l ++ ['\r']) ++ '\n' :: s := by simp
  have hmem : '\n' ∉ l ++ ['\r'] := by simpa using h
  rw [heq, lines, linesFrom_append hmem]
  simp [linesFrom, lines]

/-- A text without line feed is one line. -/
theorem lines_of_not_mem {l : List Char} (h : '\n' ∉ l) (hne : l ≠ []) : lines l = [l] := by
  have hlines : linesFrom [] (l ++ []) = linesFrom (l.reverse ++ []) [] := linesFrom_append h []
  rw [List.append_nil, List.append_nil] at hlines
  rw [lines, hlines, linesFrom, if_neg (by simpa using hne), List.reverse_reverse]

/-- Whether a line break ends a line: no line feed stands in the line, and a carriage return in
front of the line feed belongs to the line break. -/
structure EndsLine (lineBreak l : List Char) : Prop where
  isLineBreak : IsLineBreak lineBreak
  not_mem : '\n' ∉ l
  /-- In front of a line feed alone stands no carriage return. -/
  getLast?_ne : lineBreak = ['\n'] → l.getLast? ≠ some '\r'

/-- A line break that ends a line ends the first line. -/
theorem EndsLine.lines_append {l lineBreak : List Char} (h : EndsLine lineBreak l) (s : List Char) :
    lines (l ++ (lineBreak ++ s)) = l :: lines s := by
  obtain rfl | rfl := h.isLineBreak
  · exact Text.lines_append h.not_mem (h.getLast?_ne rfl) s
  · exact lines_append_return h.not_mem s

/-- A text with a line feed is its first line, the line break behind it and the other lines. -/
theorem exists_lines_eq_cons {s : List Char} (h : '\n' ∈ s) :
    ∃ l lineBreak t, EndsLine lineBreak l ∧ s = l ++ (lineBreak ++ t) ∧ lines s = l :: lines t := by
  obtain ⟨l, t, rfl, hl⟩ := List.eq_append_cons_of_mem h
  by_cases hreturn : l.getLast? = some '\r'
  · obtain ⟨l, rfl⟩ := List.getLast?_eq_some_iff.mp hreturn
    have hends : EndsLine ['\r', '\n'] l :=
      ⟨.inr rfl, fun hmem => hl (List.mem_append_left _ hmem), by simp⟩
    refine ⟨l, ['\r', '\n'], t, hends, by simp, ?_⟩
    rw [List.append_assoc]
    exact hends.lines_append t
  · have hends : EndsLine ['\n'] l := ⟨.inl rfl, hl, fun _ => hreturn⟩
    exact ⟨l, ['\n'], t, hends, rfl, hends.lines_append t⟩

/-- A text that is not empty begins with its first line, behind which no space stands. -/
theorem exists_firstLine {s : List Char} (hne : s ≠ []) :
    ∃ l ls t, lines s = l :: ls ∧ s = l ++ t ∧ Stops isSpace t := by
  by_cases h : '\n' ∈ s
  · obtain ⟨l, lineBreak, t, hends, rfl, hlines⟩ := exists_lines_eq_cons h
    refine ⟨l, lines t, lineBreak ++ t, hlines, rfl, ?_⟩
    obtain rfl | rfl := hends.isLineBreak <;> exact stops_cons.mpr (by decide)
  · exact ⟨s, [], [], lines_of_not_mem h hne, (List.append_nil s).symm, stops_nil⟩

/-- A line that is in line has no line feed and does not end with a carriage return. -/
theorem InLine.not_mem {l : List Char} (h : InLine l) : '\n' ∉ l ∧ l.getLast? ≠ some '\r' := by
  constructor
  · intro hmem
    exact absurd (h _ hmem) (by decide)
  · intro hlast
    exact absurd (h _ (List.mem_of_getLast? hlast)) (by decide)

/-- A text that is made up of lines, each with the line break that ends it. -/
inductive Lined : List (List Char) → List Char → Prop where
  | nil : Lined [] []
  | cons {l lineBreak s : List Char} {ls : List (List Char)} (hl : EndsLine lineBreak l)
      (hs : Lined ls s) : Lined (l :: ls) (l ++ (lineBreak ++ s))

/-- A line that is in line, with a line break. -/
theorem lined_singleton {x lineBreak : List Char} (hx : InLine x) (hbreak : IsLineBreak lineBreak) :
    Lined [x] (x ++ lineBreak) := by
  have h := Lined.cons ⟨hbreak, hx.not_mem.1, fun _ => hx.not_mem.2⟩ .nil
  rwa [List.append_nil] at h

/-- Lines that stand one behind another. -/
theorem Lined.append {ls ls' : List (List Char)} {s t : List Char} (hs : Lined ls s)
    (ht : Lined ls' t) : Lined (ls ++ ls') (s ++ t) := by
  induction hs with
  | nil => exact ht
  | cons hl _ ih =>
    rw [List.append_assoc, List.append_assoc]
    exact .cons hl ih

/-- Lines that are in line, each with a line feed behind it. -/
theorem lined_flatMap {ls : List (List Char)} (h : ∀ l ∈ ls, InLine l) :
    Lined ls (ls.flatMap (· ++ ['\n'])) := by
  induction ls with
  | nil => exact .nil
  | cons l ls ih =>
    exact (lined_singleton (h l List.mem_cons_self) (.inl rfl)).append
      (ih fun l' hl' => h l' (List.mem_cons_of_mem l hl'))

/-- No line feed stands in the lines of which a text is made up. -/
theorem Lined.not_mem {ls : List (List Char)} {s : List Char} (h : Lined ls s) :
    ∀ l ∈ ls, '\n' ∉ l := by
  induction h with
  | nil => nofun
  | cons hl _ ih => exact List.forall_mem_cons.mpr ⟨hl.not_mem, ih⟩

/-- The lines of which a text is made up are its lines. -/
theorem Lined.lines_eq {ls : List (List Char)} {s : List Char} (h : Lined ls s) : lines s = ls := by
  induction h with
  | nil => rfl
  | cons hl _ ih => rw [hl.lines_append, ih]

/-- A text that ends with a line feed is made up of its lines. -/
theorem lined_lines {s : List Char} (h : s.getLast? = some '\n') : Lined (lines s) s := by
  -- On the length of the text, as what stands behind the first line is shorter.
  induction hn : s.length using Nat.strong_induction_on generalizing s with
  | _ n ih =>
    obtain ⟨l, lineBreak, t, hends, rfl, hlines⟩ := exists_lines_eq_cons (List.mem_of_getLast? h)
    rw [hlines]
    refine .cons hends ?_
    cases t with
    | nil => exact .nil
    | cons c t =>
      have hlast : (c :: t).getLast? = some '\n' := by
        rw [← List.append_assoc, List.getLast?_append_of_ne_nil _ (List.cons_ne_nil c t)] at h
        exact h
      refine ih _ ?_ hlast rfl
      have hne : 0 < lineBreak.length := by obtain rfl | rfl := hends.isLineBreak <;> simp
      simp only [List.length_append] at hn
      omega

/-- A line is in line if neither a line feed nor a carriage return stands in it. -/
theorem inLine_of_not_mem {l : List Char} (hfeed : '\n' ∉ l) (hreturn : '\r' ∉ l) : InLine l := by
  intro c hc
  have h₁ : c ≠ '\n' := fun h => hfeed (h ▸ hc)
  have h₂ : c ≠ '\r' := fun h => hreturn (h ▸ hc)
  simp [Reader.isInLine, h₁, h₂]

/-- Joined lines as characters. -/
theorem toList_joinLines (ls : List (List Char)) :
    (joinLines (ls.map String.ofList)).toList = ['\n'].intercalate ls := by
  simp [joinLines, String.toList_intercalate, Function.comp_def]

/-- Joined lines are taken apart again. -/
theorem lines_intercalate {ls : List (List Char)} (h : ∀ l ∈ ls, InLine l)
    (hlast : ls.getLast? ≠ some []) : lines (['\n'].intercalate ls) = ls := by
  induction ls with
  | nil => rfl
  | cons l ls ih =>
    obtain ⟨hmem, hreturn⟩ := (h l List.mem_cons_self).not_mem
    cases ls with
    | nil =>
      have hne : l ≠ [] := by simpa using hlast
      simpa [List.intercalate] using lines_of_not_mem hmem hne
    | cons l' ls =>
      rw [List.intercalate_cons_cons, List.append_assoc, List.singleton_append,
        lines_append hmem hreturn,
        ih (fun x hx => h x (List.mem_cons_of_mem l hx)) (by simpa using hlast)]

end GatedCalls.Text
