import GatedCalls.Proofs.Text.Line
import GatedCalls.Proofs.Text.Rounds
import GatedCalls.Smali.ClassReader

/-!
# Where the text of a class cannot be read

Reading the text of a class goes round for each statement, and fails with the first one that cannot
be read (`Statement.exists_fails`). All readers move forward, so what is left where the failure was
found is a suffix of the text from this statement on, and of the whole text. That is why its
position can be had from its size alone, and why the line that is reported is one of the text, not
ahead of the line on which the statement begins (`ClassDef.read_error_position`).
-/

namespace GatedCalls

open Relation (ReflTransGen)
open Text

namespace Statement

variable {s c e : List Char}

/-- Whether a statement of a text cannot be read: `c` is the text from this statement on, behind
statements that are read, and `e` is what is left of it where the failure was found. -/
structure Fails (s c e : List Char) : Prop where
  /-- All statements in front of it are read. -/
  reached : ReflTransGen (Reader.GoesRound Reader.endOfText spacedReader) (s.dropWhile isLayout) c
  /-- The text does not end in front of it. -/
  ne_nil : c ≠ []
  /-- The statement is not read. -/
  fails : reader c = .error e

/-- Behind a statement layout never fails. -/
theorem reader_eq_error (h : spacedReader s = .error e) : reader s = .error e := by
  rw [spacedReader, Reader.bind_apply] at h
  cases hs : reader s with
  | error e' => rw [hs] at h; exact h
  | ok x => rw [hs] at h; cases h

/-- A text that cannot be read as statements has one that cannot be read. -/
theorem exists_fails (h : readAll s = .error e) : ∃ c, Fails s c e := by
  have hloop : Reader.manyTill Reader.endOfText spacedReader progresses_spacedReader
      (s.dropWhile isLayout) (s.dropWhile isLayout) = .error e := by
    simp only [readAll] at h
    split at h
    · cases h
    · next hm => exact hm.trans (congrArg Except.error (Except.error.inj h))
  obtain ⟨c, hrounds, ⟨e', hstop⟩, ⟨rfl, -⟩ | ⟨hne, hfails⟩⟩ := Reader.cases_of_manyTill_error hloop
  · -- At the end of the text there is nothing left to read.
    cases hstop
  · exact ⟨c, hrounds, hne, reader_eq_error hfails⟩

/-- The text from a statement on is a suffix. -/
theorem Fails.construct_isSuffix (h : Fails s c e) : c <:+ s :=
  (Reader.isSuffix_of_rounds
    (fun h => h.isWithin forward_spacedReader progresses_spacedReader) h.reached).trans
    (List.dropWhile_suffix isLayout)

/-- A failure is found in the text from the statement on. -/
theorem Fails.isSuffix (h : Fails s c e) : e <:+ c :=
  forward_reader.error h.fails

end Statement

namespace ClassDef

/-- The line on which the rest of a text begins is told by the line feeds ahead of it. -/
theorem lineNumber_append (a b : List Char) : lineNumber (a ++ b) b = a.count '\n' + 1 := by
  simp [lineNumber]

/-- Further behind in a text no earlier line begins. -/
theorem lineNumber_le {s b c : List Char} (hb : b <:+ c) (hc : c <:+ s) :
    lineNumber s c ≤ lineNumber s b := by
  obtain ⟨front, rfl⟩ := hc
  obtain ⟨middle, rfl⟩ := hb
  rw [lineNumber_append, ← List.append_assoc, lineNumber_append, List.count_append]
  omega

/-- The first line of a text ends at its first line feed, and trimming takes a carriage return ahead
of it away. -/
theorem firstLine_eq (s : List Char) :
    firstLine s = String.ofList (trim (s.takeWhile (· != '\n'))) := by
  by_cases h : '\n' ∈ s
  · obtain ⟨l, lineBreak, t, hends, rfl, hlines⟩ := exists_lines_eq_cons h
    have hl : ∀ c ∈ l, (c != '\n') = true := fun c hc =>
      bne_iff_ne.mpr fun heq => hends.not_mem (heq ▸ hc)
    rw [firstLine, hlines, List.headD_cons, List.takeWhile_append_of_pos hl]
    obtain rfl | rfl := hends.isLineBreak
    · simp
    · have htake : (['\r', '\n'] ++ t).takeWhile (· != '\n') = ['\r'] := by simp
      have hreturn : ∀ c ∈ ['\r'], isBlank c = true := fun c hc =>
        isBlank_of_isLayout (by rw [List.mem_singleton.mp hc]; rfl)
      rw [htake, trim_append_of_isBlank hreturn]
  · have hs : s.takeWhile (· != '\n') = s :=
      List.takeWhile_eq_self_iff.mpr fun c hc => bne_iff_ne.mpr fun heq => h (heq ▸ hc)
    rw [firstLine, hs]
    by_cases hne : s = []
    · subst hne
      rfl
    · rw [lines_of_not_mem h hne, List.headD_cons]

/-- The position that is had from the size of a text and of what is left of it divides the text
there. -/
theorem exists_splits (a b : String) :
    ∃ p : (a ++ b).Pos, p.offset.byteIdx = (a ++ b).utf8ByteSize - b.utf8ByteSize ∧ p.Splits a b := by
  refine ⟨⟨a.rawEndPos, String.Pos.Raw.isValid_iff_exists_append.mpr ⟨a, b, rfl, rfl⟩⟩, ?_, rfl, rfl⟩
  rw [String.utf8ByteSize_append, Nat.add_sub_cancel]
  rfl

/-- Where a class cannot be read. If reading the text of a class fails, and not because the line
that names the class is missing, some statement of the text could not be read. What was left of the
text from this statement on is divided by the place where that was found. The failure tells the
number of the line on which this place stands, which is one of the text and not ahead of the first
line of the statement, and the rest of this line, trimmed. The size of what is left there is no
larger than that of the text, and the difference of the two is a position between characters of the
text, which divides it at this place. -/
theorem read_error_position {text : String} {f : Failure} (h : read text = .error f)
    (hclass : f ≠ Cause.noClassLine.failure) :
    ∃ (c : List Char) (a b : String) (n : Nat) (t : String),
      Statement.Fails text.toList c b.toList ∧ text = a ++ b ∧ b.toList <:+ c ∧ c <:+ text.toList ∧
      n = a.toList.count '\n' + 1 ∧ t = String.ofList (trim (b.toList.takeWhile (· != '\n'))) ∧
      f = (Cause.line n t).failure ∧
      f.text = "Unable to parse line " ++ toString n ++ " `" ++ t ++ "`" ∧
      1 ≤ n ∧ n ≤ 1 + text.toList.count '\n' ∧ lineNumber text.toList c ≤ n ∧
      b.utf8ByteSize ≤ text.utf8ByteSize ∧
      ∃ p : text.Pos, p.offset.byteIdx = text.utf8ByteSize - b.utf8ByteSize ∧ p.Splits a b := by
  cases hread : Statement.readAll text.toList with
  | ok sts =>
    simp only [read, hread] at h
    split at h
    · cases h
    · exact absurd (Except.error.inj h).symm hclass
  | error e =>
    obtain ⟨c, hfails⟩ := Statement.exists_fails hread
    obtain ⟨a, ha⟩ := hfails.isSuffix.trans hfails.construct_isSuffix
    have htext : text = String.ofList a ++ String.ofList e := by
      rw [← String.ofList_append, ha, String.ofList_toList]
    have hnumber : lineNumber text.toList e = a.count '\n' + 1 := ha ▸ lineNumber_append a e
    have hf : f = (Cause.line (lineNumber text.toList e) (firstLine e)).failure := by
      simp only [read, hread] at h
      exact (Except.error.inj h).symm
    have hsize : (String.ofList e).utf8ByteSize ≤ text.utf8ByteSize := by
      rw [htext, String.utf8ByteSize_append]
      omega
    have hlast : lineNumber text.toList e ≤ 1 + text.toList.count '\n' := by
      rw [hnumber, ← ha, List.count_append]
      omega
    refine ⟨c, String.ofList a, String.ofList e, lineNumber text.toList e, firstLine e, ?_⟩
    simp only [String.toList_ofList]
    refine ⟨hfails, htext, hfails.isSuffix, hfails.construct_isSuffix, hnumber, firstLine_eq e, hf,
      hf ▸ rfl, hnumber ▸ Nat.le_add_left 1 _, hlast,
      lineNumber_le hfails.isSuffix hfails.construct_isSuffix, hsize, ?_⟩
    exact htext ▸ exists_splits (String.ofList a) (String.ofList e)

/-- Behind a comment a word that something has to follow stands alone. -/
def loneWord : String :=
  "# c\n.super\n"

/-- The word is read, and the failure is found behind it. -/
theorem read_loneWord : read loneWord = .error (Cause.line 2 "").failure := by
  have hlayout : loneWord.toList.dropWhile isLayout = loneWord.toList := rfl
  have hgoes : Reader.endOfText loneWord.toList = .error loneWord.toList := rfl
  have hcomment : Statement.spacedReader loneWord.toList = .ok (.comment, ".super\n".toList) := rfl
  have hgoes' : Reader.endOfText ".super\n".toList = .error ".super\n".toList := rfl
  have hword : Statement.spacedReader ".super\n".toList = .error ['\n'] := rfl
  have hread : Statement.readAll loneWord.toList = .error ['\n'] := by
    rw [Statement.readAll, hlayout, Reader.manyTill_of_ok hgoes hcomment,
      Reader.manyTill_of_error hgoes' (by decide) hword]
  rw [read]
  simp only [hread]
  rfl

/-- The place of this failure has one line feed ahead of it. -/
theorem read_error_position_loneWord :
    ∃ (c : List Char) (a b : String), Statement.Fails loneWord.toList c b.toList ∧
      loneWord = a ++ b ∧ b.toList <:+ c ∧ a.toList.count '\n' = 1 := by
  obtain ⟨c, a, b, n, t, hfails, htext, hwithin, -, hn, -, hf, -⟩ :=
    read_error_position read_loneWord (by decide)
  have hn' : 2 = n := by
    injection hf with hcause
    injection hcause
  exact ⟨c, a, b, hfails, htext, hwithin, by omega⟩

end ClassDef

end GatedCalls
