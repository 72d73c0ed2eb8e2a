import GatedCalls.Proofs.Text.Reading
import GatedCalls.Smali.ClassPrinter
import GatedCalls.Smali.ModifierReader

/-!
# Modifiers are read as they are printed

Modifiers stand in front of a name, and nothing but their words tells where they end. So they are
read back in front of every text that does not itself begin with a modifier and a space.
-/

namespace GatedCalls

open Text

/-- Whether a text begins with a word and a space. -/
def BeginsWithWord (word s : List Char) : Prop :=
  ∃ c, isSpace c = true ∧ word ++ [c] <+: s

/-- A text that goes on with a character of another kind does not complete a word and a space. -/
theorem beginsWithWord_append {word s t : List Char} {c : Char} (hspace : isSpace c = false)
    (hc : c ∉ word) : BeginsWithWord word (s ++ c :: t) ↔ BeginsWithWord word s := by
  constructor
  · rintro ⟨x, hx, hpre⟩
    refine ⟨x, hx, ?_⟩
    obtain hin | ⟨w, hw⟩ := List.prefix_or_prefix_of_prefix hpre (List.prefix_append s (c :: t))
    · exact hin
    · -- Otherwise `c` would belong to the word or be the space behind it.
      rw [← hw, List.prefix_append_right_inj] at hpre
      cases w with
      | nil => exact (hw.symm.trans (List.append_nil s)) ▸ List.prefix_rfl
      | cons y w =>
        obtain ⟨rfl, -⟩ := List.cons_prefix_cons.mp hpre
        have hy : y ∈ word ++ [x] := by
          rw [← hw]
          simp
        obtain hy | hy := List.mem_append.mp hy
        · exact absurd hy hc
        · rw [List.mem_singleton.mp hy, hx] at hspace
          cases hspace
  · rintro ⟨x, hx, hpre⟩
    exact ⟨x, hx, hpre.trans (List.prefix_append s (c :: t))⟩

/-- A text without spaces does not begin with a word and a space. -/
theorem not_beginsWithWord {word s : List Char} (h : ∀ c ∈ s, isSpace c = false) :
    ¬BeginsWithWord word s := by
  rintro ⟨c, hc, hpre⟩
  have hmem : c ∈ s := hpre.subset (by simp)
  rw [h c hmem] at hc
  cases hc

/-- Whether a text begins with the word for a modifier and a space. -/
def BeginsWithModifier (s : List Char) : Prop :=
  ∃ m : Modifier, BeginsWithWord m.word.toList s

/-- A text that goes on with a character of no modifier does not complete one. -/
theorem beginsWithModifier_append {s t : List Char} {c : Char} (hspace : isSpace c = false)
    (hc : ∀ m : Modifier, c ∉ m.word.toList) :
    BeginsWithModifier (s ++ c :: t) ↔ BeginsWithModifier s :=
  exists_congr fun m => beginsWithWord_append hspace (hc m)

namespace Modifier

/-- Modifiers as characters. -/
theorem toList_printList (ms : List Modifier) :
    (printList ms).toList = ms.flatMap fun m => m.word.toList ++ [' '] := by
  simp [printList, String.toList_join, List.flatMap_map]

/-- The word for a modifier is a run of letters and dashes. -/
theorem word_spec (m : Modifier) :
    m.word.toList ≠ [] ∧ ∀ c ∈ m.word.toList, (isAlphanumeric c || c == '-') = true := by
  cases m <;> exact ⟨by decide, List.all_eq_true.mp (by decide)⟩

/-- What stands behind a name does not belong to a modifier. -/
theorem not_mem_word (m : Modifier) : ':' ∉ m.word.toList ∧ '(' ∉ m.word.toList := by
  cases m <;> decide

/-- A modifier is read off its word and the space behind it. -/
theorem reader_append (m : Modifier) {s : List Char} (hs : Stops isSpace s) :
    reader (m.word.toList ++ [' '] ++ s) = .ok (m, s) := by
  obtain ⟨hne, hchars⟩ := m.word_spec
  have hstop : Stops isSpace (m.word.toList ++ ' ' :: s) := by
    have hword : Stops isSpace m.word.toList := by cases m <;> exact stops_cons.mpr (by decide)
    exact hword.append hne _
  rw [List.append_assoc]
  refine Reader.bind_ok (Reader.spaces_of_stops hstop) ?_
  refine Reader.bind_ok (Reader.run1_append hne hchars (stops_cons.mpr (by decide))) ?_
  refine Reader.bind_ok (Reader.spaces1_cons (by decide) hs) ?_
  rw [String.ofList_toList, ofWord?_word]
  rfl

/-- Where a modifier is read, its word and a space stand. -/
theorem beginsWithModifier_of_reader {s t : List Char} {m : Modifier} (hs : Stops isSpace s)
    (h : reader s = .ok (m, t)) : BeginsWithModifier s := by
  obtain ⟨_, s₁, hspaces, h₁⟩ := Reader.bind_eq_ok.mp h
  obtain ⟨word, s₂, hword, h₂⟩ := Reader.bind_eq_ok.mp h₁
  obtain ⟨_, s₃, hspace, h₃⟩ := Reader.bind_eq_ok.mp h₂
  rw [Reader.spaces_of_stops hs] at hspaces
  obtain ⟨-, rfl⟩ := Prod.mk.inj (Except.ok.inj hspaces)
  obtain ⟨-, rfl, -, -⟩ := Reader.run1_eq_ok' hword
  obtain ⟨cs, hne, rfl, hcs, -⟩ := Reader.spaces1_eq_ok hspace
  obtain ⟨c, cs, rfl⟩ := List.exists_cons_of_ne_nil hne
  cases hm : ofWord? (String.ofList word) with
  | none =>
    rw [hm] at h₃
    cases h₃
  | some m' =>
    have hfound : m'.word = String.ofList word := by simpa using List.find?_some hm
    refine ⟨m', c, hcs c List.mem_cons_self, cs ++ s₃, ?_⟩
    simp [hfound]

/-- Where the word for a modifier and a space stand, a modifier is read. -/
theorem not_fails_of_beginsWithModifier {s : List Char} (h : BeginsWithModifier s) :
    ¬reader.Fails s := by
  obtain ⟨m, c, hc, t, rfl⟩ := h
  obtain ⟨hne, hchars⟩ := m.word_spec
  have hspace : (isAlphanumeric c || c == '-') = false := by
    simp only [isSpace, Bool.or_eq_true, beq_iff_eq] at hc
    obtain rfl | rfl := hc <;> decide
  have hstop : Stops isSpace (m.word.toList ++ c :: t) := by
    have hword : Stops isSpace m.word.toList := by cases m <;> exact stops_cons.mpr (by decide)
    exact hword.append hne _
  rw [List.append_assoc]
  refine Reader.not_fails_of_ok (a := m) (t := t.dropWhile isSpace) ?_
  refine Reader.bind_ok (Reader.spaces_of_stops hstop) ?_
  refine Reader.bind_ok (Reader.run1_append hne hchars (stops_cons.mpr hspace)) ?_
  refine Reader.bind_ok (Reader.spaces1_apply hc t) ?_
  rw [String.ofList_toList, ofWord?_word]
  rfl

/-- Modifiers in front of a text that does not begin with a space do not begin with one either. -/
theorem stops_printList (ms : List Modifier) {s : List Char} (hs : Stops isSpace s) :
    Stops isSpace ((printList ms).toList ++ s) := by
  rw [toList_printList]
  cases ms with
  | nil => exact hs
  | cons m ms => cases m <;> exact stops_cons.mpr (by decide)

/-- Modifiers are read off their words, up to a text that does not begin with a further one. -/
theorem listReader_append (ms : List Modifier) {s : List Char} (hs : Stops isSpace s)
    (hstop : ¬BeginsWithModifier s) : listReader ((printList ms).toList ++ s) = .ok (ms, s) := by
  have hfails : reader.Fails s :=
    Reader.fails_of_ne_ok fun m t hread => hstop (beginsWithModifier_of_reader hs hread)
  have hfollow (m : Modifier) (t : List Char) : Stops isSpace (m.word.toList ++ [' '] ++ t) := by
    cases m <;> exact stops_cons.mpr (by decide)
  have hmany : Reader.many reader progresses_reader ((printList ms).toList ++ s) = .ok (ms, s) := by
    rw [toList_printList]
    exact congrArg Except.ok (Reader.takeMany_flatMap _ (Stops isSpace)
      (fun m _ t ht => m.reader_append ht) (fun m _ t => hfollow m t) hs hfails)
  exact Reader.bind_ok hmany (Reader.bind_ok (Reader.spaces_of_stops hs) rfl)

/-- Modifiers are only read back off their words where no further one stands behind them. -/
theorem listReader_eq_ok {ms : List Modifier} {s t : List Char} (hs : Stops isSpace s)
    (h : listReader ((printList ms).toList ++ s) = .ok (ms, t)) : ¬BeginsWithModifier s ∧ t = s := by
  obtain ⟨ms', s₁, hmany, h⟩ := Reader.bind_eq_ok.mp h
  obtain ⟨_, s₂, hspaces, h⟩ := Reader.bind_eq_ok.mp h
  obtain ⟨rfl, rfl⟩ := Reader.pure_eq_ok.mp h
  have hfollow (m : Modifier) (t : List Char) : Stops isSpace (m.word.toList ++ [' '] ++ t) := by
    cases m <;> exact stops_cons.mpr (by decide)
  have hprint : Reader.takeMany reader progresses_reader
      (ms'.flatMap (fun m => m.word.toList ++ [' ']) ++ s) =
        (ms' ++ (Reader.takeMany reader progresses_reader s).1,
          (Reader.takeMany reader progresses_reader s).2) :=
    Reader.takeMany_append _ (Stops isSpace) (fun m _ t ht => m.reader_append ht)
      (fun m _ t => hfollow m t) hs
  rw [toList_printList] at hmany
  have htake := hprint.symm.trans (Except.ok.inj hmany)
  obtain ⟨hnil, hrest⟩ := Prod.mk.inj htake
  have hfails := Reader.takeMany_eq_nil (Prod.ext (List.append_right_eq_self.mp hnil) hrest)
  obtain ⟨hfails, rfl⟩ := hfails
  rw [Reader.spaces_of_stops hs] at hspaces
  obtain ⟨-, rfl⟩ := Prod.mk.inj (Except.ok.inj hspaces)
  exact ⟨fun hbegins => not_fails_of_beginsWithModifier hbegins hfails, rfl⟩

end Modifier

end GatedCalls
