import GatedCalls.Proofs.Smali.BodyLine

/-!
# What is left unread on the lines of labels and calls

A label is read up to the last character of its name and a call up to the type that its callee
returns. What stands behind that on the line is left unread, and the line is taken as if it were not
there: it need be neither blank nor a comment.
-/

namespace GatedCalls

open Text

/-- A line does not begin with a word that its trimmed text does not begin with. -/
theorem startsWith_eq_false_of_line {word : String} {s u x : List Char} (hne : word.toList ≠ [])
    (hin : InLine word.toList) (htrimmed : IsTrimmed word.toList)
    (hline : Reader.line s = .ok (x, u)) (hx : startsWith word (trim x) = false) :
    startsWith word s = false := by
  cases hs : startsWith word s with
  | false => rfl
  | true =>
    rw [startsWith_trim_line hne hin htrimmed hs hline] at hx
    cases hx

namespace Entry

/-- What is read of a line by itself is read off the line where it stands. -/
theorem IsFreeLine.reader_eq_ok {s x u : List Char} {e : Entry} (h : IsFreeLine (trim x) e)
    (hline : Reader.line s = .ok (x, u)) : reader s = .ok (e, u) := by
  have htrim : trim (trim x) = trim x := isTrimmed_trim x
  have hcomment : startsWith "#" s = false :=
    startsWith_eq_false_of_line (by decide) (by decide) (by decide) hline h.not_comment
  have hannotated : startsWith ".annotation" s = false :=
    startsWith_eq_false_of_line (by decide) (by decide) (by decide) hline h.not_annotated
  have hdata := h.not_data
  have hparam := h.isClosedParam_eq u
  have hofLine := h.ofLine?_eq
  rw [htrim] at hdata hparam hofLine
  rw [reader, hcomment, hannotated, if_neg (by decide), if_neg (by decide), lineReader, hline]
  simp only [hdata, hparam, hofLine, Bool.false_eq_true, if_false]

/-- An item that is no directive is read of a single line. -/
theorem ofLine?_of_reader {s u : List Char} {i : BodyItem} (hi : ∀ t, i ≠ .directive t)
    (h : reader s = .ok (item i, u)) :
    ∃ x, Reader.line s = .ok (x, u) ∧ ofLine? (trim x) = some (item i) := by
  have hdirective {closing : String} : directiveReader closing s ≠ .ok (item i, u) := by
    intro h
    obtain ⟨t, v, -, h⟩ := Reader.bind_eq_ok.mp h
    exact hi t (item.inj (Reader.pure_eq_ok.mp h).1).symm
  unfold reader at h
  split at h
  · obtain ⟨_, _, -, h⟩ := Reader.bind_eq_ok.mp h
    obtain ⟨_, _, -, h⟩ := Reader.bind_eq_ok.mp h
    cases (Reader.pure_eq_ok.mp h).1
  · split at h
    · obtain ⟨_, _, -, h⟩ := Reader.bind_eq_ok.mp h
      cases (Reader.pure_eq_ok.mp h).1
    · unfold lineReader at h
      split at h
      · cases h
      · next x rest hline =>
        split at h
        · exact absurd h hdirective
        · split at h
          · exact absurd h hdirective
          · split at h
            · next e hofLine =>
              obtain ⟨rfl, rfl⟩ := Prod.mk.inj (Except.ok.inj h)
              exact ⟨x, hline, hofLine⟩
            · cases h

/-- A line that is read as a label begins with one. -/
theorem exists_of_ofLine?_label {x : List Char} {name : String}
    (h : ofLine? x = some (item (.label name))) :
    ∃ tail, x = ':' :: (name.toList ++ tail) ∧ name.toList ≠ [] ∧
      (∀ c ∈ name.toList, Label.isNameChar c = true) ∧ Stops Label.isNameChar tail := by
  unfold ofLine? at h
  split at h
  · obtain ⟨n, -, h⟩ := Option.map_eq_some_iff.mp h
    cases h
  · split at h
    · obtain ⟨n, -, h⟩ := Option.map_eq_some_iff.mp h
      cases h
    · split at h
      · split at h
        · next name' _ hlabel =>
          obtain rfl : name' = name := by simpa using h
          obtain ⟨_, s, hcolon, hlabel⟩ := Reader.bind_eq_ok.mp hlabel
          obtain ⟨text, u, hrun, hlabel⟩ := Reader.bind_eq_ok.mp hlabel
          obtain ⟨rfl, -⟩ := Reader.pure_eq_ok.mp hlabel
          obtain ⟨hne, rfl, hchars, hstop⟩ := Reader.run1_eq_ok' hrun
          rw [String.toList_ofList]
          exact ⟨u, Reader.literal_eq_ok hcolon, hne, hchars, hstop⟩
        · cases h
      · split at h
        · cases h
        · split at h <;> cases h

/-- A line that is read as a call begins with a spelling of it. -/
theorem exists_of_ofLine?_call {x : List Char} {c : Call} (hx : IsTrimmed x)
    (h : ofLine? x = some (item (.instruction (.call c)))) :
    ∃ y tail, x = y ++ tail ∧ c.IsSpelled y := by
  unfold ofLine? at h
  split at h
  · obtain ⟨n, -, h⟩ := Option.map_eq_some_iff.mp h
    cases h
  · split at h
    · obtain ⟨n, -, h⟩ := Option.map_eq_some_iff.mp h
      cases h
    · split at h
      · split at h <;> cases h
      · split at h
        · cases h
        · split at h
          · next i _ hread =>
            obtain rfl : i = .call c := by simpa using h
            rw [Instruction.readLine, hx] at hread
            obtain ⟨y, tail, rfl, hy, -⟩ := Instruction.reader_eq_ok_call.mp hread
            exact ⟨y, tail, rfl, hy⟩
          · cases h

/-- A label is read exactly off the lines that begin with it. -/
theorem reader_eq_ok_label {s u : List Char} {name : String} :
    reader s = .ok (item (.label name), u) ↔
      ∃ x tail, Reader.line s = .ok (x, u) ∧ trim x = ':' :: (name.toList ++ tail) ∧
        name.toList ≠ [] ∧ (∀ c ∈ name.toList, Label.isNameChar c = true) ∧
          Stops Label.isNameChar tail := by
  constructor
  · intro h
    obtain ⟨x, hline, hofLine⟩ := ofLine?_of_reader (by simp) h
    obtain ⟨tail, hx⟩ := exists_of_ofLine?_label hofLine
    exact ⟨x, tail, hline, hx⟩
  · rintro ⟨x, tail, hline, hx, hne, hchars, htail⟩
    have hfree := isFreeLine_label hne hchars htail
    rw [← hx, String.ofList_toList] at hfree
    exact hfree.reader_eq_ok hline

/-- A call is read exactly off the lines that begin with a spelling of it. -/
theorem reader_eq_ok_call {s u : List Char} {c : Call} :
    reader s = .ok (item (.instruction (.call c)), u) ↔
      ∃ x y tail, Reader.line s = .ok (x, u) ∧ trim x = y ++ tail ∧ c.IsSpelled y := by
  constructor
  · intro h
    obtain ⟨x, hline, hofLine⟩ := ofLine?_of_reader (by simp) h
    obtain ⟨y, tail, hx⟩ := exists_of_ofLine?_call (isTrimmed_trim x) hofLine
    exact ⟨x, y, tail, hline, hx⟩
  · rintro ⟨x, y, tail, hline, hx, hy⟩
    have hfree := isFreeLine_call hy tail
    rw [← hx] at hfree
    exact hfree.reader_eq_ok hline

end Entry

/-! ### Documents -/

namespace ClassDef

variable {c : ClassDef} {m : Method}

/-- What stands behind a label or a call on its line is lost. Entries are read as labels and calls
exactly off the lines that begin with them, and a document is read with any such text on the lines
of a method, as it is read without. -/
theorem read_tails_lost (hc : c.WellFormed) (hm : m.WellFormed) {ls : List (BodyLine × List Char)}
    (hls : ∀ l ∈ ls, InLine l.2 ∧ BodyLine.LeavesUnread l.1.item l.2) :
    (∀ s u name, Entry.reader s = .ok (.item (.label name), u) ↔
      ∃ x tail, Reader.line s = .ok (x, u) ∧ trim x = ':' :: (name.toList ++ tail) ∧
        name.toList ≠ [] ∧ (∀ d ∈ name.toList, Label.isNameChar d = true) ∧
          Stops Label.isNameChar tail) ∧
    (∀ s u call, Entry.reader s = .ok (.item (.instruction (.call call)), u) ↔
      ∃ x y tail, Reader.line s = .ok (x, u) ∧ trim x = y ++ tail ∧ call.IsSpelled y) ∧
    ∃ d, read (c.textWith m (ls.flatMap fun l => l.1.textWith l.2)) = .ok d ∧
      read (c.textWith m (ls.flatMap fun l => l.1.text)) = .ok d ∧
      d.methods = c.methods ++
        [{ m with body := m.body ++ (ls.map Prod.fst).filterMap BodyLine.item }] := by
  refine ⟨fun s u name => Entry.reader_eq_ok_label, fun s u call => Entry.reader_eq_ok_call,
    _, read_linesWith hc hm hls, ?_, rfl⟩
  have hplain : ∀ l ∈ ls.map fun l => (l.1, ([] : List Char)),
      InLine l.2 ∧ BodyLine.LeavesUnread l.1.item l.2 := by
    intro l hl
    obtain ⟨l, -, rfl⟩ := List.mem_map.mp hl
    exact ⟨inLine_nil, BodyLine.leavesUnread_nil l.1.item⟩
  have hread := read_linesWith hc hm hplain
  rw [List.flatMap_map, List.map_map] at hread
  exact hread

/-- A line with a label. -/
def labelLine : BodyLine :=
  ⟨.plain, ":a".toList, some (.label "a"), by decide,
    .label (by decide) (List.all_eq_true.mp (by decide))⟩

/-- A label and a call with an instruction behind each of them on its line. -/
def tailedLines : List (BodyLine × List Char) :=
  [(labelLine, " return-void".toList), (callLine .plain, "nop".toList)]

/-- What stands behind the label and the call is lost. -/
theorem read_tails_lost_sample :
    specimen.WellFormed ∧ plainMethod.WellFormed ∧
      (∀ l ∈ tailedLines, InLine l.2 ∧ BodyLine.LeavesUnread l.1.item l.2) ∧
      ∃ d, read (specimen.textWith plainMethod (tailedLines.flatMap fun l => l.1.textWith l.2)) = .ok d ∧
        read (specimen.textWith plainMethod (tailedLines.flatMap fun l => l.1.text)) = .ok d ∧
        d.methods = specimen.methods ++
          [{ plainMethod with body := [.label "a", .instruction (.call rangeCall)] }] := by
  have htails : ∀ l ∈ tailedLines, InLine l.2 ∧ BodyLine.LeavesUnread l.1.item l.2 := by
    simp only [tailedLines, List.mem_cons, List.not_mem_nil, or_false, forall_eq_or_imp, forall_eq]
    exact ⟨⟨by decide, stops_cons.mpr (by decide)⟩, by decide, trivial⟩
  exact ⟨specimen_wellFormed, plainMethod_wellFormed, htails,
    (read_tails_lost specimen_wellFormed plainMethod_wellFormed htails).2.2⟩

/-- Whether a text at the end of a line has nothing to say: it is blank, or a comment behind
blanks. -/
def IsSilent (tail : List Char) : Prop :=
  trimStart tail = [] ∨ startsWith "#" (trimStart tail) = true

/-- The lines of a method with an instruction behind a label. -/
def lostLines : List (BodyLine × List Char) :=
  [(labelLine, " return-void".toList), (returnLine .plain, [])]

/-- A document with this method. -/
def lostSource : String :=
  ".class public La;\n.method public run()V\n    .locals 2\n    :a return-void\n" ++
    "    return-void\n.end method\n\n"

/-- The document is read, and the instruction behind the label is in the body of no method: the
method has the label and the instruction on the line below. -/
theorem read_lostSource :
    read lostSource = .ok { bareClass with methods := [{ plainMethod with
      body := [.label "a", .instruction (.other "return-void")] }] } ∧
    "    :a return-void".toList ∈ lines lostSource.toList ∧
    Label.reader (trim "    :a return-void".toList) = .ok ("a", " return-void".toList) ∧
    ¬IsSilent " return-void".toList := by
  have htails : ∀ l ∈ lostLines, InLine l.2 ∧ BodyLine.LeavesUnread l.1.item l.2 := by
    simp only [lostLines, List.mem_cons, List.not_mem_nil, or_false, forall_eq_or_imp, forall_eq]
    exact ⟨⟨by decide, stops_cons.mpr (by decide)⟩, by decide, rfl⟩
  have htext : lostSource =
      bareClass.textWith plainMethod (lostLines.flatMap fun l => l.1.textWith l.2) := by
    decide +kernel
  refine ⟨?_, by decide +kernel, by decide +kernel, by unfold IsSilent; decide⟩
  rw [htext, read_linesWith bareClass_wellFormed plainMethod_wellFormed htails]
  rfl

end ClassDef

end GatedCalls
