import GatedCalls.Proofs.Smali.Entry
import GatedCalls.Proofs.Smali.Exact.Annotation

/-!
# Entries that are read back are legible

The converse of `Entry.readInPlace_of_legible` for the items of a body. A directive is kept trimmed
of all blanks, but only layout is passed over where an entry begins, so a line that was a directive
behind another blank can be an annotation or the end of the method when it is read again.
-/

namespace GatedCalls

open Text

/-! ### Items that have been read -/

namespace Entry

/-- The first line of a block of data does not close it. -/
theorem startsWith_of_dataEnd? {x : List Char} {closing : String} (h : dataEnd? x = some closing) :
    x ≠ [] ∧ startsWith closing x = false := by
  unfold dataEnd? at h
  split at h
  · next hword =>
    obtain ⟨t, rfl⟩ := startsWith_iff.mp hword
    rw [← Option.some.inj h]
    exact ⟨by simp, rfl⟩
  · split at h
    · next hword =>
      obtain ⟨t, rfl⟩ := startsWith_iff.mp hword
      rw [← Option.some.inj h]
      exact ⟨by simp, rfl⟩
    · split at h
      · next hword =>
        obtain ⟨t, rfl⟩ := startsWith_iff.mp hword
        rw [← Option.some.inj h]
        exact ⟨by simp, rfl⟩
      · cases h

/-- A directive of several lines that has been read is a block that begins with the line on which
the reader stood. -/
theorem directiveReader_eq_ok {closing : String} {s t x rest : List Char} {e : Entry}
    (h : directiveReader closing s = .ok (e, t)) (hline : Reader.line s = .ok (x, rest))
    (hne : trim x ≠ []) (hopen : startsWith closing (trim x) = false) :
    ∃ ls last, IsBlock closing (trim x :: ls) last ∧
      e = item (.directive (blockText (trim x :: ls) last)) := by
  obtain ⟨text, u, hblock, h⟩ := Reader.bind_eq_ok.mp h
  obtain ⟨rfl, -⟩ := Reader.pure_eq_ok.mp h
  obtain ⟨ls, last, hlines, rfl, y, v, hline', hfirst⟩ := blockReader_eq_ok hblock
  obtain ⟨rfl, -⟩ := Reader.ok_unique hline hline'
  obtain ⟨ls, rfl⟩ := hfirst hne hopen
  exact ⟨ls, last, hlines, rfl⟩

/-- Whether lines are a directive of several lines: a block of data, or a parameter with
annotations. -/
def OpensBlock (closing : String) (first : List Char) : Prop :=
  dataEnd? first = some closing ∨ closing = ".end param" ∧ startsWith ".param" first = true

end Entry

/-- Whether an item of a body has the form that reading gives it. -/
def BodyItem.IsRead : BodyItem → Prop
  | label name => name.toList ≠ [] ∧ ∀ c ∈ name.toList, Label.isNameChar c = true
  | line _ => True
  | directive t =>
    (IsTrimmed t.toList ∧ InLine t.toList ∧ startsWith "." t.toList = true ∧
      startsWith ".locals" t.toList = false ∧ startsWith ".line" t.toList = false) ∨
    ∃ closing first ls last, IsBlock closing (first :: ls) last ∧ Entry.OpensBlock closing first ∧
      t = blockText (first :: ls) last
  | instruction i => i.IsReadable ∧ InLine i.text.toList

namespace Entry

/-- What is read off a trimmed line is a number of registers or an item. -/
theorem ofLine?_eq_some {x : List Char} {e : Entry} (hx : IsTrimmed x) (hin : InLine x)
    (h : ofLine? x = some e) : (∃ n, e = locals n) ∨ ∃ i, e = item i ∧ i.IsRead := by
  -- In the order in which a line is looked at: registers, line, label, directive, instruction.
  unfold ofLine? at h
  split at h
  · obtain ⟨n, -, rfl⟩ := Option.map_eq_some_iff.mp h
    exact .inl ⟨n, rfl⟩
  · next hlocals =>
    split at h
    · obtain ⟨n, -, rfl⟩ := Option.map_eq_some_iff.mp h
      exact .inr ⟨_, rfl, trivial⟩
    · next hnumber =>
      split at h
      · split at h
        · next name _ hlabel =>
          obtain rfl := Option.some.inj h
          obtain ⟨_, s, -, hlabel⟩ := Reader.bind_eq_ok.mp hlabel
          obtain ⟨text, u, hrun, hlabel⟩ := Reader.bind_eq_ok.mp hlabel
          obtain ⟨rfl, -⟩ := Reader.pure_eq_ok.mp hlabel
          obtain ⟨hne, -, hchars, -⟩ := Reader.run1_eq_ok' hrun
          refine .inr ⟨_, rfl, ?_⟩
          rw [BodyItem.IsRead, String.toList_ofList]
          exact ⟨hne, hchars⟩
        · cases h
      · split at h
        · next hdot =>
          obtain rfl := Option.some.inj h
          refine .inr ⟨_, rfl, .inl ?_⟩
          rw [String.toList_ofList]
          exact ⟨hx, hin, hdot, by simpa using hlocals, by simpa using hnumber⟩
        · split at h
          · next i _ hread =>
            obtain rfl := Option.some.inj h
            rw [Instruction.readLine, hx] at hread
            obtain ⟨hreadable, hline⟩ := Instruction.reader_eq_ok hx hread
            exact .inr ⟨_, rfl, hreadable, hline hin⟩
          · cases h

/-- What is read off lines is a number of registers or an item. -/
theorem lineReader_eq_ok {s t : List Char} {e : Entry} (h : lineReader s = .ok (e, t)) :
    (∃ n, e = locals n) ∨ ∃ i, e = item i ∧ i.IsRead := by
  unfold lineReader at h
  split at h
  · cases h
  · next x rest hline =>
    have hin := (Reader.inLine_of_restOfLine (Reader.restOfLine_of_line hline)).trim
    split at h
    · next closing hdata =>
      obtain ⟨hne, hopen⟩ := startsWith_of_dataEnd? hdata
      obtain ⟨ls, last, hblock, rfl⟩ := directiveReader_eq_ok h hline hne hopen
      exact .inr ⟨_, rfl, .inr ⟨closing, trim x, ls, last, hblock, .inl hdata, rfl⟩⟩
    · split at h
      · next hparam =>
        obtain ⟨hword, -⟩ := isClosedParam_spec hparam
        obtain ⟨y, hy⟩ := startsWith_iff.mp hword
        obtain ⟨ls, last, hblock, rfl⟩ :=
          directiveReader_eq_ok h hline (by simp [hy]) (by rw [hy]; rfl)
        exact .inr ⟨_, rfl, .inr ⟨".end param", trim x, ls, last, hblock, .inr ⟨rfl, hword⟩, rfl⟩⟩
      · split at h
        · next e' hofLine =>
          obtain ⟨rfl, -⟩ := Prod.mk.inj (Except.ok.inj h)
          exact ofLine?_eq_some (isTrimmed_trim x) hin hofLine
        · cases h

/-- An item that has been read has the form that reading gives it. -/
theorem isRead_of_reader {s t : List Char} {i : BodyItem} (h : reader s = .ok (item i, t)) :
    i.IsRead := by
  unfold reader at h
  split at h
  · obtain ⟨_, _, -, h⟩ := Reader.bind_eq_ok.mp h
    obtain ⟨_, _, -, h⟩ := Reader.bind_eq_ok.mp h
    cases (Reader.pure_eq_ok.mp h).1
  · split at h
    · obtain ⟨_, _, -, h⟩ := Reader.bind_eq_ok.mp h
      cases (Reader.pure_eq_ok.mp h).1
    · obtain ⟨n, hn⟩ | ⟨i', hi, hread⟩ := lineReader_eq_ok h
      · cases hn
      · cases hi
        exact hread

/-- An entry that is read where an annotation stands is an annotation. -/
theorem annotated_of_reader {s t : List Char} {e : Entry}
    (hstart : ∃ w, s = ".annotation".toList ++ w) (h : reader s = .ok (e, t)) :
    ∃ a, e = annotated a ∧ AnnotationBlock.reader false s = .ok (a, t) := by
  obtain ⟨w, rfl⟩ := hstart
  have hcomment : startsWith "#" (".annotation".toList ++ w) = false := rfl
  rw [reader, hcomment, if_neg (by decide), startsWith_append, if_pos rfl] at h
  obtain ⟨a, u, hread, h⟩ := Reader.bind_eq_ok.mp h
  obtain ⟨rfl, rfl⟩ := Reader.pure_eq_ok.mp h
  exact ⟨a, rfl, hread⟩

/-! ### What is read back is legible -/

/-- Whether what is read where an item stands is an annotation, or an item that can only be the same
one if the item is legible. -/
def ReadsItem (i : BodyItem) (behind : List Char) (e : Entry) : Prop :=
  (∃ a, e = annotated a) ∨ ∃ i', e = item i' ∧ (i' = i → (item i).Legible behind)

/-- A legible item is what is read where it stands. -/
theorem readsItem_of_legible {i : BodyItem} {e : Entry} {behind u : List Char}
    (hi : (item i).Legible behind)
    (h : reader (afterLayout ((item i).text ++ behind)) = .ok (e, u)) : ReadsItem i behind e := by
  obtain ⟨-, v, hread, -⟩ := readInPlace_of_legible hi
  obtain ⟨rfl, -⟩ := Reader.ok_unique h hread
  exact .inr ⟨i, rfl, fun _ => hi⟩

/-- Another line than the last one of a block is not the whole block. -/
theorem blockText_ne {x : List Char} (hx : InLine x) (y : List Char) (ls : List (List Char))
    (last : List Char) : (blockText (y :: ls) last).toList ≠ x := by
  rintro rfl
  have hmem : '\n' ∈ (blockText (y :: ls) last).toList := by
    rw [blockText, toList_joinLines]
    cases ls <;> simp [List.intercalate_cons_cons]
  exact hx.not_mem.1 hmem

/-- A block is not a directive of one line. -/
theorem readsItem_of_directiveReader {t closing : String} {e : Entry} {s behind rest u : List Char}
    (htrimmed : IsTrimmed t.toList) (hin : InLine t.toList) (hne : t.toList ≠ [])
    (hline : Reader.line s = .ok (t.toList, rest)) (hopen : startsWith closing t.toList = false)
    (h : directiveReader closing s = .ok (e, u)) : ReadsItem (.directive t) behind e := by
  have htrim : trim t.toList = t.toList := htrimmed
  obtain ⟨ls, last, -, rfl⟩ := directiveReader_eq_ok h hline (by rwa [htrim]) (by rwa [htrim])
  refine .inr ⟨_, rfl, fun heq => absurd ?_ (blockText_ne hin (trim t.toList) ls last)⟩
  exact congrArg String.toList (BodyItem.directive.inj heq)

/-- A directive of one line that is read back is legible. -/
theorem readsItem_directiveLine {t : String} {e : Entry} {behind u : List Char}
    (htrimmed : IsTrimmed t.toList) (hin : InLine t.toList) (hdot : startsWith "." t.toList = true)
    (hlocals : startsWith ".locals" t.toList = false) (hnumber : startsWith ".line" t.toList = false)
    (hopen : startsWith ".end method"
      (afterLayout ((item (.directive t)).text ++ behind)) = false)
    (h : reader (afterLayout ((item (.directive t)).text ++ behind)) = .ok (e, u)) :
    ReadsItem (.directive t) behind e := by
  obtain ⟨s, hs⟩ : ∃ s, t.toList = '.' :: s := exists_cons_of_startsWith rfl hdot
  have hne : t.toList ≠ [] := by simp [hs]
  have hplace : afterLayout ((item (.directive t)).text ++ behind) = t.toList ++ '\n' :: behind := by
    have htext : (item (.directive t)).text ++ behind =
        "    ".toList ++ (t.toList ++ '\n' :: behind) :=
      printDirective_line hin hne behind
    rw [htext, afterLayout_append (List.all_eq_true.mp (by decide))]
    exact afterLayout_of_stops (htrimmed.stops.isLayout.append hne _)
  have hcomment : startsWith "#" (t.toList ++ '\n' :: behind) = false := by
    rw [hs]
    exact startsWith_eq_false rfl (by decide)
  have hline := Reader.line_append hin behind
  -- The line can be an annotation, begin a block, or be a directive once more.
  rw [hplace] at hopen h
  rw [reader, hcomment, if_neg (by decide)] at h
  split at h
  · obtain ⟨a, v, -, h⟩ := Reader.bind_eq_ok.mp h
    exact .inl ⟨a, (Reader.pure_eq_ok.mp h).1.symm⟩
  · next hannotated =>
    rw [lineReader, hline] at h
    simp only [show trim t.toList = t.toList from htrimmed] at h
    split at h
    · next closing hdata =>
      exact readsItem_of_directiveReader htrimmed hin hne hline (startsWith_of_dataEnd? hdata).2 h
    · next hdata =>
      split at h
      · next hparam =>
        obtain ⟨y, hy⟩ := startsWith_iff.mp (isClosedParam_spec hparam).1
        exact readsItem_of_directiveReader htrimmed hin hne hline (by rw [hy]; rfl) h
      · next hparam =>
        have hlabel : startsWith ":" t.toList = false := hs ▸ startsWith_eq_false rfl (by decide)
        have hofLine : ofLine? t.toList = some (item (.directive t)) := by
          rw [ofLine?, hlocals, hnumber, hlabel, hdot, String.ofList_toList]
          rfl
        rw [hofLine] at h
        obtain ⟨rfl, -⟩ := Prod.mk.inj (Except.ok.inj h)
        refine .inr ⟨_, rfl, fun _ => .inl ⟨?_, by simpa using hparam⟩⟩
        exact ⟨htrimmed, hin, hdot, startsWith_eq_false_of_append (by simpa using hannotated), hlocals,
          hnumber, startsWith_eq_false_of_append hopen, hdata⟩

/-- A directive of several lines that is read back is legible: a parameter that is not closed off
where it stands is read as a directive of one line. -/
theorem readsItem_directiveBlock {closing : String} {first last : List Char} {ls : List (List Char)}
    {e : Entry} {behind u : List Char} (hblock : IsBlock closing (first :: ls) last)
    (hopens : OpensBlock closing first)
    (h : reader (afterLayout ((item (.directive (blockText (first :: ls) last))).text ++ behind)) =
      .ok (e, u)) :
    ReadsItem (.directive (blockText (first :: ls) last)) behind e := by
  have hlegible (hclosed : dataEnd? first = some closing ∨
      closing = ".end param" ∧ isClosedParam first (innerLines ls last behind) = true) :
      (item (.directive (blockText (first :: ls) last))).Legible behind :=
    .inr ⟨closing, first, ls, last, ⟨hblock, hclosed⟩, rfl⟩
  -- A block of data is known by its first line, a parameter only by the lines that close it off.
  obtain hdata | ⟨rfl, hword⟩ := hopens
  · exact readsItem_of_legible (hlegible (.inl hdata)) h
  · cases hparam : isClosedParam first (innerLines ls last behind) with
    | true => exact readsItem_of_legible (hlegible (.inr ⟨rfl, hparam⟩)) h
    | false =>
      obtain ⟨-, htrimmed, hin, -⟩ := hblock.inner first List.mem_cons_self
      have hmem : ".param" ∈ blockWords := by simp [blockWords]
      obtain ⟨hcomment, hannotated, -⟩ := startsWith_of_blockWord hmem hword
      obtain ⟨s, hs⟩ := startsWith_iff.mp hword
      have hdata : dataEnd? first = none := by rw [hs]; rfl
      have hofLine : ofLine? first = some (item (.directive (String.ofList first))) := by
        rw [hs]
        rfl
      have htrim : trim first = first := htrimmed
      have hread : reader (first ++ '\n' :: innerLines ls last behind) =
          .ok (item (.directive (String.ofList first)), innerLines ls last behind) :=
        reader_line hin (.inl rfl) hcomment hannotated (htrim.symm ▸ hdata) (htrim.symm ▸ hparam)
          (htrim.symm ▸ hofLine)
      rw [afterLayout_directiveBlock hblock (by decide), hread] at h
      obtain ⟨rfl, -⟩ := Prod.mk.inj (Except.ok.inj h)
      refine .inr ⟨_, rfl, fun heq => absurd ?_ (blockText_ne hin first ls last)⟩
      rw [← BodyItem.directive.inj heq, String.toList_ofList]

/-- An item in the form that reading gives it is what is read where it stands, or is no item
there. -/
theorem readsItem_of_reader {i : BodyItem} {e : Entry} {behind u : List Char} (hi : i.IsRead)
    (hopen : startsWith ".end method" (afterLayout ((item i).text ++ behind)) = false)
    (h : reader (afterLayout ((item i).text ++ behind)) = .ok (e, u)) : ReadsItem i behind e := by
  cases i with
  | label name => exact readsItem_of_legible (i := .label name) hi h
  | line n => exact readsItem_of_legible (i := .line n) trivial h
  | directive t =>
    obtain ⟨htrimmed, hin, hdot, hlocals, hnumber⟩ |
      ⟨closing, first, ls, last, hblock, hopens, rfl⟩ := hi
    · exact readsItem_directiveLine htrimmed hin hdot hlocals hnumber hopen h
    · exact readsItem_directiveBlock hblock hopens h
  | instruction i => exact readsItem_of_legible (i := .instruction i) hi h

end Entry

end GatedCalls
