import GatedCalls.Proofs.Smali.Annotation
import GatedCalls.Proofs.Smali.Instruction
import GatedCalls.Proofs.Text.Numeral
import GatedCalls.Proofs.Text.Separated
import GatedCalls.Smali.ClassPrinter
import GatedCalls.Smali.EntryReader

/-!
# The entries of methods are read as they are printed

Labels, line numbers, instructions and most directives are lines of their own. A directive of
several lines is a block of data or a parameter with annotations, and is only read as one if it is
closed off where it stands.
-/

namespace GatedCalls

open Text

/-- A readable instruction begins with a character of its mnemonic. -/
theorem Instruction.exists_text_eq_cons {i : Instruction} (h : i.IsReadable) :
    ∃ c s, i.text.toList = c :: s ∧ Instruction.isMnemonicChar c = true := by
  have hread := Instruction.reader_text h
  cases htext : i.text.toList with
  | nil =>
    rw [htext] at hread
    cases hread
  | cons c s =>
    refine ⟨c, s, rfl, ?_⟩
    cases hc : Instruction.isMnemonicChar c with
    | true => rfl
    | false =>
      obtain ⟨e, he⟩ := Reader.run1_fails (p := Instruction.isMnemonicChar) (s := c :: s)
        (stops_cons.mpr hc)
      rw [htext, Instruction.reader, he] at hread
      cases hread

namespace Entry

/-! ### Printed entries -/

/-- The lines of a directive behind its first one, and the text behind the directive. -/
def innerLines (ls : List (List Char)) (last behind : List Char) : List Char :=
  (ls.map ("        ".toList ++ ·)).flatMap (· ++ ['\n']) ++ ("    ".toList ++ (last ++ '\n' :: behind))

/-- The line that says the number of registers. -/
def localsLine (n : UInt32) : String :=
  "    .locals " ++ toString n.toNat ++ "\n"

/-- An entry as it is printed; a comment is not. -/
def text : Entry → List Char
  | comment => []
  | locals n => (localsLine n).toList
  | annotated a => a.outerText "    "
  | item i => i.print.toList

/-- The printed lines of a directive of one line. -/
theorem printDirective_line {t : String} (hin : InLine t.toList) (hne : t.toList ≠ [])
    (behind : List Char) :
    (BodyItem.printDirective t).toList ++ behind = "    ".toList ++ (t.toList ++ '\n' :: behind) := by
  have hlines : linesOf t = [t] := by
    rw [linesOf, lines_of_not_mem hin.not_mem.1 hne]
    simp
  simp [BodyItem.printDirective, hlines]

/-- Numbering the lines of a directive tells its inner lines from the first and the last one. -/
theorem map_zipIdx_inner (ls : List String) :
    (ls.zipIdx 1).map (fun (l, i) =>
      (if i = 0 ∨ i = ls.length + 1 then "    " else "        ") ++ l ++ "\n") =
      ls.map fun l => "        " ++ l ++ "\n" := by
  have hinner : ∀ x ∈ ls.zipIdx 1,
      (fun (l, i) => (if i = 0 ∨ i = ls.length + 1 then "    " else "        ") ++ l ++ "\n") x =
        ((fun l => "        " ++ l ++ "\n") ∘ Prod.fst) x := by
    intro x hx
    have hge := List.le_snd_of_mem_zipIdx hx
    have hlt := List.snd_lt_of_mem_zipIdx hx
    have hne : ¬(x.2 = 0 ∨ x.2 = ls.length + 1) := by omega
    simp only [hne, if_false, Function.comp_apply]
  rw [List.map_congr_left hinner, ← List.map_map, List.zipIdx_map_fst]

/-- The printed lines of a directive of several lines. -/
theorem printDirective_block {closing : String} {first last : List Char} {ls : List (List Char)}
    (h : IsBlock closing (first :: ls) last) (hclosing : closing.toList ≠ []) (behind : List Char) :
    (BodyItem.printDirective (blockText (first :: ls) last)).toList ++ behind =
      "    ".toList ++ (first ++ '\n' :: innerLines ls last behind) := by
  have hlines : linesOf (blockText (first :: ls) last) =
      String.ofList first :: (ls.map String.ofList ++ [String.ofList last]) := by
    rw [linesOf, lines_blockText h hclosing]
    simp
  have hlast : (String.ofList first :: (ls.map String.ofList ++ [String.ofList last])).length - 1 =
      (ls.map String.ofList).length + 1 := by
    simp
  have hend : 1 + (ls.map String.ofList).length = (ls.map String.ofList).length + 1 := by omega
  simp only [BodyItem.printDirective, hlines, hlast, List.zipIdx_cons, List.zipIdx_append,
    List.map_cons, List.map_append, Nat.zero_add]
  rw [map_zipIdx_inner, hend]
  simp [innerLines, String.toList_join, List.flatMap_map]

/-- The first line of a directive of several lines stands first behind the layout. -/
theorem afterLayout_directiveBlock {closing : String} {first last : List Char}
    {ls : List (List Char)} (h : IsBlock closing (first :: ls) last) (hclosing : closing.toList ≠ [])
    (behind : List Char) :
    afterLayout ((item (.directive (blockText (first :: ls) last))).text ++ behind) =
      first ++ '\n' :: innerLines ls last behind := by
  obtain ⟨hne, htrimmed, -, -⟩ := h.inner first List.mem_cons_self
  refine (congrArg afterLayout (printDirective_block h hclosing behind)).trans ?_
  rw [afterLayout_append (List.all_eq_true.mp (by decide))]
  exact afterLayout_of_stops (htrimmed.stops.isLayout.append hne _)

/-! ### Legible entries -/

/-- Whether a text is a directive on a line of its own, whatever stands behind it, unless it is a
parameter. -/
structure IsDirectiveLine (t : List Char) : Prop where
  trimmed : IsTrimmed t
  inLine : InLine t
  begins : startsWith "." t = true
  not_annotated : startsWith ".annotation" t = false
  not_locals : startsWith ".locals" t = false
  not_line : startsWith ".line" t = false
  not_closing : startsWith ".end method" t = false
  not_data : dataEnd? t = none

/-- Whether lines are a directive of several lines, closed off in front of the text behind it: a
block of data, or a parameter with annotations. -/
structure IsDirectiveBlock (closing : String) (first : List Char) (ls : List (List Char))
    (last behind : List Char) : Prop where
  /-- The lines make up a block. -/
  block : IsBlock closing (first :: ls) last
  /-- The first line says how the block is closed off: it holds data, or it is a parameter, the
  lines of which are read ahead. -/
  closed : dataEnd? first = some closing ∨
    closing = ".end param" ∧ isClosedParam first (innerLines ls last behind) = true

/-- Whether a directive is read as itself in front of the text behind it. -/
def DirectiveLegible (t : String) (behind : List Char) : Prop :=
  (IsDirectiveLine t.toList ∧ isClosedParam t.toList behind = false) ∨
  ∃ closing first ls last, IsDirectiveBlock closing first ls last behind ∧
    t = blockText (first :: ls) last

/-- Whether an entry is read as itself in front of the text behind it. -/
def Legible (e : Entry) (behind : List Char) : Prop :=
  match e with
  | comment => False
  | locals _ => True
  | annotated a => a.Legible false "    " behind
  | item (.label name) => name.toList ≠ [] ∧ ∀ c ∈ name.toList, Label.isNameChar c = true
  | item (.line _) => True
  | item (.directive t) => DirectiveLegible t behind
  | item (.instruction i) => i.IsReadable ∧ InLine i.text.toList

/-! ### Legible entries are read back -/

/-- A line that is neither a comment nor the beginning of an annotation or of a block is read for
itself. -/
theorem reader_line {x lineBreak rest : List Char} {e : Entry} (hin : InLine x)
    (hbreak : IsLineBreak lineBreak) (hcomment : startsWith "#" x = false)
    (hannotated : startsWith ".annotation" x = false) (hdata : dataEnd? (trim x) = none)
    (hparam : isClosedParam (trim x) rest = false) (hline : ofLine? (trim x) = some e) :
    reader (x ++ (lineBreak ++ rest)) = .ok (e, rest) := by
  have h₁ := startsWith_append_lineBreak (by decide) hcomment hbreak rest
  have h₂ := startsWith_append_lineBreak (by decide) hannotated hbreak rest
  have hread : lineReader (x ++ (lineBreak ++ rest)) = .ok (e, rest) := by
    rw [lineReader, Reader.line_append_lineBreak hin hbreak]
    simp only [hdata, hparam, hline, Bool.false_eq_true, if_false]
  rw [reader, h₁, h₂, if_neg (by decide), if_neg (by decide), hread]

/-- The digits of a number are trimmed and in line. -/
theorem isTrimmed_number (n : Nat) : IsTrimmed (toString n).toList ∧ InLine (toString n).toList := by
  have hblank : ∀ c ∈ (toString n).toList, isBlank c = false := fun c hc =>
    isBlank_eq_false_of_isAlphanumeric (isAlphanumeric_of_isDigit (isDigit_of_mem_toString hc))
  exact ⟨isTrimmed_of_forall hblank, fun c hc => isInLine_of_isBlank_eq_false (hblank c hc)⟩

/-- A word and a number on a line, with a gap between them. -/
theorem numberLine (word : List Char) (hne : word ≠ []) (hword : Stops isBlank word)
    (hin : InLine word) {gap : List Char} (hgap : IsGap gap) (n : UInt32) :
    IsTrimmed (word ++ (gap ++ (toString n.toNat).toList)) ∧
      InLine (word ++ (gap ++ (toString n.toNat).toList)) ∧
      word32? (trim ((word ++ (gap ++ (toString n.toNat).toList)).drop word.length)) = some n := by
  obtain ⟨htrimmed, hinNumber⟩ := isTrimmed_number n.toNat
  have hdigits := toList_toString_ne_nil n.toNat
  refine ⟨isTrimmed_iff.mpr ⟨hword.append hne _, ?_⟩, ?_, ?_⟩
  · rw [List.reverse_append, List.reverse_append, List.append_assoc]
    exact (isTrimmed_iff.mp htrimmed).2.append (by simp) _
  · exact inLine_append.mpr ⟨hin, inLine_append.mpr ⟨hgap.inLine, hinNumber⟩⟩
  · rw [List.drop_left, trim_append hgap.isBlank, htrimmed, word32?_toString]

/-- Whether an entry is read off its text, which does not end the method. -/
def ReadInPlace (e : Entry) (behind : List Char) : Prop :=
  startsWith ".end method" (afterLayout (e.text ++ behind)) = false ∧
    ∃ u, reader (afterLayout (e.text ++ behind)) = .ok (e, u) ∧ afterLayout u = afterLayout behind

/-- An entry that is a line of its own is read off it. -/
theorem readInPlace_line {e : Entry} {x behind rest : List Char}
    (htext : e.text ++ behind = "    ".toList ++ (x ++ '\n' :: rest))
    (hrest : afterLayout rest = afterLayout behind) (hne : x ≠ []) (hx : IsTrimmed x)
    (hin : InLine x) (hcomment : startsWith "#" x = false)
    (hannotated : startsWith ".annotation" x = false)
    (hclosing : startsWith ".end method" x = false) (hdata : dataEnd? x = none)
    (hparam : isClosedParam x rest = false) (hline : ofLine? x = some e) :
    e.ReadInPlace behind := by
  have hplace : afterLayout (e.text ++ behind) = x ++ '\n' :: rest := by
    rw [htext, afterLayout_append (List.all_eq_true.mp (by decide))]
    exact afterLayout_of_stops (hx.stops.isLayout.append hne _)
  refine ⟨?_, rest, ?_, hrest⟩
  · rw [hplace]
    exact startsWith_line (by decide) hclosing rest
  · rw [hplace]
    have htrim : trim x = x := hx
    exact reader_line hin (.inl rfl) hcomment hannotated (htrim.symm ▸ hdata) (htrim.symm ▸ hparam)
      (htrim.symm ▸ hline)

/-- A text that does not begin with a dot is no directive. -/
theorem not_directive {c : Char} (hc : c ≠ '.') (s rest : List Char) :
    startsWith ".annotation" (c :: s) = false ∧ startsWith ".end method" (c :: s) = false ∧
      startsWith ".locals" (c :: s) = false ∧ startsWith ".line" (c :: s) = false ∧
      dataEnd? (c :: s) = none ∧ isClosedParam (c :: s) rest = false := by
  have h {word : String} {ws : List Char} (hword : word.toList = '.' :: ws) :
      startsWith word (c :: s) = false :=
    startsWith_eq_false hword hc
  refine ⟨h rfl, h rfl, h rfl, h rfl, ?_, ?_⟩
  · rw [dataEnd?, h rfl, h rfl, h rfl]
    rfl
  · rw [isClosedParam, h rfl]
    rfl

/-- The number of registers is read off its line. -/
theorem readInPlace_locals (n : UInt32) (behind : List Char) : (locals n).ReadInPlace behind := by
  obtain ⟨htrimmed, hin, hvalue⟩ := numberLine ".locals".toList (by decide)
    (stops_cons.mpr (by decide)) (by decide) isGap_space n
  have htext : (locals n).text ++ behind =
      "    ".toList ++ (".locals".toList ++ ' ' :: (toString n.toNat).toList ++ '\n' :: behind) := by
    simp [text, localsLine]
  have hline : ofLine? (".locals".toList ++ ' ' :: (toString n.toNat).toList) = some (locals n) := by
    rw [ofLine?, startsWith_append, if_pos rfl]
    exact congrArg (Option.map locals) hvalue
  exact readInPlace_line htext rfl (by simp) htrimmed hin rfl rfl rfl rfl rfl hline

/-- A line number is read off its line. -/
theorem readInPlace_lineNumber (n : UInt32) (behind : List Char) :
    (item (.line n)).ReadInPlace behind := by
  obtain ⟨htrimmed, hin, hvalue⟩ := numberLine ".line".toList (by decide)
    (stops_cons.mpr (by decide)) (by decide) isGap_space n
  have htext : (item (.line n)).text ++ behind =
      "    ".toList ++ (".line".toList ++ ' ' :: (toString n.toNat).toList ++ '\n' :: behind) := by
    simp [text, BodyItem.print]
  have hline : ofLine? (".line".toList ++ ' ' :: (toString n.toNat).toList) =
      some (item (.line n)) := by
    have hlocals : startsWith ".locals" (".line".toList ++ ' ' :: (toString n.toNat).toList) = false :=
      rfl
    rw [ofLine?, hlocals, if_neg (by decide), startsWith_append, if_pos rfl]
    exact congrArg (Option.map fun n => item (.line n)) hvalue
  exact readInPlace_line htext rfl (by simp) htrimmed hin rfl rfl rfl rfl rfl hline

/-- No character of the name of a label is blank. -/
theorem isBlank_eq_false_of_isNameChar {c : Char} (h : Label.isNameChar c = true) :
    isBlank c = false := by
  simp only [Label.isNameChar, Bool.or_eq_true, beq_iff_eq] at h
  obtain (h | rfl) | rfl := h
  · exact isBlank_eq_false_of_isAlphanumeric h
  · rfl
  · rfl

/-- A label is read off its line. -/
theorem readInPlace_label {name : String} (hne : name.toList ≠ [])
    (hchars : ∀ c ∈ name.toList, Label.isNameChar c = true) (behind : List Char) :
    (item (.label name)).ReadInPlace behind := by
  have hblank : ∀ c ∈ ':' :: name.toList, isBlank c = false := by
    intro c hc
    obtain rfl | hc := List.mem_cons.mp hc
    · rfl
    · exact isBlank_eq_false_of_isNameChar (hchars c hc)
  have htext : (item (.label name)).text ++ behind =
      "    ".toList ++ (':' :: name.toList ++ '\n' :: behind) := by
    simp [text, BodyItem.print, Label.text]
  obtain ⟨hannotated, hclosing, hlocals, hnumber, hdata, hparam⟩ :=
    not_directive (c := ':') (by decide) name.toList behind
  have hlabel : Label.reader (':' :: name.toList) = .ok (name, []) := by
    refine Reader.bind_ok (Reader.literal_append ":" name.toList) ?_
    have hrun : Reader.run1 Label.isNameChar (name.toList ++ []) = .ok (name.toList, []) :=
      Reader.run1_append hne hchars stops_nil
    rw [List.append_nil] at hrun
    refine Reader.bind_ok hrun ?_
    rw [String.ofList_toList]
    rfl
  have hline : ofLine? (':' :: name.toList) = some (item (.label name)) := by
    have hcolon : startsWith ":" (':' :: name.toList) = true := rfl
    rw [ofLine?, hlocals, hnumber, hcolon, hlabel]
    rfl
  exact readInPlace_line htext rfl (by simp) (isTrimmed_of_forall hblank)
    (fun c hc => isInLine_of_isBlank_eq_false (hblank c hc)) rfl hannotated hclosing hdata hparam hline

/-- An instruction is read off its line. -/
theorem readInPlace_instruction {i : Instruction} (hi : i.IsReadable) (hin : InLine i.text.toList)
    (behind : List Char) : (item (.instruction i)).ReadInPlace behind := by
  obtain ⟨c, s, hcs, hchar⟩ := Instruction.exists_text_eq_cons hi
  have htext : (item (.instruction i)).text ++ behind =
      "    ".toList ++ (i.text.toList ++ '\n' :: '\n' :: behind) := by
    simp [text, BodyItem.print]
  have hdot : c ≠ '.' := by
    rintro rfl
    exact absurd hchar (by decide)
  have hcolon : c ≠ ':' := by
    rintro rfl
    exact absurd hchar (by decide)
  have hhash : c ≠ '#' := by
    rintro rfl
    exact absurd hchar (by decide)
  obtain ⟨hannotated, hclosing, hlocals, hnumber, hdata, hparam⟩ :=
    not_directive hdot s ('\n' :: behind)
  have hread : Instruction.readLine i.text.toList = .ok (i, []) := by
    rw [Instruction.readLine, Instruction.isTrimmed_text hi]
    exact Instruction.reader_text hi
  rw [← hcs] at hannotated hclosing hlocals hnumber hdata hparam
  have hline : ofLine? i.text.toList = some (item (.instruction i)) := by
    have hlabel : startsWith ":" i.text.toList = false := hcs ▸ startsWith_eq_false rfl hcolon
    have hdirective : startsWith "." i.text.toList = false := hcs ▸ startsWith_eq_false rfl hdot
    rw [ofLine?, hlocals, hnumber, hlabel, hdirective, hread]
    rfl
  exact readInPlace_line htext (afterLayout_cons (by decide) behind) (by simp [hcs])
    (Instruction.isTrimmed_text hi) hin (hcs ▸ startsWith_eq_false rfl hhash) hannotated hclosing
    hdata hparam hline

/-- A directive of one line is read off its line. -/
theorem readInPlace_directiveLine {t : String} {behind : List Char} (h : IsDirectiveLine t.toList)
    (hparam : isClosedParam t.toList behind = false) :
    (item (.directive t)).ReadInPlace behind := by
  obtain ⟨s, hs⟩ : ∃ s, t.toList = '.' :: s := exists_cons_of_startsWith rfl h.begins
  have hne : t.toList ≠ [] := by simp [hs]
  have htext : (item (.directive t)).text ++ behind = "    ".toList ++ (t.toList ++ '\n' :: behind) :=
    printDirective_line h.inLine hne behind
  have hcomment : startsWith "#" t.toList = false := hs ▸ startsWith_eq_false rfl (by decide)
  have hline : ofLine? t.toList = some (item (.directive t)) := by
    have hlabel : startsWith ":" t.toList = false := hs ▸ startsWith_eq_false rfl (by decide)
    rw [ofLine?, h.not_locals, h.not_line, hlabel, h.begins, String.ofList_toList]
    rfl
  exact readInPlace_line htext rfl hne h.trimmed h.inLine hcomment h.not_annotated h.not_closing
    h.not_data hparam hline

/-- The words with which directives of several lines begin. -/
def blockWords : List String :=
  [".array-data", ".packed-switch", ".sparse-switch", ".param"]

/-- A block of data begins with one of the words for it, and the line that closes it is not
empty. -/
theorem dataEnd?_eq_some {x : List Char} {closing : String} (h : dataEnd? x = some closing) :
    (∃ word ∈ blockWords, startsWith word x = true) ∧ closing.toList ≠ [] := by
  unfold dataEnd? at h
  split at h
  · next hword => exact ⟨⟨_, by simp [blockWords], hword⟩, by rw [← Option.some.inj h]; decide⟩
  · split at h
    · next hword => exact ⟨⟨_, by simp [blockWords], hword⟩, by rw [← Option.some.inj h]; decide⟩
    · split at h
      · next hword => exact ⟨⟨_, by simp [blockWords], hword⟩, by rw [← Option.some.inj h]; decide⟩
      · cases h

/-- A parameter is no block of data. -/
theorem isClosedParam_spec {x rest : List Char} (h : isClosedParam x rest = true) :
    startsWith ".param" x = true ∧ dataEnd? x = none := by
  rw [isClosedParam, Bool.and_eq_true] at h
  obtain ⟨t, rfl⟩ := startsWith_iff.mp h.1
  exact ⟨h.1, rfl⟩

/-- A directive of several lines begins with one of the words for it, and the line that closes it is
not empty. -/
theorem IsDirectiveBlock.begins {closing : String} {first last behind : List Char}
    {ls : List (List Char)} (h : IsDirectiveBlock closing first ls last behind) :
    (∃ word ∈ blockWords, startsWith word first = true) ∧ closing.toList ≠ [] := by
  obtain hdata | ⟨rfl, hparam⟩ := h.closed
  · exact dataEnd?_eq_some hdata
  · exact ⟨⟨_, by simp [blockWords], (isClosedParam_spec hparam).1⟩, by decide⟩

/-- No word for a directive of several lines begins like a comment, an annotation, or the end of a
method. -/
theorem startsWith_of_blockWord {word : String} {x : List Char} (hword : word ∈ blockWords)
    (hx : startsWith word x = true) :
    startsWith "#" x = false ∧ startsWith ".annotation" x = false ∧
      startsWith ".end method" x = false := by
  obtain ⟨t, rfl⟩ := startsWith_iff.mp hx
  simp only [blockWords, List.mem_cons, List.not_mem_nil, or_false] at hword
  obtain rfl | rfl | rfl | rfl := hword <;> exact ⟨rfl, rfl, rfl⟩

/-- A directive of several lines is read off them. -/
theorem readInPlace_directiveBlock {closing : String} {first last behind : List Char}
    {ls : List (List Char)} (h : IsDirectiveBlock closing first ls last behind) :
    (item (.directive (blockText (first :: ls) last))).ReadInPlace behind := by
  obtain ⟨⟨word, hword, hstarts⟩, hclosing⟩ := h.begins
  obtain ⟨hblock, hclosed⟩ := h
  obtain ⟨-, htrimmed, hin, -⟩ := hblock.inner first List.mem_cons_self
  obtain ⟨hcomment, hannotated, hend⟩ := startsWith_of_blockWord hword hstarts
  have hplace := afterLayout_directiveBlock hblock hclosing behind
  have hdirective : directiveReader closing (first ++ '\n' :: innerLines ls last behind) =
      .ok (item (.directive (blockText (first :: ls) last)), behind) :=
    Reader.bind_ok (blockReader_indented hblock (by simp) (by simp) behind) rfl
  have hread : lineReader (first ++ '\n' :: innerLines ls last behind) =
      .ok (item (.directive (blockText (first :: ls) last)), behind) := by
    rw [lineReader, Reader.line_append hin]
    simp only [show trim first = first from htrimmed]
    obtain hdata | ⟨rfl, hparam⟩ := hclosed
    · simp only [hdata]
      exact hdirective
    · simp only [(isClosedParam_spec hparam).2, hparam, if_true]
      exact hdirective
  refine ⟨?_, behind, ?_, rfl⟩
  · rw [hplace]
    exact startsWith_line (by decide) hend _
  · rw [hplace, reader, startsWith_line (by decide) hcomment, startsWith_line (by decide) hannotated]
    exact hread

/-- A legible entry is read off its text. -/
theorem readInPlace_of_legible {e : Entry} {behind : List Char} (h : e.Legible behind) :
    e.ReadInPlace behind := by
  match e, h with
  | locals n, _ => exact readInPlace_locals n behind
  | annotated a, ha =>
    have hspaces : ∀ c ∈ ("    " : String).toList, c = ' ' := by simp
    obtain ⟨s, hs⟩ := AnnotationBlock.afterLayout_outerText hspaces a behind
    have hread := AnnotationBlock.reader_print hspaces a ha (afterLayout_afterLayout _)
    have hstarts := startsWith_append ".annotation" s
    have hplace : afterLayout ((annotated a).text ++ behind) = ".annotation".toList ++ s := hs
    have hannotated : annotationReader (afterLayout ((annotated a).text ++ behind)) =
        .ok (annotated a, afterLayout behind) :=
      Reader.bind_ok hread rfl
    refine ⟨by rw [hplace]; rfl, afterLayout behind, ?_, afterLayout_afterLayout behind⟩
    rw [reader, hannotated, hplace, hstarts]
    rfl
  | item (.label name), ⟨hne, hchars⟩ => exact readInPlace_label hne hchars behind
  | item (.line n), _ => exact readInPlace_lineNumber n behind
  | item (.directive t), ht =>
    obtain ⟨hline, hparam⟩ | ⟨closing, first, ls, last, hblock, rfl⟩ := ht
    · exact readInPlace_directiveLine hline hparam
    · exact readInPlace_directiveBlock hblock
  | item (.instruction i), ⟨hi, hin⟩ => exact readInPlace_instruction hi hin behind

end Entry

end GatedCalls
