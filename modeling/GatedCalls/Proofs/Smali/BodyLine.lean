import GatedCalls.Proofs.Smali.CallSpelling
import GatedCalls.Proofs.Smali.Document

/-!
# Bodies are read line by line

`BodyLine` is a line of a body in any layout: spaces and tabs in front and behind, within a call
wherever they may stand, and a line break of either kind. Lines are read one for one, so that the
body is what they say, in order; blank lines and comments say nothing.
-/

namespace GatedCalls

open Text

/-- What stands around a text on its line: spaces and tabs, and the line break. -/
structure Margins where
  front : List Char
  back : List Char
  lineBreak : List Char
  front_isGap : IsGap front
  back_isGap : IsGap back
  isLineBreak : IsLineBreak lineBreak

/-- A line with a text between the margins. -/
def Margins.around (l : Margins) (x : List Char) : List Char :=
  l.front ++ (x ++ (l.back ++ l.lineBreak))

namespace Margins

/-- Four spaces in front, and a line feed behind. -/
def plain : Margins :=
  ⟨"    ".toList, [], ['\n'], by decide, by decide, .inl rfl⟩

variable {x : List Char}

/-- A line in any layout, with its indentation passed over. -/
theorem afterLayout_around (hne : x ≠ []) (hx : Stops isLayout x) (l : Margins)
    (behind : List Char) :
    afterLayout (l.around x ++ behind) = x ++ l.back ++ (l.lineBreak ++ behind) := by
  have htext : l.around x ++ behind = l.front ++ (x ++ (l.back ++ (l.lineBreak ++ behind))) := by
    simp only [around, List.append_assoc]
  rw [htext, afterLayout_append l.front_isGap.isLayout, List.append_assoc]
  exact afterLayout_of_stops (hx.append hne _)

/-- A line in any layout does not begin with a word that the text on it does not begin with. -/
theorem startsWith_around {word : String} (hin : InLine word.toList)
    (hend : Stops isBlank word.toList.reverse) (hx : startsWith word x = false) (l : Margins)
    (behind : List Char) : startsWith word (x ++ l.back ++ (l.lineBreak ++ behind)) = false :=
  startsWith_append_lineBreak hin (startsWith_append_of_isBlank hend l.back_isGap.isBlank hx)
    l.isLineBreak behind

/-- A line in any layout is one line. -/
theorem lined_around (hx : InLine x) (l : Margins) :
    Lined [l.front ++ (x ++ l.back)] (l.around x) := by
  have hin : InLine (l.front ++ (x ++ l.back)) :=
    inLine_append.mpr ⟨l.front_isGap.inLine, inLine_append.mpr ⟨hx, l.back_isGap.inLine⟩⟩
  have hline := lined_singleton hin l.isLineBreak
  rwa [List.append_assoc, List.append_assoc] at hline

/-- The margins of a line do not count in trimming. -/
theorem trim_line (l : Margins) (x : List Char) : trim (l.front ++ (x ++ l.back)) = trim x := by
  rw [trim_append l.front_isGap.isBlank, trim_append_of_isBlank l.back_isGap.isBlank]

end Margins

namespace Entry

/-! ### Lines that are entries of their own -/

/-- Whether a line, in front of which there is no layout, is read as an entry by itself. -/
structure IsOwnLine (x : List Char) (e : Entry) : Prop where
  ne_nil : x ≠ []
  stops : Stops isLayout x
  not_comment : startsWith "#" x = false
  not_annotated : startsWith ".annotation" x = false
  not_closing : startsWith ".end method" x = false
  not_data : dataEnd? (trim x) = none
  ofLine?_eq : ofLine? (trim x) = some e

/-- An entry that is a line of its own is yielded by the line, in any layout, unless it is a
parameter with annotations behind it. -/
theorem IsOwnLine.yields {x behind : List Char} {e : Entry} (h : IsOwnLine x e) (hin : InLine x)
    (l : Margins) (hparam : isClosedParam (trim x) behind = false) :
    Entry.Yields (l.around x) [e] behind := by
  have htrim : trim (x ++ l.back) = trim x := trim_append_of_isBlank l.back_isGap.isBlank x
  have hword {word : String} (hend : Stops isBlank word.toList.reverse)
      (hx : startsWith word x = false) : startsWith word (x ++ l.back) = false :=
    startsWith_append_of_isBlank hend l.back_isGap.isBlank hx
  have hread : reader (x ++ l.back ++ (l.lineBreak ++ behind)) = .ok (e, behind) :=
    reader_line (inLine_append.mpr ⟨hin, l.back_isGap.inLine⟩) l.isLineBreak
      (hword (stops_cons.mpr (by decide)) h.not_comment)
      (hword (stops_cons.mpr (by decide)) h.not_annotated) (htrim ▸ h.not_data) (htrim ▸ hparam)
      (htrim ▸ h.ofLine?_eq)
  refine Reader.yields_one ?_ ?_
  · rw [Margins.afterLayout_around h.ne_nil h.stops]
    exact Reader.literal_fails (Margins.startsWith_around (by decide) (stops_cons.mpr (by decide))
      h.not_closing l behind)
  · rw [Margins.afterLayout_around h.ne_nil h.stops]
    exact Reader.bind_ok hread rfl

/-- Whether a line is read as an entry by itself wherever it stands, as it is no parameter. -/
structure IsFreeLine (x : List Char) (e : Entry) : Prop extends IsOwnLine x e where
  not_param : startsWith ".param" (trim x) = false

/-- A line that is no parameter has no annotations of its own. -/
theorem IsFreeLine.isClosedParam_eq {x : List Char} {e : Entry} (h : IsFreeLine x e)
    (behind : List Char) : isClosedParam (trim x) behind = false := by
  rw [isClosedParam, h.not_param]
  rfl

/-- What is left by trimming of a text that begins without a blank begins in the same way. -/
theorem exists_trim_cons {c : Char} (hc : isBlank c = false) (s : List Char) :
    ∃ z, trim (c :: s) = c :: z := by
  have htrimmed : IsTrimmed [c] := isTrimmed_iff.mpr ⟨stops_cons.mpr hc, stops_cons.mpr hc⟩
  obtain ⟨z, -, hz⟩ := exists_trim_append htrimmed (List.cons_ne_nil c []) s
  exact ⟨z, hz⟩

/-- A line that begins with a character that is neither blank nor the beginning of a comment or of a
directive is read for itself. -/
theorem isFreeLine_of_cons {c : Char} {s : List Char} {e : Entry} (hblank : isBlank c = false)
    (hhash : c ≠ '#') (hdot : c ≠ '.') (h : ofLine? (trim (c :: s)) = some e) :
    IsFreeLine (c :: s) e := by
  obtain ⟨hannotated, hclosing, -, -, -, -⟩ := not_directive hdot s []
  obtain ⟨z, hz⟩ := exists_trim_cons hblank s
  obtain ⟨-, -, -, -, hdata, -⟩ := not_directive hdot z []
  exact ⟨⟨List.cons_ne_nil c s, stops_cons.mpr (isLayout_eq_false hblank),
    startsWith_eq_false rfl hhash, hannotated, hclosing, hz ▸ hdata, h⟩,
    hz ▸ startsWith_eq_false rfl hdot⟩

/-- A label is read for itself, whatever stands behind it that cannot stand in its name. -/
theorem isFreeLine_label {name tail : List Char} (hne : name ≠ [])
    (hchars : ∀ c ∈ name, Label.isNameChar c = true) (htail : Stops Label.isNameChar tail) :
    IsFreeLine (':' :: (name ++ tail)) (item (.label (String.ofList name))) := by
  have hblank : ∀ c ∈ ':' :: name, isBlank c = false := by
    intro c hc
    obtain rfl | hc := List.mem_cons.mp hc
    · decide
    · exact isBlank_eq_false_of_isNameChar (hchars c hc)
  obtain ⟨z, hz, htrim⟩ :=
    exists_trim_append (isTrimmed_of_forall hblank) (List.cons_ne_nil ':' name) tail
  have hlabel : Label.reader (':' :: name ++ z) = .ok (String.ofList name, z) := by
    refine Reader.bind_ok (Reader.literal_append ":" (name ++ z)) ?_
    exact Reader.bind_ok (Reader.run1_append hne hchars (htail.of_isPrefix hz)) rfl
  obtain ⟨-, -, hlocals, hline, -, -⟩ := not_directive (c := ':') (by decide) (name ++ z) []
  have hcolon : startsWith ":" (':' :: name ++ z) = true := startsWith_append ":" (name ++ z)
  refine isFreeLine_of_cons (by decide) (by decide) (by decide) ?_
  rw [← List.cons_append, htrim, ofLine?, hcolon, hlabel, List.cons_append, hlocals, hline]
  rfl

/-- A line whose first word is a mnemonic is read as an instruction. -/
theorem isFreeLine_instruction {d : Char} {s rest : List Char} {i : Instruction}
    (hd : Instruction.isMnemonicChar d = true)
    (hread : Instruction.reader (trim (d :: s)) = .ok (i, rest)) :
    IsFreeLine (d :: s) (item (.instruction i)) := by
  have hne (c : Char) (hc : Instruction.isMnemonicChar c = false) : d ≠ c := by
    rintro rfl
    rw [hd] at hc
    cases hc
  have hblank := Instruction.isBlank_eq_false hd
  refine isFreeLine_of_cons hblank (hne '#' (by decide)) (hne '.' (by decide)) ?_
  obtain ⟨z, hz⟩ := exists_trim_cons hblank s
  have hreadLine : Instruction.readLine (trim (d :: s)) = .ok (i, rest) := by
    rw [Instruction.readLine, isTrimmed_trim, hread]
  obtain ⟨-, -, hlocals, hline, -, -⟩ := not_directive (hne '.' (by decide)) z []
  have hcolon : startsWith ":" (d :: z) = false := startsWith_eq_false rfl (hne ':' (by decide))
  have hdot : startsWith "." (d :: z) = false := startsWith_eq_false rfl (hne '.' (by decide))
  rw [hz] at hreadLine ⊢
  rw [ofLine?, hlocals, hline, hcolon, hdot, hreadLine]
  rfl

/-- A call is read for itself, whatever stands behind it. -/
theorem isFreeLine_call {c : Call} {x : List Char} (h : c.IsSpelled x) (tail : List Char) :
    IsFreeLine (x ++ tail) (item (.instruction (.call c))) := by
  obtain ⟨htrimmed, d, y, rfl, hd⟩ := h.isTrimmed
  obtain ⟨z, -, hz⟩ := exists_trim_append htrimmed (List.cons_ne_nil d y) tail
  have hread : Instruction.reader (trim (d :: y ++ tail)) = .ok (.call c, z.dropWhile isSpace) :=
    Instruction.reader_eq_ok_call.mpr ⟨_, z, hz, h, rfl⟩
  exact isFreeLine_instruction hd hread

/-- Any other instruction is read for itself, without the blanks behind it. -/
theorem isFreeLine_other {x : List Char} (h : Instruction.IsOther x) :
    IsFreeLine x (item (.instruction (.other (String.ofList (trim x))))) := by
  obtain ⟨hne, hlookup⟩ := h
  cases x with
  | nil => exact absurd rfl hne
  | cons d s =>
    have hd : Instruction.isMnemonicChar d = true := by
      by_contra hd
      exact hne (List.takeWhile_cons_of_neg hd)
    -- The blanks behind the text are no part of its first word.
    obtain ⟨ws, hws, hs⟩ := exists_eq_trim_append (stops_cons.mpr (Instruction.isBlank_eq_false hd))
    have hstop : Stops Instruction.isMnemonicChar ws := by
      intro c hc
      cases hchar : Instruction.isMnemonicChar c with
      | false => rfl
      | true =>
        have hblank := hws c (List.mem_of_mem_head? hc)
        rw [Instruction.isBlank_eq_false hchar] at hblank
        cases hblank
    have hword : (trim (d :: s)).takeWhile Instruction.isMnemonicChar =
        (d :: s).takeWhile Instruction.isMnemonicChar := by
      conv_rhs => rw [hs]
      exact (takeWhile_append_left hstop).symm
    have hreadable : (Instruction.other (String.ofList (trim (d :: s)))).IsReadable := by
      refine ⟨by simpa using isTrimmed_trim (d :: s), ?_⟩
      rw [String.toList_ofList, Instruction.IsOther, hword]
      exact ⟨hne, hlookup⟩
    have hread := Instruction.reader_text hreadable
    rw [Instruction.text, String.toList_ofList] at hread
    exact isFreeLine_instruction hd hread

/-- A line number is read for itself. -/
theorem isFreeLine_lineNumber {gap : List Char} (hgap : IsGap gap) (n : UInt32) :
    IsFreeLine (".line".toList ++ (gap ++ (toString n.toNat).toList)) (item (.line n)) := by
  obtain ⟨htrimmed, -, hvalue⟩ := numberLine ".line".toList (by decide)
    (stops_cons.mpr (by decide)) (by decide) hgap n
  have htrim : trim (".line".toList ++ (gap ++ (toString n.toNat).toList)) =
      ".line".toList ++ (gap ++ (toString n.toNat).toList) := htrimmed
  have hline : ofLine? (".line".toList ++ (gap ++ (toString n.toNat).toList)) =
      some (item (.line n)) := by
    have hlocals : startsWith ".locals" (".line".toList ++ (gap ++ (toString n.toNat).toList)) =
        false := rfl
    rw [ofLine?, hlocals, if_neg (by decide), startsWith_append, if_pos rfl]
    exact congrArg (Option.map fun n => item (.line n)) hvalue
  exact ⟨⟨by simp, stops_cons.mpr (by decide), rfl, rfl, rfl, htrim.symm ▸ rfl, htrim.symm ▸ hline⟩,
    htrim.symm ▸ rfl⟩

/-- The words with which lines begin that are no directives of one line. -/
def reservedWords : List String :=
  [".annotation", ".locals", ".line", ".param", ".end method", ".array-data", ".packed-switch",
    ".sparse-switch"]

/-- A directive that begins with none of the reserved words is read for itself, without the blanks
behind it. -/
theorem isFreeLine_directive {x : List Char} (hdot : startsWith "." x = true)
    (hwords : ∀ word ∈ reservedWords, startsWith word x = false) :
    IsFreeLine x (item (.directive (String.ofList (trim x)))) := by
  obtain ⟨s, rfl⟩ : ∃ s, x = '.' :: s := exists_cons_of_startsWith rfl hdot
  have hblank : isBlank '.' = false := by decide
  -- What the text does not begin with, the trimmed text does not begin with.
  obtain ⟨ws, -, hs⟩ := exists_eq_trim_append (s := '.' :: s) (stops_cons.mpr hblank)
  have htrimmed : ∀ word ∈ reservedWords, startsWith word (trim ('.' :: s)) = false := by
    intro word hword
    have hx := hwords word hword
    rw [hs] at hx
    exact startsWith_eq_false_of_append hx
  obtain ⟨z, hz⟩ := exists_trim_cons hblank s
  have hcolon : startsWith ":" ('.' :: z) = false := startsWith_eq_false rfl (by decide)
  have hdot' : startsWith "." ('.' :: z) = true := startsWith_append "." z
  simp only [reservedWords, List.mem_cons, List.not_mem_nil, or_false, forall_eq_or_imp, forall_eq]
    at hwords htrimmed
  obtain ⟨-, hlocals, hline, hparam, -, harray, hpacked, hsparse⟩ := htrimmed
  refine ⟨⟨List.cons_ne_nil '.' s, stops_cons.mpr (by decide), startsWith_eq_false rfl (by decide),
    hwords.1, hwords.2.2.2.2.1, ?_, ?_⟩, hparam⟩
  · rw [dataEnd?, harray, hpacked, hsparse]
    rfl
  · rw [ofLine?, hlocals, hline, hz, hcolon, hdot']
    rfl

end Entry

/-! ### The lines of a body -/

/-- What a line of a body says, by the text on it without the spaces and tabs around that. -/
inductive Denotes : List Char → Option BodyItem → Prop where
  | blank : Denotes [] none
  | comment (s : List Char) : Denotes ('#' :: s) none
  | lineNumber {gap : List Char} (hgap : IsGap gap) (n : UInt32) :
      Denotes (".line".toList ++ (gap ++ (toString n.toNat).toList)) (some (.line n))
  | label {name : List Char} (hne : name ≠ []) (hchars : ∀ c ∈ name, Label.isNameChar c = true) :
      Denotes (':' :: name) (some (.label (String.ofList name)))
  | call {c : Call} {x : List Char} (hx : c.IsSpelled x) : Denotes x (some (.instruction (.call c)))
  | other {x : List Char} (hx : Instruction.IsOther x) :
      Denotes x (some (.instruction (.other (String.ofList (trim x)))))
  | directive {x : List Char} (hdot : startsWith "." x = true)
      (hwords : ∀ word ∈ Entry.reservedWords, startsWith word x = false) :
      Denotes x (some (.directive (String.ofList (trim x))))

/-- A line of a body in any layout. -/
structure BodyLine extends Margins where
  content : List Char
  /-- What the line says, if it says anything. -/
  item : Option BodyItem
  content_inLine : InLine content
  denotes : Denotes content item

namespace BodyLine

/-- The line with a text between its content and the spaces behind. -/
def textWith (l : BodyLine) (tail : List Char) : List Char :=
  l.around (l.content ++ tail)

/-- The line as it stands. -/
def text (l : BodyLine) : List Char :=
  l.textWith []

/-- The entries that the line is read as: a comment is one, too. -/
def entries (l : BodyLine) : List Entry :=
  match l.item with
  | some i => [.item i]
  | none => if l.content = [] then [] else [.comment]

/-- Whether a text behind an item is left unread: nothing else is behind most items. -/
def LeavesUnread : Option BodyItem → List Char → Prop
  | some (.label _), tail => Stops Label.isNameChar tail
  | some (.instruction (.call _)), _ => True
  | _, tail => tail = []

/-- Every line can be without a text that is left unread. -/
theorem leavesUnread_nil (i : Option BodyItem) : LeavesUnread i [] := by
  cases i with
  | none => rfl
  | some i =>
    cases i with
    | label => exact stops_nil
    | instruction i => cases i <;> trivial
    | _ => rfl

/-- A comment is an entry down to the line break. -/
theorem yields_comment {x : List Char} (hin : InLine x) (l : Margins) (behind : List Char) :
    Entry.Yields (l.around ('#' :: x)) [.comment] behind := by
  have hplace : afterLayout (l.around ('#' :: x) ++ behind) =
      '#' :: (x ++ l.back ++ (l.lineBreak ++ behind)) :=
    Margins.afterLayout_around (List.cons_ne_nil '#' x) (stops_cons.mpr (by decide)) l behind
  have hline : InLine (x ++ l.back) := inLine_append.mpr ⟨hin, l.back_isGap.inLine⟩
  have hcomment : Entry.commentReader ('#' :: (x ++ l.back ++ (l.lineBreak ++ behind))) =
      .ok (.comment, l.lineBreak ++ behind) := by
    refine Reader.bind_ok (Reader.literal_append "#" _) ?_
    exact Reader.bind_ok (Reader.run_append hline (l.isLineBreak.stops behind)) rfl
  have hread : Entry.reader ('#' :: (x ++ l.back ++ (l.lineBreak ++ behind))) =
      .ok (.comment, l.lineBreak ++ behind) :=
    hcomment
  refine Reader.yields_one ?_ ?_
  · rw [hplace]
    exact Reader.literal_fails rfl
  · rw [hplace]
    refine Reader.bind_ok hread ?_
    rw [Reader.bind_of_ok (Reader.layout_apply _), afterLayout_append l.isLineBreak.isLayout]
    rfl

/-- An item on a line is an entry by itself, with what is left unread behind it. -/
theorem isFreeLine {x tail : List Char} {i : BodyItem} (h : Denotes x (some i))
    (htail : LeavesUnread (some i) tail) : Entry.IsFreeLine (x ++ tail) (.item i) := by
  cases h with
  | lineNumber hgap n =>
    obtain rfl : tail = [] := htail
    rw [List.append_nil]
    exact Entry.isFreeLine_lineNumber hgap n
  | label hne hchars => exact Entry.isFreeLine_label hne hchars htail
  | call hx => exact Entry.isFreeLine_call hx tail
  | other hx =>
    obtain rfl : tail = [] := htail
    rw [List.append_nil]
    exact Entry.isFreeLine_other hx
  | directive hdot hwords =>
    obtain rfl : tail = [] := htail
    rw [List.append_nil]
    exact Entry.isFreeLine_directive hdot hwords

/-- A line yields its entries, with what is left unread on it. -/
theorem yields (l : BodyLine) {tail : List Char} (hin : InLine tail)
    (htail : LeavesUnread l.item tail) (behind : List Char) :
    Entry.Yields (l.textWith tail) l.entries behind := by
  obtain ⟨l, content, item, hcontent, h⟩ := l
  cases item with
  | some i =>
    have hfree := isFreeLine h htail
    exact hfree.yields (inLine_append.mpr ⟨hcontent, hin⟩) l (hfree.isClosedParam_eq behind)
  | none =>
    have htail : tail = [] := htail
    subst htail
    cases h with
    | blank =>
      refine Reader.yields_layout fun c hc => ?_
      simp only [textWith, Margins.around, List.mem_append, List.not_mem_nil, false_or] at hc
      obtain hc | hc | hc := hc
      · exact l.front_isGap.isLayout c hc
      · exact l.back_isGap.isLayout c hc
      · exact l.isLineBreak.isLayout c hc
    | comment s =>
      have htext : textWith ⟨l, '#' :: s, none, hcontent, .comment s⟩ [] = l.around ('#' :: s) := by
        simp [textWith]
      rw [htext]
      exact yields_comment (inLine_cons.mp hcontent).2 l behind

/-- Lines do not begin with an annotation if the text behind them does not. -/
theorem startsWith_lines {ls : List (BodyLine × List Char)}
    (hls : ∀ l ∈ ls, InLine l.2 ∧ LeavesUnread l.1.item l.2) {behind : List Char}
    (hbehind : startsWith ".annotation" (afterLayout behind) = false) :
    startsWith ".annotation" (afterLayout ((ls.flatMap fun l => l.1.textWith l.2) ++ behind)) =
      false := by
  induction ls with
  | nil => exact hbehind
  | cons l ls ih =>
    obtain ⟨-, htail⟩ := hls l List.mem_cons_self
    have hrest := ih fun l' hl' => hls l' (List.mem_cons_of_mem l hl')
    rw [List.flatMap_cons, List.append_assoc]
    obtain ⟨⟨l, content, item, hcontent, h⟩, tail⟩ := l
    cases item with
    | some i =>
      have hfree := isFreeLine h htail
      rw [textWith, Margins.afterLayout_around hfree.ne_nil hfree.stops]
      exact Margins.startsWith_around (by decide) (stops_cons.mpr (by decide)) hfree.not_annotated l _
    | none =>
      have htail : tail = [] := htail
      subst htail
      cases h with
      | blank =>
        rw [textWith, Margins.around, List.append_assoc, afterLayout_append l.front_isGap.isLayout,
          List.append_assoc, List.append_nil, List.nil_append, List.append_assoc,
          afterLayout_append l.back_isGap.isLayout, afterLayout_append l.isLineBreak.isLayout]
        exact hrest
      | comment s =>
        rw [textWith, Margins.around, List.append_assoc, afterLayout_append l.front_isGap.isLayout]
        exact startsWith_eq_false rfl (by decide)

/-- Lines yield their entries one after another. -/
theorem yields_lines {ls : List (BodyLine × List Char)}
    (hls : ∀ l ∈ ls, InLine l.2 ∧ LeavesUnread l.1.item l.2) (behind : List Char) :
    Entry.Yields (ls.flatMap fun l => l.1.textWith l.2) (ls.flatMap fun l => l.1.entries) behind :=
  Reader.yields_flatMap (eachInPlace_of_forall fun l hl s => l.1.yields (hls l hl).1 (hls l hl).2 s)

/-- The entries that lines are read as are the items that the lines denote, and comments. -/
theorem withFurther_entries (m : Method) (ls : List BodyLine) :
    m.withFurther (ls.flatMap entries) = { m with body := m.body ++ ls.filterMap item } := by
  have hentries (l : BodyLine) : l.entries.filterMap Entry.locals? = [] ∧
      l.entries.filterMap Entry.block? = [] ∧ l.entries.filterMap Entry.item? = l.item.toList := by
    unfold entries
    cases l.item with
    | some i => exact ⟨rfl, rfl, rfl⟩
    | none =>
      dsimp only
      split <;> exact ⟨rfl, rfl, rfl⟩
  have hlocals : (ls.flatMap entries).filterMap Entry.locals? = [] := by
    simp [List.filterMap_flatMap, hentries]
  have hblocks : (ls.flatMap entries).filterMap Entry.block? = [] := by
    simp [List.filterMap_flatMap, hentries]
  have hitems : (ls.flatMap entries).filterMap Entry.item? = ls.filterMap item := by
    rw [List.filterMap_flatMap, List.filterMap_eq_flatMap_toList]
    simp only [hentries]
  simp [Method.withFurther, hlocals, hblocks, hitems]

end BodyLine

namespace ClassDef

variable {c : ClassDef} {m : Method}

/-- Lines within a method add the items that they denote to its body, whatever is left unread on
them. -/
theorem read_linesWith (hc : c.WellFormed) (hm : m.WellFormed) {ls : List (BodyLine × List Char)}
    (hls : ∀ l ∈ ls, InLine l.2 ∧ BodyLine.LeavesUnread l.1.item l.2) :
    read (c.textWith m (ls.flatMap fun l => l.1.textWith l.2)) =
      .ok { c with methods := c.methods ++
        [{ m with body := m.body ++ (ls.map Prod.fst).filterMap BodyLine.item }] } := by
  have hclosing : startsWith ".annotation" (afterLayout (Method.closingText [])) = false := by
    rw [afterLayout_of_stops (Method.stops_closingText [])]
    rfl
  rw [read_textWith hc hm (BodyLine.startsWith_lines hls hclosing) (BodyLine.yields_lines hls _),
    ← List.flatMap_map, BodyLine.withFurther_entries]

/-- A body is read line by line, whatever the layout of the lines: a document that ends with a
method with the lines in it is read, and the body of that method is what the lines denote, in
order. -/
theorem read_bodyLines (hc : c.WellFormed) (hm : m.WellFormed) (ls : List BodyLine) :
    read (c.textWith m (ls.flatMap BodyLine.text)) =
      .ok { c with methods := c.methods ++
        [{ m with body := m.body ++ ls.filterMap BodyLine.item }] } := by
  have hls : ∀ l ∈ ls.map fun l => (l, ([] : List Char)),
      InLine l.2 ∧ BodyLine.LeavesUnread l.1.item l.2 := by
    intro l hl
    obtain ⟨l, -, rfl⟩ := List.mem_map.mp hl
    exact ⟨inLine_nil, BodyLine.leavesUnread_nil l.item⟩
  have hread := read_linesWith hc hm hls
  rw [List.flatMap_map, List.map_map, Function.comp_def, List.map_id'] at hread
  exact hread

/-- A class with nothing in it. -/
def bareClass : ClassDef :=
  ⟨⟨"a"⟩, [.public], none, none, [], [], [], []⟩

/-- The class is well-formed. -/
theorem bareClass_wellFormed : bareClass.WellFormed := by
  constructor <;> simp [bareClass]
  decide

/-- A method with the number of its registers and nothing else in it. -/
def plainMethod : Method :=
  ⟨"run", [.public], false, ⟨[], .primitive .void⟩, some 2, [], []⟩

/-- The method is well-formed. -/
theorem plainMethod_wellFormed : plainMethod.WellFormed :=
  ⟨by decide, by simp [plainMethod]; decide, ⟨by simp [plainMethod], trivial⟩, by simp [plainMethod],
    by simp [plainMethod]⟩

/-- A call over a range of registers. -/
def rangeCall : Call :=
  ⟨.static, .range (.frame 0) (.frame 3), ⟨"La;", "m", ⟨[], .primitive .void⟩⟩⟩

/-- A spelling of that call with spaces and tabs wherever they may stand. -/
theorem isSpelled_rangeCall :
    rangeCall.IsSpelled "invoke-static/range\t\x7b v0\t..  v3 \x7d , La; -> m()V".toList := by
  have hoperands : rangeCall.operands.IsSpelled ('\x7b' :: ([' '] ++ (['v', '0'] ++ (['\t'] ++
      ('.' :: '.' :: ([' ', ' '] ++ (['v', '3'] ++ ([' '] ++ ['\x7d'])))))))) :=
    .range (by decide) (Register.frame 0).isSpelled_text (by decide) (by decide)
      (Register.frame 3).isSpelled_text (by decide)
  have hcallee : rangeCall.callee.IsSpelled "La; -> m()V".toList :=
    ⟨⟨by simp [rangeCall], trivial⟩, "La; ".toList, " m".toList, by decide, by decide, by decide,
      by decide, by decide⟩
  exact ⟨['\t'], _, " , ".toList, _, by decide, by decide, hoperands,
    ⟨[' '], [' '], by decide, by decide, rfl⟩, hcallee, stops_cons.mpr (by decide), by decide⟩

/-- A line with that call. -/
def callLine (l : Margins) : BodyLine :=
  ⟨l, "invoke-static/range\t\x7b v0\t..  v3 \x7d , La; -> m()V".toList,
    some (.instruction (.call rangeCall)), by decide, .call isSpelled_rangeCall⟩

/-- A line with another instruction. -/
def returnLine (l : Margins) : BodyLine :=
  ⟨l, "return-void".toList, some (.instruction (.other "return-void")), by decide,
    .other ⟨by decide +kernel, by decide +kernel⟩⟩

/-- Lines of each kind in different layouts: blank, a comment, a line number, a label, a call,
another instruction and a directive. -/
def sampleLines : List BodyLine :=
  [⟨⟨[' ', '\t'], [], ['\r', '\n'], by decide, by decide, .inr rfl⟩, [], none, by decide, .blank⟩,
    ⟨⟨[], [' '], ['\n'], by decide, by decide, .inl rfl⟩, "# code".toList, none, by decide,
      .comment _⟩,
    ⟨⟨['\t'], [], ['\n'], by decide, by decide, .inl rfl⟩,
      ".line".toList ++ ([' ', ' '] ++ (toString (7 : UInt32).toNat).toList), some (.line 7),
      by decide, .lineNumber (by decide) 7⟩,
    ⟨⟨[], ['\t', ' '], ['\r', '\n'], by decide, by decide, .inr rfl⟩, ':' :: "a_0".toList,
      some (.label "a_0"), by decide, .label (by decide) (List.all_eq_true.mp (by decide))⟩,
    callLine ⟨[' '], [' '], ['\r', '\n'], by decide, by decide, .inr rfl⟩,
    returnLine ⟨[' '], [' '], ['\n'], by decide, by decide, .inl rfl⟩,
    ⟨⟨[], [], ['\n'], by decide, by decide, .inl rfl⟩, ".prologue".toList,
      some (.directive ".prologue"), by decide, .directive rfl (by decide)⟩]

/-- The lines are read in a method of the specimen. -/
theorem read_bodyLines_sample :
    specimen.WellFormed ∧ plainMethod.WellFormed ∧
      read (specimen.textWith plainMethod (sampleLines.flatMap BodyLine.text)) =
        .ok { specimen with methods := specimen.methods ++ [{ plainMethod with body :=
          [.line 7, .label "a_0", .instruction (.call rangeCall),
            .instruction (.other "return-void"), .directive ".prologue"] }] } :=
  ⟨specimen_wellFormed, plainMethod_wellFormed,
    read_bodyLines specimen_wellFormed plainMethod_wellFormed sampleLines⟩

end ClassDef

end GatedCalls
