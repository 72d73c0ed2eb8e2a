import Mathlib.Tactic.Push
import GatedCalls.Proofs.Smali.BlockGroup

/-!
# Parameters with annotations behind them

A parameter and the annotations that it owns are kept as the text of their lines. What has been read
ahead of these annotations is therefore dropped, and they are taken once more, line by line. A
carriage return can stand in a string of an annotation but not in a line, so a parameter that owns
such an annotation makes its method unreadable.
-/

namespace GatedCalls

open Text

/-- A line with a parameter and the annotations behind it, which a line with the words `.end param`
may close off. -/
structure ParamGroup extends BlockGroup where
  margins : Margins
  content : List Char
  content_inLine : InLine content
  isParam : startsWith ".param" content = true
  /-- No line of an annotation is taken for the closing one. -/
  startsWith_eq : ∀ b ∈ blocks, ∀ l ∈ lines b.text, startsWith ".end param" (trim l) = false

namespace ParamGroup

/-- The group as it stands. -/
def text (g : ParamGroup) : List Char :=
  g.margins.around g.content ++ g.belowText ".end param"

/-- The lines of a group, without the blanks around them and without those that are blank. -/
def blockLines (g : ParamGroup) : List (List Char) :=
  ((lines g.text).map trim).filter (! ·.isEmpty)

/-- What a group is in the body of its method: all its lines if it is closed off, and the line of
the parameter if not. -/
def item (g : ParamGroup) : BodyItem :=
  match g.closing with
  | some _ => .directive (joinLines (g.blockLines.map String.ofList))
  | none => .directive (String.ofList (trim g.content))

/-- The entries that a group is read as. -/
def entries (g : ParamGroup) : List Entry :=
  .item g.item :: g.left.map .annotated

/-- Whether the lines of a group can be taken as lines if they have to be: no carriage return stands
in those of a group that is closed off. -/
def IsReadable (g : ParamGroup) : Prop :=
  g.closing ≠ none → ∀ b ∈ g.blocks, ∀ l ∈ lines b.text, '\r' ∉ l

variable {behind : List Char}

/-- The line of a parameter begins with the word for it. -/
theorem exists_content (g : ParamGroup) :
    ∃ s z, g.content = ".param".toList ++ s ∧ trim g.content = ".param".toList ++ z := by
  obtain ⟨s, hs⟩ := startsWith_iff.mp g.isParam
  obtain ⟨z, -, hz⟩ := exists_trim_append (s := ".param".toList) (by decide) (by decide) s
  exact ⟨s, z, hs, by rw [hs, hz]⟩

/-- The text on the line of a parameter is a directive by itself. -/
theorem isOwnLine (g : ParamGroup) :
    Entry.IsOwnLine g.content (.item (.directive (String.ofList (trim g.content)))) := by
  obtain ⟨s, z, hs, hz⟩ := g.exists_content
  rw [hz, hs]
  exact ⟨by simp, stops_cons.mpr (by decide), rfl, rfl, rfl, by rw [← hs, hz]; rfl,
    by rw [← hs, hz]; rfl⟩

/-- The group and the text behind it, with the indentation passed over. -/
theorem afterLayout_text (g : ParamGroup) (behind : List Char) :
    afterLayout (g.text ++ behind) = g.content ++ g.margins.back ++ (g.margins.lineBreak ++
      (g.belowText ".end param" ++ behind)) := by
  rw [text, List.append_assoc, Margins.afterLayout_around g.isOwnLine.ne_nil g.isOwnLine.stops]

/-- A group does not end the method. -/
theorem closing_fails (g : ParamGroup) (behind : List Char) :
    Method.closing.Fails (afterLayout (g.text ++ behind)) := by
  rw [afterLayout_text]
  exact Reader.literal_fails (Margins.startsWith_around (by decide) (stops_cons.mpr (by decide))
    g.isOwnLine.not_closing g.margins _)

/-- A group that is not closed off is the line of the parameter and the annotations behind it. -/
theorem yields_open (g : ParamGroup) (hg : g.closing = none) (h : IsOutside ".end param" behind) :
    Entry.Yields g.text g.entries behind := by
  have hparam : Entry.isClosedParam (trim g.content) (g.belowText ".end param" ++ behind) = false := by
    obtain ⟨e, he⟩ := g.closedReader_belowText_fails hg h
    rw [Entry.isClosedParam, he, Bool.and_false]
  have hitem : g.item = .directive (String.ofList (trim g.content)) := by rw [item, hg]
  rw [entries, hitem]
  exact (g.isOwnLine.yields g.content_inLine g.margins hparam).append (g.yields_entries hg behind)

/-- The line of a parameter that is closed off is read as a block with the lines behind it. -/
theorem reader_closed (g : ParamGroup) {l : Margins} (hg : g.closing = some l) (behind : List Char) :
    Entry.reader (afterLayout (g.text ++ behind)) =
      Entry.directiveReader ".end param" (afterLayout (g.text ++ behind)) := by
  have hbehind : AnnotationBlock.closedReader ".end param" (g.belowText ".end param" ++ behind) =
      .ok (g.owned, afterLayout behind) :=
    g.closedReader_belowText hg (by decide) (stops_cons.mpr (by decide)) (fun _ => rfl) behind
  have htrim : trim (g.content ++ g.margins.back) = trim g.content :=
    trim_append_of_isBlank g.margins.back_isGap.isBlank g.content
  have hparam : Entry.isClosedParam (trim g.content) (g.belowText ".end param" ++ behind) = true := by
    obtain ⟨s, z, -, hz⟩ := g.exists_content
    rw [Entry.isClosedParam, hz, startsWith_append, hbehind]
    rfl
  have hcomment := Margins.startsWith_around (by decide) (stops_cons.mpr (by decide))
    g.isOwnLine.not_comment g.margins
  have hannotated := Margins.startsWith_around (by decide) (stops_cons.mpr (by decide))
    g.isOwnLine.not_annotated g.margins
  have hin : InLine (g.content ++ g.margins.back) :=
    inLine_append.mpr ⟨g.content_inLine, g.margins.back_isGap.inLine⟩
  rw [afterLayout_text, Entry.reader, hcomment, hannotated, if_neg (by decide), if_neg (by decide),
    Entry.lineReader, Reader.line_append_lineBreak hin g.margins.isLineBreak]
  simp only [htrim, g.isOwnLine.not_data, hparam, if_true]

/-- The text of a group down to the line that closes it off, with the indentation passed over, and
the lines of which it is made up. -/
theorem lined_text (g : ParamGroup) :
    Lined ((g.content ++ g.margins.back) :: g.blocks.flatMap fun b => lines b.text)
      (g.content ++ g.margins.back ++ g.margins.lineBreak ++ g.blocks.flatMap PrintedBlock.text) :=
  (lined_singleton (inLine_append.mpr ⟨g.content_inLine, g.margins.back_isGap.inLine⟩)
    g.margins.isLineBreak).append (PrintedBlock.lined_flatMap g.blocks)

/-- Only the last line of a group closes it off. -/
theorem startsWith_line (g : ParamGroup) :
    ∀ l ∈ (g.content ++ g.margins.back) :: g.blocks.flatMap fun b => lines b.text,
      startsWith ".end param" (trim l) = false := by
  refine List.forall_mem_cons.mpr ⟨?_, fun l hl => ?_⟩
  · obtain ⟨s, z, -, hz⟩ := g.exists_content
    rw [trim_append_of_isBlank g.margins.back_isGap.isBlank, hz]
    rfl
  · obtain ⟨b, hb, hl⟩ := List.mem_flatMap.mp hl
    exact g.startsWith_eq b hb l hl

/-- The lines of a group that is closed off, and the last one. -/
theorem blockLines_eq (g : ParamGroup) {l : Margins} (hg : g.closing = some l) :
    g.blockLines = (((g.content ++ g.margins.back) :: g.blocks.flatMap fun b => lines b.text).map
      trim).filter (! ·.isEmpty) ++ [".end param".toList] := by
  have hlined : Lined ([g.margins.front ++ (g.content ++ g.margins.back)] ++
      ((g.blocks.flatMap fun b => lines b.text) ++ [l.front ++ (".end param".toList ++ l.back)])) g.text := by
    rw [text, BlockGroup.belowText, hg]
    exact (g.margins.lined_around g.content_inLine).append
      ((PrintedBlock.lined_flatMap g.blocks).append (l.lined_around (by decide)))
  have hlast : trim (l.front ++ (".end param".toList ++ l.back)) = ".end param".toList :=
    (l.trim_line _).trans (by decide)
  have hfirst : trim (g.margins.front ++ (g.content ++ g.margins.back)) =
      trim (g.content ++ g.margins.back) :=
    trim_append g.margins.front_isGap.isBlank _
  rw [blockLines, hlined.lines_eq, List.map_append, List.map_append, List.map_cons, List.map_nil,
    List.map_cons, List.map_nil, hfirst, hlast, List.map_cons, ← List.append_assoc,
    List.filter_append, List.singleton_append]
  rfl

/-- A group that is closed off is one directive, with all its lines. -/
theorem yields_closed (g : ParamGroup) {l : Margins} (hg : g.closing = some l) (h : g.IsReadable)
    (behind : List Char) : Entry.Yields g.text g.entries behind := by
  have hlines : ∀ l ∈ (g.content ++ g.margins.back) :: g.blocks.flatMap fun b => lines b.text,
      InLine l ∧ startsWith ".end param" (trim l) = false := by
    intro x hx
    refine ⟨?_, g.startsWith_line x hx⟩
    have hfeed := g.lined_text.not_mem x hx
    obtain rfl | hx := List.mem_cons.mp hx
    · exact inLine_append.mpr ⟨g.content_inLine, g.margins.back_isGap.inLine⟩
    · obtain ⟨b, hb, hx⟩ := List.mem_flatMap.mp hx
      exact inLine_of_not_mem hfeed (h (by simp [hg]) b hb x hx)
  have hlast : InLine (l.front ++ (".end param".toList ++ l.back)) :=
    inLine_append.mpr ⟨l.front_isGap.inLine, inLine_append.mpr ⟨by decide, l.back_isGap.inLine⟩⟩
  have htrim : trim (l.front ++ (".end param".toList ++ l.back)) = ".end param".toList :=
    (l.trim_line _).trans (by decide)
  have hread := blockReader_lined g.lined_text hlines hlast l.isLineBreak (by rw [htrim]; decide) behind
  rw [htrim] at hread
  have hplace : afterLayout (g.text ++ behind) = g.content ++ g.margins.back ++
      g.margins.lineBreak ++ g.blocks.flatMap PrintedBlock.text ++
        (l.front ++ (".end param".toList ++ l.back) ++ (l.lineBreak ++ behind)) := by
    rw [afterLayout_text, g.belowText_append hg, Margins.around]
    simp only [List.append_assoc]
  have hitem : g.item = .directive (blockText ((((g.content ++ g.margins.back) ::
      g.blocks.flatMap fun b => lines b.text).map trim).filter (! ·.isEmpty)) ".end param".toList) := by
    rw [item, hg, blockText, ← g.blockLines_eq hg]
  have hentries : g.entries = [.item g.item] := by
    rw [entries, BlockGroup.left, hg]
    rfl
  rw [hentries]
  refine Reader.yields_one (g.closing_fails behind) ?_
  have hentry : Entry.reader (afterLayout (g.text ++ behind)) = .ok (.item g.item, behind) := by
    rw [g.reader_closed hg, hplace, hitem]
    exact Reader.bind_ok hread rfl
  exact Reader.bind_ok hentry rfl

/-- A group that is closed off and cannot be taken as lines is not read. -/
theorem unreadable (g : ParamGroup) (h : ¬g.IsReadable) (behind : List Char) :
    Entry.Unreadable (g.text ++ behind) := by
  unfold IsReadable at h
  push Not at h
  obtain ⟨hg, b, hb, x, hx, hreturn⟩ := h
  obtain ⟨l, hg⟩ := Option.ne_none_iff_exists'.mp hg
  have hbroken : ∃ x ∈ (g.content ++ g.margins.back) :: g.blocks.flatMap fun b => lines b.text,
      ¬InLine x := by
    refine ⟨x, List.mem_cons_of_mem _ (List.mem_flatMap.mpr ⟨b, hb, hx⟩), fun hin => ?_⟩
    exact absurd (hin _ hreturn) (by decide)
  have hplace : afterLayout (g.text ++ behind) = g.content ++ g.margins.back ++
      g.margins.lineBreak ++ g.blocks.flatMap PrintedBlock.text ++
        (l.around ".end param".toList ++ behind) := by
    rw [afterLayout_text, g.belowText_append hg]
    simp only [List.append_assoc]
  have hfails : Entry.spacedReader.Fails (afterLayout (g.text ++ behind)) := by
    refine Reader.Fails.bind ?_
    obtain ⟨e, he⟩ : (Entry.directiveReader ".end param").Fails (afterLayout (g.text ++ behind)) := by
      rw [hplace]
      exact (blockReader_fails g.lined_text g.startsWith_line hbroken _).bind
    exact ⟨e, by rw [g.reader_closed hg, he]⟩
  intro start
  obtain ⟨e, he⟩ := g.closing_fails behind
  obtain ⟨e', he'⟩ := hfails
  refine ⟨e', Reader.manyTill_of_error he ?_ he'⟩
  rw [hplace]
  simp [g.isOwnLine.ne_nil]

/-! ### Groups one behind another -/

/-- A group is what it should be if it can be taken as lines where it has to be. -/
theorem yields (g : ParamGroup) (h : g.IsReadable) (hbehind : IsOutside ".end param" behind) :
    Entry.Yields g.text g.entries behind := by
  cases hg : g.closing with
  | none => exact g.yields_open hg hbehind
  | some l => exact g.yields_closed hg h behind

/-- Behind a group neither an annotation nor the words that close one off stand. -/
theorem isOutside_flatMap (gs : List ParamGroup) (h : IsOutside ".end param" behind) :
    IsOutside ".end param" (gs.flatMap text ++ behind) := by
  cases gs with
  | nil => exact h
  | cons g gs =>
    obtain ⟨s, -, hs, -⟩ := g.exists_content
    rw [IsOutside, List.flatMap_cons, List.append_assoc, afterLayout_text, hs]
    exact ⟨rfl, rfl⟩

/-- Groups yield what each of them does. -/
theorem yields_flatMap {gs : List ParamGroup} (h : ∀ g ∈ gs, g.IsReadable)
    (hbehind : IsOutside ".end param" behind) :
    Entry.Yields (gs.flatMap text) (gs.flatMap entries) behind := by
  induction gs with
  | nil => exact Reader.yields_layout nofun
  | cons g gs ih =>
    obtain ⟨hg, hgs⟩ := List.forall_mem_cons.mp h
    exact (g.yields hg (isOutside_flatMap gs hbehind)).append (ih hgs)

/-- Groups are not read if one of them is not. -/
theorem unreadable_flatMap {gs : List ParamGroup} (h : ¬∀ g ∈ gs, g.IsReadable)
    (hbehind : IsOutside ".end param" behind) : Entry.Unreadable (gs.flatMap text ++ behind) := by
  induction gs with
  | nil => exact absurd nofun h
  | cons g gs ih =>
    rw [List.flatMap_cons, List.append_assoc]
    by_cases hg : g.IsReadable
    · have hgs : ¬∀ g ∈ gs, g.IsReadable := fun hgs => h (List.forall_mem_cons.mpr ⟨hg, hgs⟩)
      exact Entry.Unreadable.append (g.yields hg (isOutside_flatMap gs hbehind)) (ih hgs)
    · exact g.unreadable hg _

/-- Groups add their items and the annotations that are not closed off to a method. -/
theorem withFurther_entries (m : Method) (gs : List ParamGroup) :
    m.withFurther (gs.flatMap entries) =
      { m with annotations := m.annotations ++ gs.flatMap fun g => g.left,
               body := m.body ++ gs.map item } := by
  have hlocals : (gs.flatMap entries).filterMap Entry.locals? = [] := by
    rw [List.filterMap_flatMap, List.flatMap_eq_nil_iff]
    exact fun g _ => filterMap_map_none (fun _ => rfl) g.left
  have hblocks (g : ParamGroup) : g.entries.filterMap Entry.block? = g.left :=
    filterMap_map_some (f := Entry.annotated) (g := Entry.block?) (fun _ => rfl) g.left
  have hitems (g : ParamGroup) : g.entries.filterMap Entry.item? = [g.item] :=
    congrArg (g.item :: ·) (filterMap_map_none (fun _ => rfl) g.left)
  rw [Method.withFurther, hlocals]
  simp [List.filterMap_flatMap, hblocks, hitems, ← List.map_eq_flatMap]

end ParamGroup

namespace ClassDef

variable {c : ClassDef} {m : Method}

/-- A document with groups in its last method is read with what these are, if they all can be
read. -/
theorem read_paramGroups (hc : c.WellFormed) (hm : m.WellFormed) {gs : List ParamGroup}
    (h : ∀ g ∈ gs, g.IsReadable) :
    read (c.textWith m (gs.flatMap ParamGroup.text)) =
      .ok { c with methods := c.methods ++
        [{ m with annotations := m.annotations ++ gs.flatMap fun g => g.left,
                  body := m.body ++ gs.map ParamGroup.item }] } := by
  rw [read_textWith hc hm (ParamGroup.isOutside_flatMap gs isOutside_closingText).1
    (ParamGroup.yields_flatMap h isOutside_closingText), ParamGroup.withFurther_entries]

/-- A document with groups in its last method is not read if one of them cannot be read. -/
theorem read_paramGroups_fails (hc : c.WellFormed) (hm : m.WellFormed) {gs : List ParamGroup}
    (h : ¬∀ g ∈ gs, g.IsReadable) : ∃ f, read (c.textWith m (gs.flatMap ParamGroup.text)) = .error f :=
  read_textWith_fails hc hm (ParamGroup.isOutside_flatMap gs isOutside_closingText).1
    (ParamGroup.unreadable_flatMap h isOutside_closingText)

end ClassDef

end GatedCalls
