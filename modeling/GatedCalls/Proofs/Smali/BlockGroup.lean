import GatedCalls.Proofs.Smali.BodyLine

/-!
# Annotations that may be closed off

Behind the line of a parameter or of a field there can be annotations. The line owns them if the
words for it close them off, and leaves them to the method or the class if not. Which of the two it
is shows by reading ahead: `BlockGroup.closedReader_belowText` and its companion say when that
succeeds.
-/

namespace GatedCalls

open Text

/-! ### Printed annotations -/

/-- An annotation printed with an indentation, which is read off its text whatever stands behind. -/
structure PrintedBlock where
  indent : String
  block : AnnotationBlock
  /-- The indentation is made of spaces. -/
  eq_space : ∀ c ∈ indent.toList, c = ' '
  /-- The reader takes the annotation and the layout behind it. -/
  readsBack : ∀ behind, AnnotationBlock.reader false (block.outerText indent ++ behind) =
    .ok (block, afterLayout behind)

namespace PrintedBlock

/-- Every well-formed annotation is read off its text whatever stands behind. -/
def ofWellFormed (indent : String) (a : AnnotationBlock) (hindent : ∀ c ∈ indent.toList, c = ' ')
    (ha : a.WellFormed false) : PrintedBlock :=
  ⟨indent, a, hindent, fun _ => AnnotationBlock.reader_print hindent a (ha.legible hindent) rfl⟩

/-- The printed annotation. -/
def text (b : PrintedBlock) : List Char :=
  b.block.outerText b.indent

/-- The annotation is read off its text behind any layout. -/
theorem reader_text (b : PrintedBlock) {u behind : List Char}
    (hu : afterLayout u = afterLayout (b.text ++ behind)) :
    AnnotationBlock.reader false u = .ok (b.block, afterLayout behind) := by
  rw [AnnotationBlock.reader_congr hu]
  exact b.readsBack behind

/-- The printed annotation begins with its first word. -/
theorem exists_afterLayout_text (b : PrintedBlock) (behind : List Char) :
    ∃ s, afterLayout (b.text ++ behind) = ".annotation".toList ++ s :=
  AnnotationBlock.afterLayout_outerText b.eq_space b.block behind

/-- The printed annotation is made up of its lines. -/
theorem lined_text (b : PrintedBlock) : Lined (lines b.text) b.text := by
  refine lined_lines ?_
  obtain ⟨indent, ⟨visibility, type, elements⟩, -, -⟩ := b
  rw [text, AnnotationBlock.outerText, AnnotationBlock.print, String.toList_append]
  exact List.getLast?_concat

/-- Printed annotations are made up of the lines of each. -/
theorem lined_flatMap (bs : List PrintedBlock) :
    Lined (bs.flatMap fun b => lines b.text) (bs.flatMap text) := by
  induction bs with
  | nil => exact .nil
  | cons b bs ih => exact b.lined_text.append ih

/-- In a method a printed annotation is an entry. -/
theorem yields_entry (b : PrintedBlock) (behind : List Char) :
    Entry.Yields b.text [.annotated b.block] behind := by
  obtain ⟨s, hs⟩ := b.exists_afterLayout_text behind
  have hread := b.reader_text (afterLayout_afterLayout (b.text ++ behind))
  rw [hs] at hread
  have hannotated : Entry.annotationReader (".annotation".toList ++ s) =
      .ok (.annotated b.block, afterLayout behind) :=
    Reader.bind_ok hread rfl
  have hentry : Entry.reader (".annotation".toList ++ s) =
      .ok (.annotated b.block, afterLayout behind) := by
    rw [Entry.reader, startsWith_append]
    exact hannotated
  refine Reader.yields_one ?_ ?_
  · rw [hs]
    exact Reader.literal_fails rfl
  · rw [hs]
    refine Reader.bind_ok hentry ?_
    rw [Reader.bind_of_ok (Reader.layout_apply _), afterLayout_afterLayout]
    rfl

/-- At the top level a printed annotation is one of the class. -/
theorem yields_statement (b : PrintedBlock) (behind : List Char) :
    Statement.Yields b.text [.annotated b.block] behind := by
  obtain ⟨s, hs⟩ := b.exists_afterLayout_text behind
  have hread := b.reader_text (afterLayout_afterLayout (b.text ++ behind))
  rw [hs] at hread
  have hplace : Statement.ReadInPlace (b.block.print false b.indent, .annotated b.block) behind :=
    Statement.readInPlace_annotated_of_reader hs hread (afterLayout_afterLayout behind)
  exact Reader.yields_one hplace.endOfText_fails hplace

end PrintedBlock

/-! ### Annotations that may be closed off -/

/-- Whether neither an annotation nor the words that close annotations off stand first in a text. -/
def IsOutside (word : String) (s : List Char) : Prop :=
  startsWith ".annotation" (afterLayout s) = false ∧ startsWith word (afterLayout s) = false

/-- The end of a method stands first where it stands. -/
theorem isOutside_closingText : IsOutside ".end param" (Method.closingText []) := by
  rw [IsOutside, afterLayout_of_stops (Method.stops_closingText [])]
  exact ⟨rfl, rfl⟩

/-- Annotations behind a line that can own them. It does if another line closes them off, with the
margins given. -/
structure BlockGroup where
  blocks : List PrintedBlock
  /-- What stands around the words on the closing line, if there is one. -/
  closing : Option Margins
  /-- A closing line has annotations to close off. -/
  blocks_ne_nil : closing ≠ none → blocks ≠ []

namespace BlockGroup

/-- The annotations and the line that closes them off, if there is one. -/
def belowText (word : String) (g : BlockGroup) : List Char :=
  g.blocks.flatMap PrintedBlock.text ++
    match g.closing with
    | some l => l.around word.toList
    | none => []

/-- The annotations that the line owns. -/
def owned (g : BlockGroup) : List AnnotationBlock :=
  match g.closing with
  | some _ => g.blocks.map PrintedBlock.block
  | none => []

/-- The annotations that the line leaves to what it stands in. -/
def left (g : BlockGroup) : List AnnotationBlock :=
  match g.closing with
  | some _ => []
  | none => g.blocks.map PrintedBlock.block

variable {word : String} {behind : List Char}

/-- The annotations in front of the line that closes them off. -/
theorem belowText_append (g : BlockGroup) {l : Margins} (hg : g.closing = some l)
    (behind : List Char) : g.belowText word ++ behind =
      g.blocks.flatMap PrintedBlock.text ++ (l.around word.toList ++ behind) := by
  rw [belowText, hg, List.append_assoc]

/-- The annotations are read ahead if a line closes them off. -/
theorem closedReader_belowText (g : BlockGroup) {l : Margins} (hg : g.closing = some l)
    (hword : word.toList ≠ []) (hstop : Stops isLayout word.toList)
    (hannotated : ∀ s, startsWith ".annotation" (word.toList ++ s) = false) (behind : List Char) :
    AnnotationBlock.closedReader word (g.belowText word ++ behind) =
      .ok (g.owned, afterLayout behind) := by
  have hne : g.blocks ≠ [] := g.blocks_ne_nil (by simp [hg])
  have hrest := Margins.afterLayout_around hword hstop l behind
  rw [List.append_assoc] at hrest
  have hread := AnnotationBlock.closedReader_of_reader (fun b _ _ _ hu => PrintedBlock.reader_text b hu)
    hne (eachInPlace_of_forall fun _ _ _ => trivial) rfl hrest (hannotated _)
  rw [g.belowText_append hg, hread, afterLayout_append l.back_isGap.isLayout,
    afterLayout_append l.isLineBreak.isLayout, owned, hg]

/-- Nothing is read ahead if no line closes the annotations off. -/
theorem closedReader_belowText_fails (g : BlockGroup) (hg : g.closing = none)
    (h : IsOutside word behind) :
    (AnnotationBlock.closedReader word).Fails (g.belowText word ++ behind) := by
  rw [belowText, hg, List.append_nil]
  exact AnnotationBlock.closedReader_fails_of_reader (fun b _ _ _ hu => PrintedBlock.reader_text b hu)
    (eachInPlace_of_forall fun _ _ _ => trivial) rfl h.1 h.2

/-- In a method, annotations that no line closes off are entries. -/
theorem yields_entries (g : BlockGroup) (hg : g.closing = none) (behind : List Char) :
    Entry.Yields (g.belowText word) (g.left.map .annotated) behind := by
  have hyields : Entry.Yields (g.blocks.flatMap PrintedBlock.text)
      (g.blocks.flatMap fun b => [.annotated b.block]) behind :=
    Reader.yields_flatMap (eachInPlace_of_forall fun b _ s => b.yields_entry s)
  rw [← List.map_eq_flatMap] at hyields
  rw [belowText, left, hg, List.append_nil, List.map_map]
  exact hyields

/-- At the top level, annotations that no line closes off are those of the class. -/
theorem yields_statements (g : BlockGroup) (hg : g.closing = none) (behind : List Char) :
    Statement.Yields (g.belowText word) (g.left.map .annotated) behind := by
  have hyields : Statement.Yields (g.blocks.flatMap PrintedBlock.text)
      (g.blocks.flatMap fun b => [.annotated b.block]) behind :=
    Reader.yields_flatMap (eachInPlace_of_forall fun b _ s => b.yields_statement s)
  rw [← List.map_eq_flatMap] at hyields
  rw [belowText, left, hg, List.append_nil, List.map_map]
  exact hyields

end BlockGroup

end GatedCalls
