import GatedCalls.Proofs.Smali.Annotation
import GatedCalls.Proofs.Smali.Exact.Array

/-!
# Annotations that are read back are legible

The converse of `AnnotationBlock.reader_print`. The name of an enumeration can be read over several
lines, of which the reader leaves all but the first one unread when it comes to the type of a
constant; what it would make of them is not told by the constant alone, so the constants have to be
on one line each (`AnnotationBlock.ConstantsInLine`).
-/

namespace GatedCalls

open Text

/-! ### Annotations that have been read -/

namespace AnnotationBlock

variable {nested : Bool} {s t : List Char}

/-- An annotation that has been read is its first line and its elements. -/
theorem reader_eq_ok {visibility : Visibility} {type : JavaType} {elements : List Element}
    (h : reader nested s = .ok (⟨visibility, type, elements⟩, t)) :
    ∃ u, headerReader nested s = .ok ((visibility, type), u) ∧
      elementsReader nested u = .ok (elements, t) := by
  rw [reader_apply] at h
  split at h
  · cases h
  · next u hheader =>
    split at h
    · cases h
    · next helements =>
      cases h
      exact ⟨u, hheader, helements⟩

/-- The type of an annotation that has been read has a name on one line. -/
theorem typeReader_eq_ok {type : JavaType} (h : typeReader s = .ok (type, t)) :
    type.IsNamed ∧ InLine type.descriptor.toList := by
  obtain ⟨text, u, hline, h⟩ := Reader.bind_eq_ok.mp h
  cases htype : JavaType.ofDescriptor? (String.ofList text) with
  | none =>
    rw [htype] at h
    cases h
  | some type' =>
    rw [htype] at h
    obtain ⟨rfl, rfl⟩ := Reader.pure_eq_ok.mp h
    obtain ⟨htext, hnamed⟩ := JavaType.ofDescriptor?_eq_some.mp htype
    rw [String.toList_ofList] at htext
    exact ⟨hnamed, htext ▸ (Reader.inLine_of_restOfLine hline).trim⟩

/-- The visibility and the type of an annotation whose first line has been read. -/
theorem headerReader_eq_ok {visibility : Visibility} {type : JavaType}
    (h : headerReader nested s = .ok ((visibility, type), t)) :
    (nested = true → visibility = .system) ∧ type.IsNamed ∧ InLine type.descriptor.toList := by
  obtain ⟨_, s₁, -, h⟩ := Reader.bind_eq_ok.mp h
  cases nested with
  | true =>
    rw [if_pos rfl] at h
    obtain ⟨visibility', s₂, hvisibility, h⟩ := Reader.bind_eq_ok.mp h
    obtain ⟨rfl, rfl⟩ := Reader.pure_eq_ok.mp hvisibility
    obtain ⟨type', s₃, htype, h⟩ := Reader.bind_eq_ok.mp h
    obtain ⟨heq, rfl⟩ := Reader.pure_eq_ok.mp h
    obtain ⟨rfl, rfl⟩ := Prod.mk.inj heq
    exact ⟨fun _ => rfl, typeReader_eq_ok htype⟩
  | false =>
    rw [if_neg (by decide)] at h
    obtain ⟨visibility', s₂, -, h⟩ := Reader.bind_eq_ok.mp h
    obtain ⟨type', s₃, htype, h⟩ := Reader.bind_eq_ok.mp h
    obtain ⟨heq, rfl⟩ := Reader.pure_eq_ok.mp h
    obtain ⟨rfl, rfl⟩ := Prod.mk.inj heq
    exact ⟨by simp, typeReader_eq_ok htype⟩

/-- The first of the elements that have been read, and the reader behind it. -/
theorem elementsReader_eq_ok_cons {name : String} {value : ElementValue} {elements : List Element}
    (h : elementsReader nested s = .ok (⟨name, value⟩ :: elements, t)) :
    ∃ u w, Element.nameReader s = .ok (name, u) ∧ valueReader u = .ok (value, w) ∧
      elementsReader nested w = .ok (elements, t) := by
  rw [elementsReader_apply] at h
  split at h
  · cases h
  · split at h
    · cases h
    · next u hname =>
      split at h
      · cases h
      · next w hvalue =>
        split at h
        · cases h
        · next hrest =>
          cases h
          exact ⟨u, w, hname, hvalue, hrest⟩

/-- A value that has been read is an annotation, or no annotation can be read where it stands. -/
theorem valueReader_eq_ok {value : ElementValue} (h : valueReader s = .ok (value, t)) :
    (∃ a, value = .nested a ∧ reader true s = .ok (a, t)) ∨
      (reader true).Fails s ∧ ElementValue.flatReader s = .ok (value, t) := by
  rw [valueReader_apply] at h
  split at h
  · next a u ha =>
    cases h
    exact .inl ⟨a, rfl, ha⟩
  · next e he => exact .inr ⟨⟨e, he⟩, h⟩

end AnnotationBlock

/-- The name of an element that has been read is not empty and has no characters but those of
names. -/
theorem Element.nameReader_eq_ok {s t : List Char} {name : String}
    (h : Element.nameReader s = .ok (name, t)) :
    name.toList ≠ [] ∧ ∀ c ∈ name.toList, Element.isNameChar c = true := by
  obtain ⟨text, s₁, hname, h⟩ := Reader.bind_eq_ok.mp h
  obtain ⟨_, s₂, -, h⟩ := Reader.bind_eq_ok.mp h
  obtain ⟨_, s₃, -, h⟩ := Reader.bind_eq_ok.mp h
  obtain ⟨rfl, -⟩ := Reader.pure_eq_ok.mp h
  obtain ⟨w, hrun, -⟩ := Reader.inLayout_eq_ok.mp hname
  obtain ⟨hne, -, hchars, -⟩ := Reader.run1_eq_ok' hrun
  rw [String.toList_ofList]
  exact ⟨hne, hchars⟩

namespace ElementValue

variable {s t : List Char} {value : ElementValue}

/-- A constant that has been read. -/
theorem constantReader_eq_ok (h : constantReader s = .ok (value, t)) :
    ∃ owner name, value = .constant owner name ∧ '-' ∉ owner.path.toList ∧ ':' ∉ name.toList ∧
      '\n' ∉ name.toList := by
  obtain ⟨_, s₁, -, h⟩ := Reader.bind_eq_ok.mp h
  obtain ⟨owner, s₂, howner, h⟩ := Reader.bind_eq_ok.mp h
  obtain ⟨_, s₃, -, h⟩ := Reader.bind_eq_ok.mp h
  obtain ⟨name, s₄, hname, h⟩ := Reader.bind_eq_ok.mp h
  obtain ⟨_, s₅, -, h⟩ := Reader.bind_eq_ok.mp h
  obtain ⟨rfl, -⟩ := Reader.pure_eq_ok.mp h
  obtain ⟨-, -, hownerChars, -⟩ := Reader.run1_eq_ok' howner
  obtain ⟨-, hnameChars, -⟩ := Reader.run_eq_ok hname
  refine ⟨_, _, rfl, fun hdash => ?_, fun hcolon => ?_, fun hfeed => ?_⟩
  · have hmem := ClassName.mem_of_mem_ofDescriptor hdash
    rw [String.toList_ofList] at hmem
    exact absurd (hownerChars _ hmem) (by decide)
  · rw [String.toList_ofList] at hcolon
    exact absurd (hnameChars _ hcolon) (by decide)
  · rw [String.toList_ofList] at hfeed
    exact absurd (hnameChars _ hfeed) (by decide)

/-- An array that has been read. -/
theorem arrayReader_eq_ok (h : arrayReader s = .ok (value, t)) :
    ∃ items u, value = .array items ∧
      Reader.inLayout (Reader.literal "\x7b") s = .ok ((), u) ∧
      Reader.manyTill closingBrace itemReader progresses_itemReader s u = .ok ((items, ()), t) := by
  unfold arrayReader at h
  split at h
  · cases h
  · next u hbrace =>
    split at h
    · next items _ w hitems =>
      cases h
      exact ⟨items, u, rfl, hbrace, hitems⟩
    · cases h

/-- A line of plain text that has been read is trimmed. -/
theorem singleReader_eq_ok (h : singleReader s = .ok (value, t)) :
    ∃ text, value = .single text ∧ IsTrimmed text.toList ∧ InLine text.toList := by
  obtain ⟨text, s₁, hline, h⟩ := Reader.bind_eq_ok.mp h
  obtain ⟨rfl, -⟩ := Reader.pure_eq_ok.mp h
  refine ⟨_, rfl, ?_⟩
  rw [String.toList_ofList]
  exact ⟨isTrimmed_trim text, (Reader.inLine_of_restOfLine hline).trim⟩

/-- A value that is no annotation is a constant, an array, or a line on which neither can be
read. -/
theorem flatReader_eq_ok (h : flatReader s = .ok (value, t)) :
    constantReader s = .ok (value, t) ∨ arrayReader s = .ok (value, t) ∨
      constantReader.Fails s ∧ arrayReader.Fails s ∧ singleReader s = .ok (value, t) := by
  obtain h | ⟨hconstant, h⟩ := Reader.orElse_eq_ok.mp h
  · exact .inl h
  · obtain h | ⟨harray, h⟩ := Reader.orElse_eq_ok.mp h
    · exact .inr (.inl h)
    · exact .inr (.inr ⟨hconstant, harray, h⟩)

/-- A value of each kind that has been read, with what its reader has found out about it. -/
theorem spec_of_valueReader (h : AnnotationBlock.valueReader s = .ok (value, t)) :
    match value with
    | .single text => IsTrimmed text.toList ∧ InLine text.toList ∧
        (AnnotationBlock.reader true).Fails s ∧ constantReader.Fails s ∧ arrayReader.Fails s
    | .array items => ∃ u, Reader.inLayout (Reader.literal "\x7b") s = .ok ((), u) ∧
        Reader.manyTill closingBrace itemReader progresses_itemReader s u = .ok ((items, ()), t)
    | .nested a => AnnotationBlock.reader true s = .ok (a, t)
    | .constant owner name =>
        '-' ∉ owner.path.toList ∧ ':' ∉ name.toList ∧ '\n' ∉ name.toList := by
  obtain ⟨a, rfl, ha⟩ | ⟨hannotated, h⟩ := AnnotationBlock.valueReader_eq_ok h
  · exact ha
  · obtain h | h | ⟨hconstant, harray, h⟩ := flatReader_eq_ok h
    · obtain ⟨owner, name, rfl, hspec⟩ := constantReader_eq_ok h
      exact hspec
    · obtain ⟨items, u, rfl, hbrace, hitems⟩ := arrayReader_eq_ok h
      exact ⟨u, hbrace, hitems⟩
    · obtain ⟨text, rfl, htrimmed, hin⟩ := singleReader_eq_ok h
      exact ⟨htrimmed, hin, hannotated, hconstant, harray⟩

end ElementValue

/-! ### Constants on one line -/

mutual

/-- Whether the constants in an annotation are of enumerations whose names are in line. -/
def AnnotationBlock.ConstantsInLine : AnnotationBlock → Prop
  | ⟨_, _, elements⟩ => Element.ListConstantsInLine elements

/-- Whether the constants in elements are of enumerations whose names are in line. -/
def Element.ListConstantsInLine : List Element → Prop
  | [] => True
  | e :: es => e.ConstantsInLine ∧ Element.ListConstantsInLine es

/-- Whether the constants in an element are of enumerations whose names are in line. -/
def Element.ConstantsInLine : Element → Prop
  | ⟨_, value⟩ => value.ConstantsInLine

/-- Whether the constants in a value are of enumerations whose names are in line. -/
def ElementValue.ConstantsInLine : ElementValue → Prop
  | .single _ => True
  | .array _ => True
  | .nested a => a.ConstantsInLine
  | .constant owner _ => InLine owner.path.toList

end

/-! ### What is read back is legible -/

mutual

/-- An annotation that is read back is legible. -/
theorem AnnotationBlock.legible_of_reader {nested : Bool} {indent : String} {behind u t : List Char}
    (hindent : ∀ c ∈ indent.toList, c = ' ') (a : AnnotationBlock) (hconstants : a.ConstantsInLine)
    (hu : afterLayout u = afterLayout ((a.print nested indent).toList ++ behind))
    (h : AnnotationBlock.reader nested u = .ok (a, t)) : a.Legible nested indent behind := by
  match a, hconstants with
  | ⟨visibility, type, elements⟩, hconstants =>
    obtain ⟨w, hheader, helements⟩ := AnnotationBlock.reader_eq_ok h
    obtain ⟨hvisibility, hnamed, hin⟩ := AnnotationBlock.headerReader_eq_ok hheader
    refine ⟨hvisibility, hnamed, hin, ?_⟩
    -- The first line is read in its place, so the elements are read off what stands behind it.
    rw [AnnotationBlock.afterLayout_print hindent] at hu
    have hplace := AnnotationBlock.headerReader_append hvisibility hnamed hin hu
    rw [hheader] at hplace
    obtain ⟨-, rfl⟩ := Prod.mk.inj (Except.ok.inj hplace)
    exact Element.listLegible_of_elementsReader hindent elements hconstants rfl helements

/-- Elements that are read back are legible. -/
theorem Element.listLegible_of_elementsReader {nested : Bool} {indent : String}
    {behind u t : List Char} (hindent : ∀ c ∈ indent.toList, c = ' ') (elements : List Element)
    (hconstants : Element.ListConstantsInLine elements)
    (hu : afterLayout u = afterLayout ((Element.printList indent elements).toList ++ behind))
    (h : AnnotationBlock.elementsReader nested u = .ok (elements, t)) :
    Element.ListLegible indent behind elements := by
  match elements, hconstants with
  | [], _ => trivial
  | ⟨name, value⟩ :: elements, ⟨hconstant, hconstants⟩ =>
    obtain ⟨v, w, hname, hvalue, hrest⟩ := AnnotationBlock.elementsReader_eq_ok_cons h
    obtain ⟨hne, hchars⟩ := Element.nameReader_eq_ok hname
    have htrimmed : ∀ text, value = .single text → IsTrimmed text.toList := by
      rintro text rfl
      exact (ElementValue.spec_of_valueReader hvalue).1
    rw [Element.afterLayout_printList_cons hindent hne hchars] at hu
    -- The name is read in its place, and then the value in its place.
    have hplace := Element.nameReader_append hne hchars (ElementValue.stops_print htrimmed _ _) hu
    rw [hname] at hplace
    obtain ⟨-, rfl⟩ := Prod.mk.inj (Except.ok.inj hplace)
    have hlegible := ElementValue.legible_of_valueReader hindent value hconstant hvalue
    obtain ⟨w', hvalue', hw⟩ := ElementValue.valueReader_print hindent value hlegible
    rw [hvalue] at hvalue'
    obtain ⟨-, rfl⟩ := Prod.mk.inj (Except.ok.inj hvalue')
    exact ⟨⟨hne, hchars, hlegible⟩,
      Element.listLegible_of_elementsReader hindent elements hconstants hw hrest⟩

/-- A value that is read back is legible. -/
theorem ElementValue.legible_of_valueReader {indent : String} {behind t : List Char}
    (hindent : ∀ c ∈ indent.toList, c = ' ') (value : ElementValue)
    (hconstants : value.ConstantsInLine)
    (h : AnnotationBlock.valueReader ((value.print indent).toList ++ behind) = .ok (value, t)) :
    value.Legible indent behind := by
  match value, hconstants with
  | .single text, _ =>
    have htext : (ElementValue.print indent (.single text)).toList ++ behind =
        text.toList ++ '\n' :: behind := by
      simp [ElementValue.print]
    rw [htext] at h
    exact ElementValue.spec_of_valueReader h
  | .array items, _ =>
    rw [ElementValue.toList_print_array] at h
    obtain ⟨u, hbrace, hitems⟩ := ElementValue.spec_of_valueReader h
    have hplace : Reader.inLayout (Reader.literal "\x7b")
        ('\x7b' :: ElementValue.itemsFrom indent items behind) =
          .ok ((), afterLayout (ElementValue.itemsFrom indent items behind)) :=
      ElementValue.openingBrace_append _
    rw [hbrace] at hplace
    obtain ⟨-, rfl⟩ := Prod.mk.inj (Except.ok.inj hplace)
    exact ElementValue.itemsLegible_of_manyTill hindent
      ⟨afterLayout_afterLayout _, fun _ => afterLayout_afterLayout _⟩ hitems
  | .nested a, ha =>
    have hspaces : ∀ c ∈ (indent ++ inset).toList, c = ' ' := fun c => eq_space_of_mem_inset hindent
    have hread : AnnotationBlock.reader true ((a.print true (indent ++ inset)).toList ++ behind) =
        .ok (a, t) :=
      ElementValue.spec_of_valueReader h
    exact AnnotationBlock.legible_of_reader hspaces a ha rfl hread
  | .constant owner name, hin =>
    obtain ⟨howner, hcolon, hfeed⟩ := ElementValue.spec_of_valueReader h
    exact ⟨hin, howner, hcolon, hfeed⟩

end

/-- The value of an element of a legible annotation is legible in front of some text. -/
theorem Element.exists_legible_of_mem {indent : String} {behind : List Char} {elements : List Element}
    {e : Element} (h : Element.ListLegible indent behind elements) (he : e ∈ elements) :
    ∃ s, e.value.Legible indent s := by
  induction elements with
  | nil => cases he
  | cons first elements ih =>
    obtain ⟨name, value⟩ := first
    obtain ⟨⟨-, -, hvalue⟩, hrest⟩ := h
    obtain rfl | he := List.mem_cons.mp he
    · exact ⟨_, hvalue⟩
    · exact ih hrest he

namespace AnnotationBlock

/-- An annotation that is read back stands in its place, and the reader behind it. -/
theorem legible_and_behind {nested : Bool} {indent : String} {behind u t : List Char}
    (hindent : ∀ c ∈ indent.toList, c = ' ') {a : AnnotationBlock} (hconstants : a.ConstantsInLine)
    (hu : afterLayout u = afterLayout ((a.print nested indent).toList ++ behind))
    (h : reader nested u = .ok (a, t)) :
    a.Legible nested indent behind ∧ t = afterLayout behind := by
  have hlegible := legible_of_reader hindent a hconstants hu h
  have hread := reader_print hindent a hlegible hu
  rw [h] at hread
  exact ⟨hlegible, (Prod.mk.inj (Except.ok.inj hread)).2⟩

/-- At least one annotation is read with the words that close it off, and the annotations are read
one after another. -/
theorem closedReader_eq_ok {closing : String} {as : List AnnotationBlock} {s t : List Char}
    (h : closedReader closing s = .ok (as, t)) :
    as ≠ [] ∧ ∃ u, Reader.takeMany (reader false) (progresses_reader false) s = (as, u) := by
  obtain ⟨as', s₁, hmany, h⟩ := Reader.bind_eq_ok.mp h
  obtain ⟨_, s₂, -, h⟩ := Reader.bind_eq_ok.mp h
  obtain ⟨rfl, rfl⟩ := Reader.pure_eq_ok.mp h
  obtain ⟨a, s₃, ha, hmany⟩ := Reader.bind_eq_ok.mp hmany
  obtain ⟨as, s₄, htake, hmany⟩ := Reader.bind_eq_ok.mp hmany
  obtain ⟨rfl, rfl⟩ := Reader.pure_eq_ok.mp hmany
  refine ⟨by simp, s₄, ?_⟩
  rw [Reader.takeMany_of_ok ha, Except.ok.inj htake]

/-- Annotations that are read back with the words that close them off are legible. -/
theorem listLegible_of_closedReader {indent closing : String} {as : List AnnotationBlock}
    {rest u t : List Char} (hindent : ∀ c ∈ indent.toList, c = ' ')
    (hconstants : ∀ a ∈ as, a.ConstantsInLine)
    (hu : afterLayout u = afterLayout (as.flatMap (outerText indent) ++ rest))
    (h : closedReader closing u = .ok (as, t)) : ListLegible indent rest as := by
  obtain ⟨-, w, hmany⟩ := closedReader_eq_ok h
  refine Reader.eachInPlace_of_takeMany (fun a ha s v t' hv hread => ?_) hu hmany
  obtain ⟨hlegible, rfl⟩ := legible_and_behind hindent (hconstants a ha) hv hread
  exact ⟨hlegible, afterLayout_afterLayout s⟩

end AnnotationBlock

end GatedCalls
