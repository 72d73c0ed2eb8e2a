import GatedCalls.Proofs.Smali.Class

/-!
# Well-formed classes are read back

A class is well-formed if its names, its texts and the lines of its methods are ones that their
places in the text of a class have room for. This can be told of every part by itself, and it makes
each part legible wherever it is printed.
-/

namespace GatedCalls

open Text

/-! ### Annotations -/

namespace ElementValue

/-- The beginnings that tell a value of another kind from plain text. -/
def valueWords : List String :=
  [".subannotation", ".enum", "\x7b"]

/-- Whether an item of an array is a literal on one line, or plain text that begins neither like a
literal nor like an annotation. -/
def ItemWellFormed (item : String) : Prop :=
  (IsLiteral item.toList ∧ '\n' ∉ item.toList) ∨
  (IsPlain item.toList ∧ item.toList ≠ [] ∧ startsWith "\"" item.toList = false ∧
    startsWith ".subannotation" item.toList = false)

end ElementValue

mutual

/-- Whether the names and the values of an annotation are well-formed; one that stands inside
another has the visibility `system`. -/
def AnnotationBlock.WellFormed (nested : Bool) : AnnotationBlock → Prop
  | ⟨visibility, type, elements⟩ =>
    (nested = true → visibility = .system) ∧ type.IsNamed ∧ InLine type.descriptor.toList ∧
      Element.ListWellFormed elements

/-- Whether all elements are well-formed. -/
def Element.ListWellFormed : List Element → Prop
  | [] => True
  | e :: es => e.WellFormed ∧ Element.ListWellFormed es

/-- Whether the name and the value of an element are well-formed. -/
def Element.WellFormed : Element → Prop
  | ⟨name, value⟩ =>
    name.toList ≠ [] ∧ (∀ c ∈ name.toList, Element.isNameChar c = true) ∧ value.WellFormed

/-- Whether a value is well-formed. -/
def ElementValue.WellFormed : ElementValue → Prop
  | .single text =>
    IsTrimmed text.toList ∧ InLine text.toList ∧
      ∀ word ∈ ElementValue.valueWords, startsWith word text.toList = false
  | .array items => ∀ item ∈ items, ElementValue.ItemWellFormed item
  | .nested a => a.WellFormed true
  | .constant owner name =>
    InLine owner.path.toList ∧ '-' ∉ owner.path.toList ∧ ':' ∉ name.toList ∧ '\n' ∉ name.toList

end

namespace ElementValue

/-- Well-formed items are legible in front of every text. -/
theorem itemsLegible_of_wellFormed {indent : String} {rest : List Char} {items : List String}
    (h : ∀ item ∈ items, ItemWellFormed item) : ItemsLegible indent rest items := by
  induction items with
  | nil => trivial
  | cons item items ih =>
    refine ⟨?_, ih fun i hi => h i (List.mem_cons_of_mem item hi)⟩
    obtain hliteral | ⟨hplain, hne, hquote, hannotated⟩ := h item List.mem_cons_self
    · exact .inl hliteral
    · refine .inr (.inl ⟨hplain, hne, hannotated, ?_⟩)
      obtain ⟨c, s, hcs⟩ := List.exists_cons_of_ne_nil hne
      have hlayout : isLayout c = false := by
        have hstop := hplain.1.stops.isLayout
        rwa [hcs, stops_cons] at hstop
      have hc : c ≠ '"' := by
        rintro rfl
        rw [hcs] at hquote
        cases hquote
      rw [hcs]
      exact stringItemReader_fails hlayout hc

/-- Plain text that begins like no other value is legible where the text behind it does not
either. -/
theorem legible_single {indent : String} {text : String} {behind : List Char}
    (h : (single text).WellFormed)
    (hbehind : ∀ word ∈ valueWords, startsWith word (afterLayout behind) = false) :
    (single text).Legible indent behind := by
  obtain ⟨htrimmed, hin, htext⟩ := h
  have hwords : ∀ word ∈ valueWords, InLine word.toList := by decide
  have hstarts : ∀ word ∈ valueWords,
      startsWith word (afterLayout (text.toList ++ '\n' :: behind)) = false := by
    intro word hword
    obtain hnil | hne := Decidable.em (text.toList = [])
    · rw [hnil, List.nil_append, afterLayout_cons (by decide)]
      exact hbehind word hword
    · rw [afterLayout_of_stops (htrimmed.stops.isLayout.append hne _)]
      exact startsWith_line (hwords word hword) (htext word hword) behind
  refine ⟨htrimmed, hin, ?_, ?_, ?_⟩
  · exact AnnotationBlock.reader_fails (Reader.Fails.bind (Reader.Fails.inLayout
      (Reader.literal_fails (hstarts ".subannotation" (by simp [valueWords])))))
  · exact Reader.Fails.bind (Reader.Fails.inLayout
      (Reader.literal_fails (hstarts ".enum" (by simp [valueWords]))))
  · obtain ⟨e, he⟩ : (Reader.inLayout (Reader.literal "\x7b")).Fails (text.toList ++ '\n' :: behind) :=
      Reader.Fails.inLayout (Reader.literal_fails (hstarts "\x7b" (by simp [valueWords])))
    exact ⟨e, by rw [arrayReader, he]⟩

end ElementValue

/-- Behind an element stand another one or the end of the annotation, but no value. -/
theorem Element.startsWith_printList {indent : String} (hindent : ∀ c ∈ indent.toList, c = ' ')
    {elements : List Element} (h : Element.ListWellFormed elements) (nested : Bool)
    (behind : List Char) :
    ∀ word ∈ ElementValue.valueWords, startsWith word (afterLayout
      ((Element.printList indent elements).toList ++
        AnnotationBlock.closingText nested indent behind)) = false := by
  match elements, h with
  | [], _ =>
    have hclosing : afterLayout ((Element.printList indent []).toList ++
        AnnotationBlock.closingText nested indent behind) =
          (AnnotationBlock.closingWord nested).toList ++ '\n' :: behind := by
      refine (afterLayout_indent hindent _).trans (afterLayout_of_stops ?_)
      cases nested <;> exact stops_cons.mpr (by decide)
    rw [hclosing]
    intro word hword
    simp only [ElementValue.valueWords, List.mem_cons, List.not_mem_nil, or_false] at hword
    obtain rfl | rfl | rfl := hword <;> cases nested <;> rfl
  | ⟨name, value⟩ :: elements, ⟨⟨hne, hchars, _⟩, _⟩ =>
    obtain ⟨c, s, hcs⟩ := List.exists_cons_of_ne_nil hne
    obtain ⟨hlayout, hdot, -, hbrace⟩ := Element.isNameChar_spec (hchars c (by simp [hcs]))
    rw [Element.toList_printList_cons,
      afterLayout_indent (fun c => eq_space_of_mem_inset hindent), hcs, List.cons_append,
      afterLayout_of_stops (stops_cons.mpr hlayout)]
    intro word hword
    simp only [ElementValue.valueWords, List.mem_cons, List.not_mem_nil, or_false] at hword
    obtain rfl | rfl | rfl := hword
    · exact startsWith_eq_false rfl hdot
    · exact startsWith_eq_false rfl hdot
    · exact startsWith_eq_false rfl hbrace

mutual

/-- A well-formed annotation is legible wherever it is printed. -/
theorem AnnotationBlock.WellFormed.legible {nested : Bool} {indent : String} {behind : List Char}
    (hindent : ∀ c ∈ indent.toList, c = ' ') (a : AnnotationBlock) (h : a.WellFormed nested) :
    a.Legible nested indent behind := by
  match a, h with
  | ⟨visibility, type, elements⟩, ⟨hvisibility, hnamed, hin, helements⟩ =>
    exact ⟨hvisibility, hnamed, hin, Element.ListWellFormed.legible hindent elements helements⟩

/-- Well-formed elements are legible in front of the end of the annotation. -/
theorem Element.ListWellFormed.legible {nested : Bool} {indent : String} {behind : List Char}
    (hindent : ∀ c ∈ indent.toList, c = ' ') (elements : List Element)
    (h : Element.ListWellFormed elements) :
    Element.ListLegible indent (AnnotationBlock.closingText nested indent behind) elements := by
  match elements, h with
  | [], _ => trivial
  | ⟨name, value⟩ :: elements, ⟨⟨hne, hchars, hvalue⟩, hrest⟩ =>
    exact ⟨⟨hne, hchars, ElementValue.WellFormed.legible hindent value hvalue
      (Element.startsWith_printList hindent hrest nested behind)⟩,
      Element.ListWellFormed.legible hindent elements hrest⟩

/-- A well-formed value is legible in front of a text that does not begin like one. -/
theorem ElementValue.WellFormed.legible {indent : String} {behind : List Char}
    (hindent : ∀ c ∈ indent.toList, c = ' ') (value : ElementValue) (h : value.WellFormed)
    (hbehind : ∀ word ∈ ElementValue.valueWords, startsWith word (afterLayout behind) = false) :
    value.Legible indent behind := by
  match value, h with
  | .single text, h => exact ElementValue.legible_single h hbehind
  | .array items, h => exact ElementValue.itemsLegible_of_wellFormed h
  | .nested a, h =>
    exact AnnotationBlock.WellFormed.legible (fun c => eq_space_of_mem_inset hindent) a h
  | .constant owner name, h => exact h

end

/-! ### Fields -/

/-- A name without blanks, and what follows from that for where it can stand. -/
theorem name_of_forall {s : List Char} (h : ∀ c ∈ s, isBlank c = false) :
    IsTrimmed s ∧ ¬BeginsWithModifier s ∧ ∀ word, ¬BeginsWithWord word s := by
  have hspace : ∀ c ∈ s, isSpace c = false := fun c hc =>
    isSpace_eq_false (isLayout_eq_false (h c hc))
  exact ⟨isTrimmed_of_forall h, fun ⟨_, hm⟩ => not_beginsWithWord hspace hm,
    fun _ => not_beginsWithWord hspace⟩

/-- Whether the name, the type, the initial value and the annotations of a field are well-formed. -/
structure Field.WellFormed (f : Field) : Prop where
  name_ne_nil : f.name.toList ≠ []
  name_chars : ∀ c ∈ f.name.toList, isBlank c = false ∧ c ≠ ':'
  type_named : f.type.IsNamed
  type_chars : ∀ c ∈ f.type.descriptor.toList, isBlank c = false ∧ c ≠ '='
  initial_line : ∀ value ∈ f.initial, IsTrimmed value.toList ∧ InLine value.toList
  annotations : ∀ a ∈ f.annotations, a.WellFormed false

/-- A well-formed field is legible in front of a text that does not begin with an annotation. -/
theorem Field.WellFormed.legible {f : Field} {behind : List Char} (h : f.WellFormed)
    (hbehind : startsWith ".annotation" (afterLayout behind) = false) : f.Legible behind := by
  have hspaces : ∀ c ∈ ("    " : String).toList, c = ' ' := by simp
  obtain ⟨htrimmed, hfree, -⟩ := name_of_forall fun c hc => (h.name_chars c hc).1
  refine ⟨h.name_ne_nil, htrimmed, fun c hc => ?_, hfree, h.type_named, fun c hc => ?_,
    h.initial_line, fun _ => ?_, fun _ => ?_⟩
  · obtain ⟨hblank, hcolon⟩ := h.name_chars c hc
    have hbreak : c ≠ '\n' := by
      rintro rfl
      exact absurd hblank (by decide)
    simp [Field.isNameChar, hcolon, hbreak]
  · obtain ⟨hblank, hequals⟩ := h.type_chars c hc
    simp [Field.isTypeChar, hblank, hequals]
  · exact eachInPlace_of_forall fun a ha _ => (h.annotations a ha).legible hspaces a
  · refine AnnotationBlock.closedReader_fails _ ?_
    rw [afterLayout_cons (by decide)]
    exact hbehind

/-! ### Methods -/

/-- Whether an entry of a body is well-formed. A parameter with annotations must be closed off by
its own lines, whatever stands behind them. -/
def BodyItem.WellFormed : BodyItem → Prop
  | label name => name.toList ≠ [] ∧ ∀ c ∈ name.toList, Label.isNameChar c = true
  | line _ => True
  | directive t =>
    Entry.IsDirectiveLine t.toList ∨
    ∃ closing first ls last, t = blockText (first :: ls) last ∧
      ∀ behind, Entry.IsDirectiveBlock closing first ls last behind
  | instruction i => i.IsReadable ∧ InLine i.text.toList

/-- Whether the name, the prototype, the annotations and the body of a method are well-formed. -/
structure Method.WellFormed (m : Method) : Prop where
  name_ne_nil : m.name.toList ≠ []
  name_chars : ∀ c ∈ m.name.toList, isBlank c = false ∧ c ≠ '('
  proto_named : m.proto.IsNamed
  annotations : ∀ a ∈ m.annotations, a.WellFormed false
  body : ∀ i ∈ m.body, i.WellFormed

namespace Entry

/-- A well-formed entry of a body is legible in front of a text that does not begin with an
annotation. -/
theorem legible_item {i : BodyItem} {behind : List Char} (h : i.WellFormed)
    (hbehind : startsWith ".annotation" (afterLayout behind) = false) :
    (item i).Legible behind := by
  match i, h with
  | .label name, h => exact h
  | .line n, _ => trivial
  | .directive t, h =>
    obtain hline | ⟨closing, first, ls, last, rfl, hblock⟩ := h
    · refine .inl ⟨hline, ?_⟩
      obtain ⟨e, he⟩ := AnnotationBlock.closedReader_fails ".end param" hbehind
      rw [isClosedParam, he, Bool.and_false]
    · exact .inr ⟨closing, first, ls, last, hblock behind, rfl⟩
  | .instruction i, h => exact h

/-- The text of an entry of a body that is read back does not begin with an annotation. -/
theorem ReadInPlace.not_annotated {i : BodyItem} {behind : List Char}
    (h : (item i).ReadInPlace behind) :
    startsWith ".annotation" (afterLayout ((item i).text ++ behind)) = false := by
  obtain ⟨-, u, hread, -⟩ := h
  cases hstarts : startsWith ".annotation" (afterLayout ((item i).text ++ behind)) with
  | false => rfl
  | true =>
    obtain ⟨t, ht⟩ := startsWith_iff.mp hstarts
    have hhash : startsWith "#" (afterLayout ((item i).text ++ behind)) = false := by
      rw [ht]
      rfl
    rw [reader, hhash, hstarts] at hread
    obtain ⟨a, s, -, hpure⟩ := Reader.bind_eq_ok.mp hread
    cases (Reader.pure_eq_ok.mp hpure).1

/-- A well-formed body is legible, and its text does not begin with an annotation. -/
theorem eachInPlace_body {body : List BodyItem} (h : ∀ i ∈ body, i.WellFormed) {rest : List Char}
    (hrest : startsWith ".annotation" (afterLayout rest) = false) :
    EachInPlace text Legible rest (body.map item) ∧
      startsWith ".annotation" (afterLayout ((body.map item).flatMap text ++ rest)) = false := by
  induction body with
  | nil => exact ⟨trivial, hrest⟩
  | cons i body ih =>
    obtain ⟨hbody, hbehind⟩ := ih fun j hj => h j (List.mem_cons_of_mem i hj)
    have hi := legible_item (h i List.mem_cons_self) hbehind
    refine ⟨⟨hi, hbody⟩, ?_⟩
    rw [List.map_cons, List.flatMap_cons, List.append_assoc]
    exact (readInPlace_of_legible hi).not_annotated

end Entry

/-- The entries of a well-formed method are legible in front of a text that does not begin with an
annotation. -/
theorem Method.WellFormed.eachInPlace_entries {m : Method} (h : m.WellFormed) {rest : List Char}
    (hrest : startsWith ".annotation" (afterLayout rest) = false) :
    EachInPlace Entry.text Entry.Legible rest m.entries := by
  have hspaces : ∀ c ∈ ("    " : String).toList, c = ' ' := by simp
  refine eachInPlace_append.mpr ⟨eachInPlace_append.mpr ⟨?_, ?_⟩,
    (Entry.eachInPlace_body h.body hrest).1⟩
  · exact eachInPlace_map.mpr (eachInPlace_of_forall fun _ _ _ => trivial)
  · exact eachInPlace_map.mpr
      (eachInPlace_of_forall fun a ha _ => (h.annotations a ha).legible hspaces a)

/-- A well-formed method is legible in front of every text. -/
theorem Method.WellFormed.legible {m : Method} (h : m.WellFormed) (behind : List Char) :
    m.Legible behind := by
  obtain ⟨htrimmed, hfree, hword⟩ := name_of_forall fun c hc => (h.name_chars c hc).1
  have hclosing : startsWith ".annotation" (afterLayout (Method.closingText behind)) = false := by
    rw [afterLayout_of_stops (Method.stops_closingText behind)]
    rfl
  refine ⟨h.name_ne_nil, htrimmed, fun c hc => ?_, fun _ => ⟨hfree, hword _⟩, h.proto_named,
    h.eachInPlace_entries hclosing⟩
  obtain ⟨hblank, hparen⟩ := h.name_chars c hc
  have hbreak : c ≠ '\n' := by
    rintro rfl
    exact absurd hblank (by decide)
  simp [Method.isNameChar, hparen, hbreak]

/-! ### Classes -/

namespace ClassDef

/-- Whether every part of a class is well-formed. -/
structure WellFormed (c : ClassDef) : Prop where
  name_inLine : InLine c.name.path.toList
  superclass_inLine : ∀ s ∈ c.superclass, InLine s.path.toList
  source_body : ∀ s ∈ c.source, StringLiteral.IsBody s.toList
  interfaces_inLine : ∀ i ∈ c.interfaces, InLine i.path.toList
  annotations : ∀ a ∈ c.annotations, a.WellFormed false
  fields : ∀ f ∈ c.fields, f.WellFormed
  methods : ∀ m ∈ c.methods, m.WellFormed

/-- No part of a class begins with an annotation, unless the text behind an empty one does. -/
theorem startsWith_part (title : String) (ps : List (String × Statement)) {rest : List Char}
    (hrest : startsWith ".annotation" (afterLayout rest) = false) :
    startsWith ".annotation" (afterLayout (textOf (part title ps) ++ rest)) = false := by
  cases ps with
  | nil => exact hrest
  | cons p ps =>
    have htext : textOf (part title (p :: ps)) ++ rest =
        '\n' :: '#' :: ' ' :: (title.toList ++ '\n' :: (textOf (p :: ps) ++ rest)) := by
      simp [textOf, part]
    rw [htext, afterLayout_cons (by decide), afterLayout_of_stops (stops_cons.mpr (by decide))]
    rfl

/-- Well-formed fields are legible in front of a text that does not begin with an annotation. -/
theorem eachInPlace_fields {fields : List Field} (h : ∀ f ∈ fields, f.WellFormed) {rest : List Char}
    (hrest : startsWith ".annotation" (afterLayout rest) = false) :
    EachInPlace (fun f => f.print.toList) Field.Legible rest fields ∧
      startsWith ".annotation" (afterLayout (fields.flatMap (fun f => f.print.toList) ++ rest)) =
        false := by
  induction fields with
  | nil => exact ⟨trivial, hrest⟩
  | cons f fields ih =>
    obtain ⟨hfields, hbehind⟩ := ih fun g hg => h g (List.mem_cons_of_mem f hg)
    refine ⟨⟨(h f List.mem_cons_self).legible hbehind, hfields⟩, ?_⟩
    obtain ⟨s, hs⟩ := f.exists_afterLayout_print (fields.flatMap (fun f => f.print.toList) ++ rest)
    rw [List.flatMap_cons, List.append_assoc, hs]
    rfl

/-- A well-formed class is legible. -/
theorem WellFormed.legible {c : ClassDef} (h : c.WellFormed) : c.Legible := by
  have hempty : ∀ c ∈ ("" : String).toList, c = ' ' := nofun
  refine ⟨h.name_inLine, h.superclass_inLine, h.source_body, h.interfaces_inLine, ?_, ?_, ?_⟩
  · exact eachInPlace_of_forall fun a ha _ => (h.annotations a ha).legible hempty a
  · have hnil : startsWith ".annotation" (afterLayout []) = false := rfl
    have hmethods := startsWith_part "methods" (c.methods.map fun m => (m.print, .method m)) hnil
    rw [List.append_nil] at hmethods
    exact (eachInPlace_fields h.fields hmethods).1
  · exact eachInPlace_of_forall fun m hm s => (h.methods m hm).legible s

/-- What is printed of a well-formed class is read as that class. -/
theorem read_print_of_wellFormed {c : ClassDef} (h : c.WellFormed) : read c.print = .ok c :=
  read_print h.legible

/-- A class with one part of each kind. -/
def specimen : ClassDef where
  name := ⟨"a/B"⟩
  modifiers := [.public, .final]
  source := some "B.java"
  superclass := some ⟨"java/lang/Object"⟩
  interfaces := [⟨"a/I"⟩]
  annotations := [⟨.runtime, .object ⟨"a/A"⟩,
    [⟨"value", .array ["\"x\"", "2"]⟩, ⟨"kind", .constant ⟨"a/E"⟩ "F"⟩,
      ⟨"inner", .nested ⟨.system, .object ⟨"a/N"⟩, [⟨"size", .single "1"⟩]⟩⟩]⟩]
  fields := [⟨"f", [.static], .primitive .int, some "1", []⟩]
  methods := [⟨"m", [.public], false, ⟨[.primitive .int], .primitive .void⟩, some 1, [],
    [.line 3, .label "l", .directive ".prologue",
      .directive ".array-data 1\n1t\n.end array-data",
      .instruction (.call ⟨.virtual, .list [.param 0], ⟨"La/B;", "n", ⟨[], .primitive .void⟩⟩⟩),
      .instruction (.other "return-void")]⟩]

/-- All its parts are well-formed. -/
theorem specimen_wellFormed : specimen.WellFormed where
  name_inLine := by decide
  superclass_inLine := by decide
  source_body := by decide
  interfaces_inLine := by decide
  annotations := by
    simp only [specimen, List.mem_singleton, forall_eq]
    refine ⟨by simp, ⟨by decide, by simp; decide⟩, by decide,
      ⟨by decide, List.all_eq_true.mp (by decide), ?_⟩,
      ⟨by decide, List.all_eq_true.mp (by decide), by decide, by decide, by decide, by decide⟩,
      ⟨by decide, List.all_eq_true.mp (by decide), ?_⟩, trivial⟩
    · simp only [ElementValue.WellFormed, List.mem_cons, List.not_mem_nil, or_false, forall_eq_or_imp,
        forall_eq]
      exact ⟨.inl ⟨⟨['x'], by decide, rfl⟩, by decide⟩,
        .inr ⟨⟨by decide, List.all_eq_true.mp (by decide)⟩, by decide⟩⟩
    · exact ⟨fun _ => rfl, ⟨by decide, by simp; decide⟩, by decide,
        ⟨by decide, List.all_eq_true.mp (by decide), by decide, by decide, by decide⟩, trivial⟩
  fields := by
    simp only [specimen, List.mem_singleton, forall_eq]
    exact ⟨by decide, by simp; decide, trivial, by simp [JavaType.descriptor]; decide, by simp; decide,
      by simp⟩
  methods := by
    simp only [specimen, List.mem_singleton, forall_eq]
    refine ⟨by decide, by simp; decide, ⟨by simp [JavaType.IsNamed], trivial⟩, by simp, ?_⟩
    simp only [List.mem_cons, List.not_mem_nil, or_false, forall_eq_or_imp, forall_eq]
    refine ⟨trivial, ⟨by decide, List.all_eq_true.mp (by decide)⟩,
      .inl ⟨by decide, by decide, rfl, rfl, rfl, rfl, rfl, rfl⟩, .inr ?_, ⟨?_, by decide⟩,
      ⟨⟨by decide, by decide +kernel, by decide +kernel⟩, by decide⟩⟩
    · exact ⟨".end array-data", ".array-data 1".toList, ["1t".toList], ".end array-data".toList,
        by decide, fun _ => ⟨⟨by decide, by decide, by decide, rfl⟩, .inl rfl⟩⟩
    · exact ⟨by decide, by decide, by decide, by decide, by simp, trivial⟩

/-- The specimen is read back. -/
theorem specimen_read_print : specimen.WellFormed ∧ read specimen.print = .ok specimen :=
  ⟨specimen_wellFormed, read_print_of_wellFormed specimen_wellFormed⟩

end ClassDef

end GatedCalls
