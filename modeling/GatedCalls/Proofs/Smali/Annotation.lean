import GatedCalls.Proofs.Descriptor.MethodRef
import GatedCalls.Proofs.Smali.Array
import GatedCalls.Proofs.Text.Sequence
import GatedCalls.Smali.AnnotationReader

/-!
# Annotations are read as they are printed

Whether a value is read as itself can depend on the text behind it: a brace that nothing closes is
plain text, and becomes an array where something does. So `AnnotationBlock.Legible` and its
companions carry the text behind the annotation along, and `AnnotationBlock.reader_print` is an
induction over the annotation, its elements and their values.
-/

namespace GatedCalls

open Text

/-! ### Reading, piece by piece -/

namespace AnnotationBlock

variable {nested : Bool} {s t u : List Char}

/-- An annotation is read from its first line and its elements. -/
theorem reader_of_ok {visibility : Visibility} {type : JavaType} {elements : List Element}
    (hheader : headerReader nested s = .ok ((visibility, type), t))
    (helements : elementsReader nested t = .ok (elements, u)) :
    reader nested s = .ok (⟨visibility, type, elements⟩, u) := by
  rw [reader_apply, hheader]
  simp only [helements]

/-- What cannot begin an annotation is none. -/
theorem reader_fails (h : (headerReader nested).Fails s) : (reader nested).Fails s := by
  obtain ⟨e, he⟩ := h
  exact ⟨e, by rw [reader_apply, he]⟩

/-- There are no elements where the annotation ends. -/
theorem elementsReader_nil (h : closingReader nested s = .ok ((), t)) :
    elementsReader nested s = .ok ([], t) := by
  rw [elementsReader_apply, h]

/-- Elements are read one after another. -/
theorem elementsReader_cons {name : String} {value : ElementValue} {elements : List Element}
    {w : List Char} (hopen : (closingReader nested).Fails s)
    (hname : Element.nameReader s = .ok (name, t)) (hvalue : valueReader t = .ok (value, u))
    (hrest : elementsReader nested u = .ok (elements, w)) :
    elementsReader nested s = .ok (⟨name, value⟩ :: elements, w) := by
  obtain ⟨e, he⟩ := hopen
  rw [elementsReader_apply, he]
  simp only [hname, hvalue, hrest]

/-- A value is an annotation where one can be read. -/
theorem valueReader_of_ok {a : AnnotationBlock} (h : reader true s = .ok (a, t)) :
    valueReader s = .ok (.nested a, t) := by
  rw [valueReader_apply, h]

/-- A value is read without parts of its kind where no annotation can be read. -/
theorem valueReader_of_fails (h : (reader true).Fails s) :
    valueReader s = ElementValue.flatReader s := by
  obtain ⟨e, he⟩ := h
  rw [valueReader_apply, he]

end AnnotationBlock

/-! ### Printed annotations -/

/-- Only spaces set in the next level. -/
theorem eq_space_of_mem_inset {indent : String} (hindent : ∀ c ∈ indent.toList, c = ' ') {c : Char}
    (h : c ∈ (indent ++ inset).toList) : c = ' ' := by
  simp only [inset, String.toList_append, List.mem_append] at h
  obtain h | h := h
  · exact hindent c h
  · simpa using h

namespace AnnotationBlock

/-- The words that end an annotation on a line of their own, and the text behind the annotation. -/
def closingText (nested : Bool) (indent : String) (behind : List Char) : List Char :=
  indent.toList ++ ((closingWord nested).toList ++ '\n' :: behind)

/-- The visibility as it stands in the first line of an annotation. -/
def visibilityText (nested : Bool) (visibility : Visibility) : List Char :=
  if nested then [] else visibility.word.toList ++ [' ']

/-- A printed annotation as characters, with the text behind it. -/
theorem toList_print (nested : Bool) (indent : String) (visibility : Visibility) (type : JavaType)
    (elements : List Element) (behind : List Char) :
    (print nested indent ⟨visibility, type, elements⟩).toList ++ behind =
      (if nested then [] else indent.toList) ++ ((openingWord nested).toList ++
        ' ' :: (visibilityText nested visibility ++ (type.descriptor.toList ++
          '\n' :: ((Element.printList indent elements).toList ++
            closingText nested indent behind)))) := by
  cases nested <;> simp [print, visibilityText, closingText]

end AnnotationBlock

/-- A printed element as characters, with the text behind it. -/
theorem Element.toList_print (indent name : String) (value : ElementValue) (behind : List Char) :
    (Element.print indent ⟨name, value⟩).toList ++ behind =
      (indent ++ inset).toList ++ (name.toList ++
        ' ' :: '=' :: ' ' :: ((value.print indent).toList ++ behind)) := by
  simp [Element.print]

/-- Printed elements as characters, with the text behind them. -/
theorem Element.toList_printList_cons (indent name : String) (value : ElementValue)
    (elements : List Element) (behind : List Char) :
    (Element.printList indent (⟨name, value⟩ :: elements)).toList ++ behind =
      (indent ++ inset).toList ++ (name.toList ++ ' ' :: '=' :: ' ' ::
        ((value.print indent).toList ++ ((Element.printList indent elements).toList ++ behind))) := by
  rw [← Element.toList_print]
  simp [Element.printList]

/-! ### Legible annotations -/

mutual

/-- Whether an annotation is read as itself in front of the text behind it. -/
def AnnotationBlock.Legible (nested : Bool) (indent : String) (behind : List Char) :
    AnnotationBlock → Prop
  | ⟨visibility, type, elements⟩ =>
    (nested = true → visibility = .system) ∧ type.IsNamed ∧ InLine type.descriptor.toList ∧
      Element.ListLegible indent (AnnotationBlock.closingText nested indent behind) elements

/-- Whether elements are read as themselves in front of the text behind them. -/
def Element.ListLegible (indent : String) (behind : List Char) : List Element → Prop
  | [] => True
  | e :: es =>
    e.Legible indent ((Element.printList indent es).toList ++ behind) ∧
      Element.ListLegible indent behind es

/-- Whether an element is read as itself in front of the text behind it. -/
def Element.Legible (indent : String) (behind : List Char) : Element → Prop
  | ⟨name, value⟩ =>
    name.toList ≠ [] ∧ (∀ c ∈ name.toList, Element.isNameChar c = true) ∧
      value.Legible indent behind

/-- Whether a value is read as itself in front of the text behind it. -/
def ElementValue.Legible (indent : String) (behind : List Char) : ElementValue → Prop
  | .single text =>
    IsTrimmed text.toList ∧ InLine text.toList ∧
      (AnnotationBlock.reader true).Fails (text.toList ++ '\n' :: behind) ∧
      ElementValue.constantReader.Fails (text.toList ++ '\n' :: behind) ∧
      ElementValue.arrayReader.Fails (text.toList ++ '\n' :: behind)
  | .array items => ElementValue.ItemsLegible indent behind items
  | .nested a => a.Legible true (indent ++ inset) behind
  | .constant owner name =>
    InLine owner.path.toList ∧ '-' ∉ owner.path.toList ∧ ':' ∉ name.toList ∧ '\n' ∉ name.toList

end

/-! ### Legible annotations are read back -/

/-- Indentation is layout. -/
theorem afterLayout_indent {indent : String} (hindent : ∀ c ∈ indent.toList, c = ' ')
    (s : List Char) : afterLayout (indent.toList ++ s) = afterLayout s := by
  refine afterLayout_append (fun c hc => ?_) s
  rw [hindent c hc]
  rfl

/-- The first line of an annotation stands first behind the layout. -/
theorem AnnotationBlock.afterLayout_print {nested : Bool} {indent : String}
    (hindent : ∀ c ∈ indent.toList, c = ' ') (visibility : Visibility) (type : JavaType)
    (elements : List Element) (behind : List Char) :
    afterLayout ((AnnotationBlock.print nested indent ⟨visibility, type, elements⟩).toList ++ behind) =
      (openingWord nested).toList ++ ' ' :: (visibilityText nested visibility ++
        (type.descriptor.toList ++ '\n' :: ((Element.printList indent elements).toList ++
          closingText nested indent behind))) := by
  have hstop (s : List Char) : Stops isLayout ((openingWord nested).toList ++ s) := by
    cases nested <;> exact stops_cons.mpr (by decide)
  rw [toList_print]
  cases nested with
  | true => exact afterLayout_of_stops (hstop _)
  | false => exact (afterLayout_indent hindent _).trans (afterLayout_of_stops (hstop _))

/-- The word for a visibility does not begin with layout. -/
theorem Visibility.stops_word (v : Visibility) (s : List Char) :
    Stops isLayout (v.word.toList ++ s) := by
  have hstop : Stops isLayout v.word.toList := by
    cases v <;> exact stops_cons.mpr (by decide)
  exact hstop.append (by cases v <;> decide) s

/-- A visibility is read off its word in front of a space. -/
theorem Visibility.reader_append (v : Visibility) (s : List Char) :
    Visibility.reader (v.word.toList ++ ' ' :: s) = .ok (v, afterLayout s) := by
  have hkeyword (t : List Char) : Visibility.reader.keyword v (v.word.toList ++ t) = .ok (v, t) :=
    Reader.bind_ok (Reader.literal_append v.word t) rfl
  have hother {w : Visibility} {t : List Char} (h : startsWith w.word t = false) :
      (Visibility.reader.keyword w).Fails t :=
    (Reader.literal_fails h).bind
  have hword : Reader.orElse (Visibility.reader.keyword .build)
      (Reader.orElse (Visibility.reader.keyword .runtime) (Visibility.reader.keyword .system))
        (v.word.toList ++ ' ' :: s) = .ok (v, ' ' :: s) := by
    cases v with
    | build => exact Reader.orElse_of_ok (hkeyword _)
    | runtime =>
      rw [Reader.orElse_of_fails (hother rfl)]
      exact Reader.orElse_of_ok (hkeyword _)
    | system =>
      rw [Reader.orElse_of_fails (hother rfl), Reader.orElse_of_fails (hother rfl)]
      exact hkeyword _
  have hread := Reader.inLayout_of_ok (s := v.word.toList ++ ' ' :: s)
    (by rw [afterLayout_of_stops (v.stops_word _)]; exact hword)
  rwa [afterLayout_cons (by decide)] at hread

namespace AnnotationBlock

variable {nested : Bool} {u : List Char}

/-- The type of an annotation is read off the rest of its first line. -/
theorem typeReader_append {type : JavaType} (hnamed : type.IsNamed)
    (hin : InLine type.descriptor.toList) (rest : List Char) :
    typeReader (type.descriptor.toList ++ '\n' :: rest) = .ok (type, rest) := by
  refine Reader.bind_ok (Reader.restOfLine_append hin rest) ?_
  rw [JavaType.ofDescriptor?_descriptor hnamed]
  rfl

/-- The first line of an annotation is read as itself. -/
theorem headerReader_append {visibility : Visibility} {type : JavaType} {rest : List Char}
    (hvisibility : nested = true → visibility = .system) (hnamed : type.IsNamed)
    (hin : InLine type.descriptor.toList)
    (hu : afterLayout u = (openingWord nested).toList ++ ' ' :: (visibilityText nested visibility ++
      (type.descriptor.toList ++ '\n' :: rest))) :
    headerReader nested u = .ok ((visibility, type), rest) := by
  have hstop : Stops isLayout (type.descriptor.toList ++ '\n' :: rest) :=
    (type.stops_descriptor _).isLayout
  have hopening : Reader.inLayout (Reader.literal (openingWord nested)) u =
      .ok ((), afterLayout (visibilityText nested visibility ++
        (type.descriptor.toList ++ '\n' :: rest))) := by
    rw [← afterLayout_cons (c := ' ') (by decide)]
    refine Reader.inLayout_of_ok ?_
    rw [hu]
    exact Reader.literal_append _ _
  refine Reader.bind_ok hopening ?_
  cases nested with
  | true =>
    obtain rfl := hvisibility rfl
    refine Reader.bind_ok (Reader.pure_eq_ok.mpr ⟨rfl, rfl⟩) (Reader.bind_ok ?_ rfl)
    rw [visibilityText, if_pos rfl, List.nil_append, afterLayout_of_stops hstop]
    exact typeReader_append hnamed hin rest
  | false =>
    have htext : visibilityText false visibility ++ (type.descriptor.toList ++ '\n' :: rest) =
        visibility.word.toList ++ ' ' :: (type.descriptor.toList ++ '\n' :: rest) := by
      simp [visibilityText]
    rw [htext, afterLayout_of_stops (visibility.stops_word _)]
    refine Reader.bind_ok (visibility.reader_append _) (Reader.bind_ok ?_ rfl)
    rw [afterLayout_of_stops hstop]
    exact typeReader_append hnamed hin rest

/-- The words that end an annotation are read with the layout around them. -/
theorem closingReader_append {behind : List Char}
    (hu : afterLayout u = (closingWord nested).toList ++ '\n' :: behind) :
    closingReader nested u = .ok ((), afterLayout behind) := by
  rw [← afterLayout_cons (c := '\n') (by decide)]
  refine Reader.inLayout_of_ok ?_
  rw [hu]
  exact Reader.literal_append _ _

/-- An annotation does not end where something else than a dot stands. -/
theorem closingReader_fails {c : Char} {s : List Char} (hu : afterLayout u = c :: s) (hc : c ≠ '.') :
    (closingReader nested).Fails u := by
  refine Reader.Fails.inLayout ?_
  rw [hu]
  cases nested <;> exact Reader.literal_fails (startsWith_eq_false rfl hc)

/-- No annotation begins where something else than a dot stands. -/
theorem reader_fails_of_ne {c : Char} {s : List Char} (hu : afterLayout u = c :: s) (hc : c ≠ '.') :
    (reader nested).Fails u := by
  refine reader_fails (Reader.Fails.bind (Reader.Fails.inLayout ?_))
  rw [hu]
  cases nested <;> exact Reader.literal_fails (startsWith_eq_false rfl hc)

end AnnotationBlock

/-- No character of the name of an element is layout, a dot or an equals sign. -/
theorem Element.isNameChar_spec {c : Char} (h : Element.isNameChar c = true) :
    isLayout c = false ∧ c ≠ '.' ∧ c ≠ '=' ∧ c ≠ '\x7b' := by
  refine ⟨?_, ?_, ?_, ?_⟩
  · cases hc : isLayout c with
    | false => rfl
    | true =>
      simp only [isLayout, Bool.or_eq_true, beq_iff_eq] at hc
      obtain ((rfl | rfl) | rfl) | rfl := hc <;> exact absurd h (by decide)
  all_goals
    rintro rfl
    exact absurd h (by decide)

/-- The name of the first element stands first behind the layout. -/
theorem Element.afterLayout_printList_cons {indent name : String}
    (hindent : ∀ c ∈ indent.toList, c = ' ') (hne : name.toList ≠ [])
    (hchars : ∀ c ∈ name.toList, Element.isNameChar c = true) (value : ElementValue)
    (elements : List Element) (behind : List Char) :
    afterLayout ((Element.printList indent (⟨name, value⟩ :: elements)).toList ++ behind) =
      name.toList ++ ' ' :: '=' :: ' ' :: ((value.print indent).toList ++
        ((Element.printList indent elements).toList ++ behind)) := by
  obtain ⟨c, cs, hcs⟩ := List.exists_cons_of_ne_nil hne
  obtain ⟨hlayout, -, -, -⟩ := Element.isNameChar_spec (hchars c (by simp [hcs]))
  have hspaces : ∀ c ∈ (indent ++ inset).toList, c = ' ' := fun c => eq_space_of_mem_inset hindent
  have hstop (s : List Char) : Stops isLayout (name.toList ++ s) := by
    rw [hcs]
    exact stops_cons.mpr hlayout
  rw [Element.toList_printList_cons, afterLayout_indent hspaces, afterLayout_of_stops (hstop _)]

/-- The name of an element is read up to the equals sign and the spaces behind it. -/
theorem Element.nameReader_append {name : String} {u rest : List Char} (hne : name.toList ≠ [])
    (hchars : ∀ c ∈ name.toList, Element.isNameChar c = true) (hrest : Stops isSpace rest)
    (hu : afterLayout u = name.toList ++ ' ' :: '=' :: ' ' :: rest) :
    Element.nameReader u = .ok (name, rest) := by
  have hname : Reader.inLayout (Reader.run1 Element.isNameChar) u =
      .ok (name.toList, '=' :: ' ' :: rest) := by
    have hequals : afterLayout (' ' :: '=' :: ' ' :: rest) = '=' :: ' ' :: rest := by
      rw [afterLayout_cons (by decide)]
      exact afterLayout_of_stops (by simp [isLayout])
    rw [← hequals]
    refine Reader.inLayout_of_ok ?_
    rw [hu]
    exact Reader.run1_append hne hchars (by simp; decide)
  refine Reader.bind_ok hname (Reader.bind_ok (Reader.literal_append "=" (' ' :: rest)) ?_)
  refine Reader.bind_ok (Reader.spaces_cons (by decide) hrest) ?_
  rw [String.ofList_toList]
  rfl

namespace ElementValue

/-- A printed constant as characters, with the text behind it. -/
theorem toList_print_constant (indent : String) (owner : ClassName) (name : String)
    (behind : List Char) :
    (print indent (.constant owner name)).toList ++ behind =
      ".enum".toList ++ ' ' :: (owner.descriptor.toList ++ '-' :: '>' :: (name.toList ++
        ':' :: (owner.descriptor.toList ++ '\n' :: behind))) := by
  simp [print]

/-- A printed constant does not begin with layout. -/
theorem stops_enumWord (s : List Char) : Stops isLayout (".enum".toList ++ s) :=
  stops_cons.mpr (by decide)

/-- A constant of an enumeration is read as itself. -/
theorem constantReader_append {owner : ClassName} {name : String} (hin : InLine owner.path.toList)
    (howner : '-' ∉ owner.path.toList) (hcolon : ':' ∉ name.toList) (hname : '\n' ∉ name.toList)
    (behind : List Char) :
    constantReader (".enum".toList ++ ' ' :: (owner.descriptor.toList ++ '-' :: '>' ::
      (name.toList ++ ':' :: (owner.descriptor.toList ++ '\n' :: behind)))) =
        .ok (.constant owner name, behind) := by
  have hdescriptor : InLine owner.descriptor.toList := by
    rw [owner.toList_descriptor]
    simp [hin, Reader.isInLine]
  have hend : InLine (':' :: owner.descriptor.toList) := inLine_cons.mpr ⟨by decide, hdescriptor⟩
  have hchars : ∀ c ∈ owner.descriptor.toList, (c != '-') = true := by
    intro c hc
    rw [owner.toList_descriptor] at hc
    have hne : c ≠ '-' := by
      rintro rfl
      simp [howner] at hc
    simpa using hne
  have hnameChars : ∀ c ∈ name.toList, (c != ':' && c != '\n') = true := by
    intro c hc
    have h₁ : c ≠ ':' := fun h => hcolon (h ▸ hc)
    have h₂ : c ≠ '\n' := fun h => hname (h ▸ hc)
    simp [h₁, h₂]
  have hstop (s : List Char) : Stops isLayout (owner.descriptor.toList ++ s) := by
    simp [owner.toList_descriptor, isLayout]
  have hword (s : List Char) : Reader.inLayout (Reader.literal ".enum")
      (".enum".toList ++ ' ' :: (owner.descriptor.toList ++ s)) =
        .ok ((), owner.descriptor.toList ++ s) := by
    have hread := Reader.inLayout_of_ok (s := ".enum".toList ++ ' ' :: (owner.descriptor.toList ++ s))
      (r := Reader.literal ".enum")
      (by rw [afterLayout_of_stops (stops_enumWord _)]; exact Reader.literal_append ".enum" _)
    rwa [afterLayout_cons (by decide), afterLayout_of_stops (hstop s)] at hread
  refine Reader.bind_ok (hword _) ?_
  refine Reader.bind_ok (Reader.run1_append (by simp [owner.toList_descriptor]) hchars (by simp)) ?_
  refine Reader.bind_ok (Reader.literal_append "->" _) ?_
  refine Reader.bind_ok (Reader.run_append hnameChars (by simp)) ?_
  refine Reader.bind_ok (Reader.restOfLine_append hend behind) ?_
  rw [String.ofList_toList, String.ofList_toList, ClassName.ofDescriptor_descriptor]
  rfl

/-- The brace that begins an array is read with the layout behind it. -/
theorem openingBrace_append (s : List Char) :
    Reader.inLayout (Reader.literal "\x7b") ('\x7b' :: s) = .ok ((), afterLayout s) := by
  refine Reader.inLayout_of_ok ?_
  rw [afterLayout_of_stops (stops_cons.mpr (by decide))]
  exact Reader.literal_append "\x7b" s

/-- An array whose items are legible is read as itself. -/
theorem arrayReader_append {indent : String} (hindent : ∀ c ∈ indent.toList, c = ' ')
    {items : List String} {behind : List Char} (hitems : ItemsLegible indent behind items) :
    arrayReader ('\x7b' :: itemsFrom indent items behind) = .ok (.array items, afterLayout behind) := by
  have hread := manyTill_itemsFrom hindent ('\x7b' :: itemsFrom indent items behind) hitems
    ⟨afterLayout_afterLayout _, fun _ => afterLayout_afterLayout _⟩
  rw [afterLayout_cons (by decide)] at hread
  unfold arrayReader
  rw [openingBrace_append]
  simp only [hread]

/-- Neither a constant nor plain text is an array. -/
theorem constantReader_fails {c : Char} {s u : List Char} (hu : afterLayout u = c :: s)
    (hc : c ≠ '.') : constantReader.Fails u := by
  refine Reader.Fails.bind (Reader.Fails.inLayout ?_)
  rw [hu]
  exact Reader.literal_fails (startsWith_eq_false rfl hc)

/-- A line of plain text is read as itself where nothing else can be read. -/
theorem singleReader_append {text : String} (htrimmed : IsTrimmed text.toList)
    (hin : InLine text.toList) (behind : List Char) :
    singleReader (text.toList ++ '\n' :: behind) = .ok (.single text, behind) := by
  refine Reader.bind_ok (Reader.restOfLine_append hin behind) ?_
  rw [htrimmed, String.ofList_toList]
  rfl

/-- The printed value does not begin with a space. -/
theorem stops_print {value : ElementValue} (h : ∀ text, value = .single text → IsTrimmed text.toList)
    (indent : String) (behind : List Char) :
    Stops isSpace ((value.print indent).toList ++ behind) := by
  cases value with
  | single text =>
    have htext : (print indent (.single text)).toList ++ behind = text.toList ++ '\n' :: behind := by
      simp [print]
    rw [htext]
    exact (h text rfl).stops_isSpace (by decide) behind
  | array items => simp [print, isSpace]
  | nested a =>
    obtain ⟨visibility, type, elements⟩ := a
    rw [print, AnnotationBlock.toList_print]
    exact stops_cons.mpr (by decide)
  | constant owner name =>
    rw [toList_print_constant]
    exact stops_cons.mpr (by decide)

end ElementValue

mutual

/-- A legible annotation is read as itself. -/
theorem AnnotationBlock.reader_print {nested : Bool} {indent : String} {behind u : List Char}
    (hindent : ∀ c ∈ indent.toList, c = ' ') (a : AnnotationBlock)
    (ha : a.Legible nested indent behind)
    (hu : afterLayout u = afterLayout ((a.print nested indent).toList ++ behind)) :
    AnnotationBlock.reader nested u = .ok (a, afterLayout behind) := by
  match a, ha with
  | ⟨visibility, type, elements⟩, ⟨hvisibility, hnamed, hin, helements⟩ =>
    rw [AnnotationBlock.afterLayout_print hindent] at hu
    exact AnnotationBlock.reader_of_ok
      (AnnotationBlock.headerReader_append hvisibility hnamed hin hu)
      (Element.elementsReader_printList hindent elements helements rfl)

/-- Legible elements are read as themselves, down to the end of the annotation. -/
theorem Element.elementsReader_printList {nested : Bool} {indent : String} {behind u : List Char}
    (hindent : ∀ c ∈ indent.toList, c = ' ') (elements : List Element)
    (h : Element.ListLegible indent (AnnotationBlock.closingText nested indent behind) elements)
    (hu : afterLayout u = afterLayout ((Element.printList indent elements).toList ++
      AnnotationBlock.closingText nested indent behind)) :
    AnnotationBlock.elementsReader nested u = .ok (elements, afterLayout behind) := by
  match elements, h with
  | [], _ =>
    refine AnnotationBlock.elementsReader_nil (AnnotationBlock.closingReader_append ?_)
    have hstop : Stops isLayout ((AnnotationBlock.closingWord nested).toList ++ '\n' :: behind) := by
      cases nested <;> exact stops_cons.mpr (by decide)
    rw [hu]
    exact (afterLayout_indent hindent _).trans (afterLayout_of_stops hstop)
  | ⟨name, value⟩ :: elements, ⟨⟨hne, hchars, hvalue⟩, hrest⟩ =>
    obtain ⟨c, cs, hcs⟩ := List.exists_cons_of_ne_nil hne
    obtain ⟨-, hdot, -, -⟩ := Element.isNameChar_spec (hchars c (by simp [hcs]))
    rw [Element.afterLayout_printList_cons hindent hne hchars] at hu
    obtain ⟨v, hread, hv⟩ := ElementValue.valueReader_print hindent value hvalue
    have htrimmed : ∀ text, value = .single text → IsTrimmed text.toList := by
      rintro text rfl
      exact hvalue.1
    refine AnnotationBlock.elementsReader_cons ?_
      (Element.nameReader_append hne hchars (ElementValue.stops_print htrimmed _ _) hu) hread
      (Element.elementsReader_printList hindent elements hrest hv)
    rw [hcs] at hu
    exact AnnotationBlock.closingReader_fails hu hdot

/-- A legible value is read as itself. -/
theorem ElementValue.valueReader_print {indent : String} {behind : List Char}
    (hindent : ∀ c ∈ indent.toList, c = ' ') (value : ElementValue)
    (h : value.Legible indent behind) :
    ∃ u, AnnotationBlock.valueReader ((value.print indent).toList ++ behind) = .ok (value, u) ∧
      afterLayout u = afterLayout behind := by
  match value, h with
  | .single text, ⟨htrimmed, hin, hannotated, hconstant, harray⟩ =>
    have htext : (ElementValue.print indent (.single text)).toList ++ behind =
        text.toList ++ '\n' :: behind := by
      simp [ElementValue.print]
    refine ⟨behind, ?_, rfl⟩
    rw [htext, AnnotationBlock.valueReader_of_fails hannotated, ElementValue.flatReader,
      Reader.orElse_of_fails hconstant, Reader.orElse_of_fails harray]
    exact ElementValue.singleReader_append htrimmed hin behind
  | .array items, hitems =>
    have hu : afterLayout ('\x7b' :: ElementValue.itemsFrom indent items behind) =
        '\x7b' :: ElementValue.itemsFrom indent items behind :=
      afterLayout_of_stops (stops_cons.mpr (by decide))
    refine ⟨afterLayout behind, ?_, afterLayout_afterLayout behind⟩
    rw [ElementValue.toList_print_array,
      AnnotationBlock.valueReader_of_fails (AnnotationBlock.reader_fails_of_ne hu (by decide)),
      ElementValue.flatReader,
      Reader.orElse_of_fails (ElementValue.constantReader_fails hu (by decide))]
    exact Reader.orElse_of_ok (ElementValue.arrayReader_append hindent hitems)
  | .nested a, ha =>
    have hspaces : ∀ c ∈ (indent ++ inset).toList, c = ' ' := fun c => eq_space_of_mem_inset hindent
    refine ⟨afterLayout behind, AnnotationBlock.valueReader_of_ok ?_, afterLayout_afterLayout behind⟩
    exact AnnotationBlock.reader_print hspaces a ha rfl
  | .constant owner name, ⟨hin, howner, hcolon, hname⟩ =>
    refine ⟨behind, ?_, rfl⟩
    rw [ElementValue.toList_print_constant, AnnotationBlock.valueReader_of_fails]
    · exact Reader.orElse_of_ok (ElementValue.constantReader_append hin howner hcolon hname behind)
    · refine AnnotationBlock.reader_fails (Reader.Fails.bind (Reader.Fails.inLayout ?_))
      rw [afterLayout_of_stops (ElementValue.stops_enumWord _)]
      exact Reader.literal_fails rfl

end

/-! ### Annotations one behind another -/

namespace AnnotationBlock

/-- A printed annotation as characters. -/
def outerText (indent : String) (a : AnnotationBlock) : List Char :=
  (a.print false indent).toList

/-- A printed annotation begins with its first word. -/
theorem afterLayout_outerText {indent : String} (hindent : ∀ c ∈ indent.toList, c = ' ')
    (a : AnnotationBlock) (behind : List Char) :
    ∃ s, afterLayout (a.outerText indent ++ behind) = ".annotation".toList ++ s := by
  obtain ⟨visibility, type, elements⟩ := a
  exact ⟨_, afterLayout_print hindent visibility type elements behind⟩

/-- Whether each annotation of a list is read as itself in front of the others and the text behind
them. -/
def ListLegible (indent : String) (behind : List Char) (as : List AnnotationBlock) : Prop :=
  EachInPlace (outerText indent) (fun a s => a.Legible false indent s) behind as

/-- Where something else than an annotation stands, none is read. -/
theorem reader_fails_of_startsWith {u : List Char}
    (h : startsWith ".annotation" (afterLayout u) = false) : (reader false).Fails u :=
  reader_fails (Reader.Fails.bind (Reader.Fails.inLayout (Reader.literal_fails h)))

/-- An annotation is read in the same way behind any layout. -/
theorem reader_congr {nested : Bool} {u v : List Char} (h : afterLayout u = afterLayout v) :
    reader nested u = reader nested v := by
  have hheader : headerReader nested u = headerReader nested v := by
    have hopening : Reader.inLayout (Reader.literal (openingWord nested)) u =
        Reader.inLayout (Reader.literal (openingWord nested)) v := by
      rw [Reader.inLayout, Reader.bind_of_ok (Reader.layout_apply u),
        Reader.bind_of_ok (Reader.layout_apply v), h]
    rw [headerReader, Reader.bind_apply, Reader.bind_apply, hopening]
  rw [reader_apply, reader_apply, hheader]

section Closed

variable {α : Type} {print : α → List Char} {value : α → AnnotationBlock}
  {P : α → List Char → Prop} {as : List α} {closing : String} {rest u : List Char}

/-- Annotations that are read in their places are taken one after another, up to something else. -/
theorem takeMany_reader
    (hread : ∀ a s u, P a s → afterLayout u = afterLayout (print a ++ s) →
      reader false u = .ok (value a, afterLayout s))
    (has : EachInPlace print P rest as) (hu : afterLayout u = afterLayout (as.flatMap print ++ rest))
    (hrest : startsWith ".annotation" (afterLayout rest) = false) :
    ∃ t, Reader.takeMany (reader false) (progresses_reader false) u = (as.map value, t) ∧
      afterLayout t = afterLayout rest :=
  Reader.takeMany_eachInPlace value hread has hu fun _ ht => reader_fails_of_startsWith (ht ▸ hrest)

/-- One or more annotations that are read in their places are taken together. -/
theorem many1_reader
    (hread : ∀ a s u, P a s → afterLayout u = afterLayout (print a ++ s) →
      reader false u = .ok (value a, afterLayout s))
    (hne : as ≠ []) (has : EachInPlace print P rest as)
    (hu : afterLayout u = afterLayout (as.flatMap print ++ rest))
    (hrest : startsWith ".annotation" (afterLayout rest) = false) :
    ∃ t, Reader.many1 (reader false) (progresses_reader false) u = .ok (as.map value, t) ∧
      afterLayout t = afterLayout rest := by
  obtain ⟨a, as, rfl⟩ := List.exists_cons_of_ne_nil hne
  obtain ⟨ha, has⟩ := has
  rw [List.flatMap_cons, List.append_assoc] at hu
  obtain ⟨t, hmany, ht⟩ := takeMany_reader hread has (afterLayout_afterLayout _) hrest
  exact ⟨t, Reader.bind_ok (hread a _ u ha hu) (Reader.bind_ok (congrArg Except.ok hmany) rfl), ht⟩

/-- Annotations that are read in their places are read with the words that close them off. -/
theorem closedReader_of_reader {behind : List Char}
    (hread : ∀ a s u, P a s → afterLayout u = afterLayout (print a ++ s) →
      reader false u = .ok (value a, afterLayout s))
    (hne : as ≠ []) (has : EachInPlace print P rest as)
    (hu : afterLayout u = afterLayout (as.flatMap print ++ rest))
    (hrest : afterLayout rest = closing.toList ++ behind)
    (hclosing : startsWith ".annotation" (closing.toList ++ behind) = false) :
    closedReader closing u = .ok (as.map value, afterLayout behind) := by
  obtain ⟨t, hmany, ht⟩ := many1_reader hread hne has hu (hrest ▸ hclosing)
  have hend : Reader.inLayout (Reader.literal closing) t = .ok ((), afterLayout behind) := by
    refine Reader.inLayout_of_ok ?_
    rw [ht, hrest]
    exact Reader.literal_append closing behind
  exact Reader.bind_ok hmany (Reader.bind_ok hend rfl)

/-- Annotations that are read in their places are not closed off where the words for it do not stand
behind them. -/
theorem closedReader_fails_of_reader
    (hread : ∀ a s u, P a s → afterLayout u = afterLayout (print a ++ s) →
      reader false u = .ok (value a, afterLayout s))
    (has : EachInPlace print P rest as) (hu : afterLayout u = afterLayout (as.flatMap print ++ rest))
    (hrest : startsWith ".annotation" (afterLayout rest) = false)
    (hclosing : startsWith closing (afterLayout rest) = false) : (closedReader closing).Fails u := by
  by_cases hne : as = []
  · subst hne
    exact Reader.Fails.bind (Reader.Fails.bind (reader_fails_of_startsWith (hu ▸ hrest)))
  · obtain ⟨t, hmany, ht⟩ := many1_reader hread hne has hu hrest
    refine Reader.Fails.bind_of_ok hmany (Reader.Fails.bind (Reader.Fails.inLayout ?_))
    rw [ht]
    exact Reader.literal_fails hclosing

end Closed

/-- Annotations are read with the words that close them off. -/
theorem closedReader_append {indent closing : String} {as : List AnnotationBlock}
    {behind u : List Char} (hindent : ∀ c ∈ indent.toList, c = ' ') (hne : as ≠ [])
    (hstop : Stops isLayout (closing.toList ++ behind))
    (hclosing : startsWith ".annotation" (closing.toList ++ behind) = false)
    (has : ListLegible indent (closing.toList ++ behind) as)
    (hu : afterLayout u = afterLayout (as.flatMap (outerText indent) ++ (closing.toList ++ behind))) :
    closedReader closing u = .ok (as, afterLayout behind) := by
  have hread : closedReader closing u = .ok (as.map id, afterLayout behind) :=
    closedReader_of_reader (fun a s u ha hu => reader_print hindent a ha hu) hne has hu
      (afterLayout_of_stops hstop) hclosing
  rwa [List.map_id] at hread

/-- Nothing is closed off where no annotation stands. -/
theorem closedReader_fails (closing : String) {u : List Char}
    (h : startsWith ".annotation" (afterLayout u) = false) : (closedReader closing).Fails u :=
  Reader.Fails.bind (Reader.Fails.bind (reader_fails_of_startsWith h))

end AnnotationBlock

end GatedCalls
