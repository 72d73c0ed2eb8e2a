import GatedCalls.Proofs.Smali.Annotation
import GatedCalls.Proofs.Smali.Modifier
import GatedCalls.Smali.FieldReader

/-!
# Fields are read as they are printed

A field is its first line and, if it has any, its annotations with the words that close them off.
Without annotations, those of something behind the field must not be taken for its own.
-/

namespace GatedCalls

open Text

namespace Field

/-- The rest of the first line of a field behind its type. -/
def initialText : Option String → List Char
  | some value => ' ' :: '=' :: ' ' :: value.toList
  | none => []

/-- The lines below the first one of a field, and the text behind the field. -/
def annotationText (as : List AnnotationBlock) (behind : List Char) : List Char :=
  if as.isEmpty then behind
  else as.flatMap (AnnotationBlock.outerText "    ") ++ (".end field".toList ++ '\n' :: behind)

/-- A printed field as characters, with the text behind it. -/
theorem toList_print (f : Field) (behind : List Char) :
    f.print.toList ++ behind = ".field".toList ++ ' ' :: ((Modifier.printList f.modifiers).toList ++
      (f.name.toList ++ ':' :: (f.type.descriptor.toList ++ (initialText f.initial ++
        '\n' :: annotationText f.annotations ('\n' :: behind))))) := by
  obtain ⟨name, modifiers, type, initial, annotations⟩ := f
  have hannotations : annotations.flatMap (AnnotationBlock.outerText "    ") =
      annotations.flatMap fun a => (a.print false "    ").toList := rfl
  simp only [annotationText, hannotations]
  delta print
  cases initial <;> cases annotations <;>
    simp [initialText, String.toList_join, List.flatMap_map]

/-- A printed field begins with its first word. -/
theorem exists_afterLayout_print (f : Field) (behind : List Char) :
    ∃ s, afterLayout (f.print.toList ++ behind) = ".field".toList ++ s := by
  rw [toList_print]
  exact ⟨_, afterLayout_of_stops (stops_cons.mpr (by decide))⟩

/-- Whether a field is read as itself in front of the text behind it. -/
structure Legible (f : Field) (behind : List Char) : Prop where
  name_ne_nil : f.name.toList ≠ []
  name_trimmed : IsTrimmed f.name.toList
  name_chars : ∀ c ∈ f.name.toList, isNameChar c = true
  /-- No modifier is read off the name. -/
  name_free : ¬BeginsWithModifier f.name.toList
  type_named : f.type.IsNamed
  type_chars : ∀ c ∈ f.type.descriptor.toList, isTypeChar c = true
  initial_legible : ∀ value ∈ f.initial, IsTrimmed value.toList ∧ InLine value.toList
  /-- The annotations are legible in front of the line that closes them off. -/
  annotations_legible : f.annotations ≠ [] →
    AnnotationBlock.ListLegible "    " (".end field".toList ++ '\n' :: '\n' :: behind) f.annotations
  /-- No annotations that a line closes off stand behind a field without annotations. -/
  annotations_closed : f.annotations = [] →
    (AnnotationBlock.closedReader ".end field").Fails ('\n' :: behind)

/-- The type of a field is read off the text up to a blank or an equals sign. -/
theorem typeReader_append {type : JavaType} (hnamed : type.IsNamed)
    (hchars : ∀ c ∈ type.descriptor.toList, isTypeChar c = true) {rest : List Char}
    (hrest : Stops isTypeChar rest) :
    typeReader (type.descriptor.toList ++ rest) = .ok (type, rest) := by
  obtain ⟨c, cs, hcs, -⟩ := type.exists_descriptor_eq_cons
  refine Reader.bind_ok (Reader.run1_append (by simp [hcs]) hchars hrest) ?_
  rw [JavaType.ofDescriptor?_descriptor hnamed]
  rfl

/-- The value that a field starts with is read off the rest of the line, if there is one. -/
theorem initialReader_append {initial : Option String}
    (h : ∀ value ∈ initial, IsTrimmed value.toList ∧ InLine value.toList) (rest : List Char) :
    Reader.optional initialReader (initialText initial ++ '\n' :: rest) =
      .ok (initial, '\n' :: rest) := by
  cases initial with
  | none =>
    refine Reader.optional_of_fails ?_
    refine Reader.Fails.bind_of_ok (Reader.spaces_of_stops (stops_cons.mpr (by decide))) ?_
    exact (Reader.literal_fails rfl).bind
  | some value =>
    obtain ⟨htrimmed, hin⟩ := h value rfl
    have hstop : Stops isSpace (value.toList ++ '\n' :: rest) :=
      htrimmed.stops_isSpace (by decide) rest
    refine Reader.optional_of_ok ?_
    refine Reader.bind_ok (Reader.spaces_cons (by decide) (stops_cons.mpr (by decide))) ?_
    refine Reader.bind_ok (Reader.literal_append "=" _) ?_
    refine Reader.bind_ok (Reader.spaces_cons (by decide) hstop) ?_
    refine Reader.bind_ok (Reader.lineText_append hin rest) ?_
    rw [htrimmed, String.ofList_toList]
    rfl

/-- What follows the type of a field stops it. -/
theorem stops_initialText (initial : Option String) (rest : List Char) :
    Stops isTypeChar (initialText initial ++ '\n' :: rest) := by
  cases initial <;> exact stops_cons.mpr (by decide)

/-- The annotations of a field are read with the words that close them off, if it has any. -/
theorem annotationReader_append {as : List AnnotationBlock} {behind : List Char}
    (hlegible : as ≠ [] → AnnotationBlock.ListLegible "    "
      (".end field".toList ++ '\n' :: '\n' :: behind) as)
    (hclosed : as = [] → (AnnotationBlock.closedReader ".end field").Fails ('\n' :: behind)) :
    ∃ x u, Reader.optional (AnnotationBlock.closedReader ".end field")
      (annotationText as ('\n' :: behind)) = .ok (x, u) ∧ x.getD [] = as ∧
        afterLayout u = afterLayout behind := by
  obtain rfl | hne := Decidable.em (as = [])
  · exact ⟨none, _, Reader.optional_of_fails (hclosed rfl), rfl, afterLayout_cons (by decide) _⟩
  · have hspaces : ∀ c ∈ ("    " : String).toList, c = ' ' := by simp
    have htext : annotationText as ('\n' :: behind) =
        as.flatMap (AnnotationBlock.outerText "    ") ++
          (".end field".toList ++ '\n' :: '\n' :: behind) := by
      simp [annotationText, hne]
    have hread := AnnotationBlock.closedReader_append hspaces hne (stops_cons.mpr (by decide)) rfl
      (hlegible hne) (congrArg afterLayout htext)
    refine ⟨some as, _, Reader.optional_of_ok hread, rfl, ?_⟩
    rw [afterLayout_afterLayout, afterLayout_cons (by decide), afterLayout_cons (by decide)]

/-- Takes a field without what stands below its line. -/
def lineReader : Reader Field := do
  Reader.literal ".field"
  Reader.spaces1
  let modifiers ← Modifier.listReader
  let name ← Reader.run1 isNameChar
  Reader.literal ":"
  let type ← typeReader
  let initial ← Reader.optional initialReader
  let _ ← Reader.restOfLine
  return ⟨String.ofList (trim name), modifiers, type, initial, []⟩

/-- A field is its line and the annotations that are closed off below it. -/
theorem reader_of_lineReader {f : Field} {x : Option (List AnnotationBlock)} {s t u : List Char}
    (hline : lineReader s = .ok (f, t))
    (hannotations : Reader.optional (AnnotationBlock.closedReader ".end field") t = .ok (x, u)) :
    reader s = .ok ({ f with annotations := x.getD [] }, u) := by
  obtain ⟨_, s₁, hword, hline⟩ := Reader.bind_eq_ok.mp hline
  obtain ⟨_, s₂, hspaces, hline⟩ := Reader.bind_eq_ok.mp hline
  obtain ⟨modifiers, s₃, hmodifiers, hline⟩ := Reader.bind_eq_ok.mp hline
  obtain ⟨name, s₄, hname, hline⟩ := Reader.bind_eq_ok.mp hline
  obtain ⟨_, s₅, hcolon, hline⟩ := Reader.bind_eq_ok.mp hline
  obtain ⟨type, s₆, htype, hline⟩ := Reader.bind_eq_ok.mp hline
  obtain ⟨initial, s₇, hinitial, hline⟩ := Reader.bind_eq_ok.mp hline
  obtain ⟨_, s₈, hrest, hline⟩ := Reader.bind_eq_ok.mp hline
  obtain ⟨rfl, rfl⟩ := Reader.pure_eq_ok.mp hline
  refine Reader.bind_ok hword (Reader.bind_ok hspaces (Reader.bind_ok hmodifiers ?_))
  refine Reader.bind_ok hname (Reader.bind_ok hcolon (Reader.bind_ok htype ?_))
  exact Reader.bind_ok hinitial (Reader.bind_ok hrest (Reader.bind_ok hannotations rfl))

/-- The line of a field is read whatever stands below it. -/
theorem lineReader_append {f : Field} {behind : List Char} (h : f.Legible behind) (s : List Char) :
    lineReader (".field".toList ++ ' ' :: ((Modifier.printList f.modifiers).toList ++
      (f.name.toList ++ ':' :: (f.type.descriptor.toList ++ (initialText f.initial ++ '\n' :: s))))) =
        .ok ({ f with annotations := [] }, s) := by
  have hname (s : List Char) : Stops isSpace (f.name.toList ++ s) :=
    h.name_trimmed.stops.isLayout.isSpace.append h.name_ne_nil s
  have hmodifiers (s : List Char) :
      Stops isSpace ((Modifier.printList f.modifiers).toList ++ (f.name.toList ++ s)) :=
    Modifier.stops_printList f.modifiers (hname s)
  have hfree (s : List Char) : ¬BeginsWithModifier (f.name.toList ++ ':' :: s) := by
    rw [beginsWithModifier_append (by decide) fun m => m.not_mem_word.1]
    exact h.name_free
  refine Reader.bind_ok (Reader.literal_append ".field" _) ?_
  refine Reader.bind_ok (Reader.spaces1_cons (by decide) (hmodifiers _)) ?_
  refine Reader.bind_ok (Modifier.listReader_append f.modifiers (hname _) (hfree _)) ?_
  refine Reader.bind_ok (Reader.run1_append h.name_ne_nil h.name_chars (stops_cons.mpr (by decide))) ?_
  refine Reader.bind_ok (Reader.literal_append ":" _) ?_
  refine Reader.bind_ok (typeReader_append h.type_named h.type_chars (stops_initialText _ _)) ?_
  refine Reader.bind_ok (initialReader_append h.initial_legible _) ?_
  refine Reader.bind_ok (Reader.restOfLine_append inLine_nil _) ?_
  rw [h.name_trimmed, String.ofList_toList]
  rfl

/-- A legible field is read as itself. -/
theorem reader_print {f : Field} {behind : List Char} (h : f.Legible behind) :
    ∃ u, reader (f.print.toList ++ behind) = .ok (f, u) ∧ afterLayout u = afterLayout behind := by
  obtain ⟨x, u, hannotations, hx, hu⟩ :=
    annotationReader_append h.annotations_legible h.annotations_closed
  have hread := reader_of_lineReader (lineReader_append h _) hannotations
  refine ⟨u, ?_, hu⟩
  rw [toList_print, hread, hx]

end Field

end GatedCalls
