import GatedCalls.Proofs.Smali.Exact.Annotation
import GatedCalls.Proofs.Smali.Field

/-!
# Fields that are read back are legible

The converse of `Field.reader_print`. The parts of a field are in the form in which they are printed
because they have been read; it is left to be shown that each was read where it stands.
-/

namespace GatedCalls

open Text

namespace Field

variable {f : Field} {s t : List Char}

/-- The type of a field that has been read, without blanks or equals signs. -/
theorem typeReader_eq_ok {type : JavaType} (h : typeReader s = .ok (type, t)) :
    type.IsNamed ∧ ∀ c ∈ type.descriptor.toList, isTypeChar c = true := by
  obtain ⟨text, u, hrun, h⟩ := Reader.bind_eq_ok.mp h
  obtain ⟨-, -, hchars, -⟩ := Reader.run1_eq_ok' hrun
  cases htype : JavaType.ofDescriptor? (String.ofList text) with
  | none =>
    rw [htype] at h
    cases h
  | some type' =>
    rw [htype] at h
    obtain ⟨rfl, rfl⟩ := Reader.pure_eq_ok.mp h
    obtain ⟨htext, hnamed⟩ := JavaType.ofDescriptor?_eq_some.mp htype
    rw [String.toList_ofList] at htext
    exact ⟨hnamed, fun c hc => hchars c (mem_of_mem_trim (htext ▸ hc))⟩

/-- The initial value of a field that has been read is trimmed and in line. -/
theorem initialReader_eq_ok {initial : Option String}
    (h : Reader.optional initialReader s = .ok (initial, t)) :
    ∀ value ∈ initial, IsTrimmed value.toList ∧ InLine value.toList := by
  rintro value rfl
  have hread : initialReader s = .ok (value, t) := Reader.optional_eq_ok_some.mp h
  obtain ⟨_, s₁, -, hread⟩ := Reader.bind_eq_ok.mp hread
  obtain ⟨_, s₂, -, hread⟩ := Reader.bind_eq_ok.mp hread
  obtain ⟨_, s₃, -, hread⟩ := Reader.bind_eq_ok.mp hread
  obtain ⟨text, s₄, hline, hread⟩ := Reader.bind_eq_ok.mp hread
  obtain ⟨rfl, -⟩ := Reader.pure_eq_ok.mp hread
  rw [String.toList_ofList]
  exact ⟨isTrimmed_trim text, (Reader.lineText_eq_ok hline).2.trim⟩

/-- The parts of a field that has been read. -/
theorem reader_eq_ok (h : reader s = .ok (f, t)) :
    ∃ s₁ s₂ s₃ s₄ s₅ s₆ s₇ s₈ name line x,
      Reader.literal ".field" s = .ok ((), s₁) ∧ Reader.spaces1 s₁ = .ok ((), s₂) ∧
      Modifier.listReader s₂ = .ok (f.modifiers, s₃) ∧ Reader.run1 isNameChar s₃ = .ok (name, s₄) ∧
      f.name = String.ofList (trim name) ∧ Reader.literal ":" s₄ = .ok ((), s₅) ∧
      typeReader s₅ = .ok (f.type, s₆) ∧
      Reader.optional initialReader s₆ = .ok (f.initial, s₇) ∧
      Reader.restOfLine s₇ = .ok (line, s₈) ∧
      Reader.optional (AnnotationBlock.closedReader ".end field") s₈ = .ok (x, t) ∧
      x.getD [] = f.annotations := by
  obtain ⟨_, s₁, hword, h⟩ := Reader.bind_eq_ok.mp h
  obtain ⟨_, s₂, hspaces, h⟩ := Reader.bind_eq_ok.mp h
  obtain ⟨modifiers, s₃, hmodifiers, h⟩ := Reader.bind_eq_ok.mp h
  obtain ⟨name, s₄, hname, h⟩ := Reader.bind_eq_ok.mp h
  obtain ⟨_, s₅, hcolon, h⟩ := Reader.bind_eq_ok.mp h
  obtain ⟨type, s₆, htype, h⟩ := Reader.bind_eq_ok.mp h
  obtain ⟨initial, s₇, hinitial, h⟩ := Reader.bind_eq_ok.mp h
  obtain ⟨line, s₈, hline, h⟩ := Reader.bind_eq_ok.mp h
  obtain ⟨x, s₉, hannotations, h⟩ := Reader.bind_eq_ok.mp h
  obtain ⟨rfl, rfl⟩ := Reader.pure_eq_ok.mp h
  exact ⟨s₁, s₂, s₃, s₄, s₅, s₆, s₇, s₈, name, line, x, hword, hspaces, hmodifiers, hname, rfl,
    hcolon, htype, hinitial, hline, hannotations, rfl⟩

/-- Annotations that are read back for those of a field are legible, and where none are read back
there are none that are closed off. -/
theorem legible_of_annotationReader {as : List AnnotationBlock} {behind : List Char}
    {x : Option (List AnnotationBlock)} (hconstants : ∀ a ∈ as, a.ConstantsInLine)
    (hx : x.getD [] = as)
    (h : Reader.optional (AnnotationBlock.closedReader ".end field")
      (annotationText as ('\n' :: behind)) = .ok (x, t)) :
    (as ≠ [] → AnnotationBlock.ListLegible "    " (".end field".toList ++ '\n' :: '\n' :: behind) as) ∧
      (as = [] → (AnnotationBlock.closedReader ".end field").Fails ('\n' :: behind)) := by
  have hspaces : ∀ c ∈ ("    " : String).toList, c = ' ' := by simp
  cases x with
  | none =>
    obtain rfl : [] = as := hx
    exact ⟨fun hne => absurd rfl hne, fun _ => (Reader.optional_eq_ok_none.mp h).1⟩
  | some as' =>
    obtain rfl : as' = as := hx
    have hread := Reader.optional_eq_ok_some.mp h
    obtain ⟨hne, -⟩ := AnnotationBlock.closedReader_eq_ok hread
    have htext : annotationText as' ('\n' :: behind) =
        as'.flatMap (AnnotationBlock.outerText "    ") ++
          (".end field".toList ++ '\n' :: '\n' :: behind) := by
      simp [annotationText, hne]
    rw [htext] at hread
    exact ⟨fun _ => AnnotationBlock.listLegible_of_closedReader hspaces hconstants rfl hread,
      fun hnil => absurd hnil hne⟩

/-- A field that is read back is legible. -/
theorem legible_of_reader {behind : List Char} (hconstants : ∀ a ∈ f.annotations, a.ConstantsInLine)
    (h : reader (f.print.toList ++ behind) = .ok (f, t)) : f.Legible behind := by
  obtain ⟨s₁, s₂, s₃, s₄, s₅, s₆, s₇, s₈, name, line, x, hword, hspaces, hmodifiers, hname, htrim,
    hcolon, htype, hinitial, hline, hannotations, hx⟩ := reader_eq_ok h
  -- What holds of the parts because they have been read.
  obtain ⟨htrimmed, hnameChars⟩ := Reader.trim_run1_eq_ok hname
  rw [← htrim] at htrimmed hnameChars
  obtain ⟨hnamed, htypeChars⟩ := typeReader_eq_ok htype
  have hvalue := initialReader_eq_ok hinitial
  -- Where they have been read: first the modifiers, down to the name.
  have hstop (s : List Char) : Stops isSpace (f.name.toList ++ ':' :: s) :=
    htrimmed.stops_isSpace (by decide) s
  rw [toList_print] at hword
  obtain ⟨-, rfl⟩ := Reader.ok_unique hword (Reader.literal_append ".field" _)
  obtain ⟨-, rfl⟩ := Reader.ok_unique hspaces
    (Reader.spaces1_cons (by decide) (Modifier.stops_printList f.modifiers (hstop _)))
  -- The modifiers end at the first word that is none, so the name cannot begin with one.
  obtain ⟨hfree, rfl⟩ := Modifier.listReader_eq_ok (hstop _) hmodifiers
  rw [beginsWithModifier_append (by decide) fun m => m.not_mem_word.1] at hfree
  have hne : f.name.toList ≠ [] := by
    intro hnil
    rw [hnil] at hname
    exact Reader.not_fails_of_ok hname (Reader.run1_fails (stops_cons.mpr (by decide)))
  obtain ⟨-, rfl⟩ := Reader.ok_unique hname
    (Reader.run1_append hne hnameChars (stops_cons.mpr (by decide)))
  -- Then the type, the value and the annotations.
  obtain ⟨-, rfl⟩ := Reader.ok_unique hcolon (Reader.literal_append ":" _)
  obtain ⟨-, rfl⟩ := Reader.ok_unique htype
    (typeReader_append hnamed htypeChars (stops_initialText _ _))
  obtain ⟨-, rfl⟩ := Reader.ok_unique hinitial (initialReader_append hvalue _)
  obtain ⟨-, rfl⟩ := Reader.ok_unique hline (Reader.restOfLine_append inLine_nil _)
  obtain ⟨hlegible, hclosed⟩ := legible_of_annotationReader hconstants hx hannotations
  exact ⟨hne, htrimmed, hnameChars, hfree, hnamed, htypeChars, hvalue, hlegible, hclosed⟩

end Field

end GatedCalls
