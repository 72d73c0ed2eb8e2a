import GatedCalls.Smali.ElementReader

/-!
# Reading annotations

`AnnotationBlock.reader` takes an annotation off a smali text. An annotation can contain another one
as the value of an element, so reading it calls itself on a part of the text; that part is always
shorter, and the functions below carry the proof of it along with what they leave.

The value of an element is read as another annotation where it is one, and else as a value that is
no annotation: an annotation that does not come to its end is therefore read as plain text.
-/

namespace GatedCalls

open Text

/-- Takes a visibility with the layout around it. -/
def Visibility.reader : Reader Visibility :=
  Reader.inLayout <|
    Reader.orElse (keyword .build) (Reader.orElse (keyword .runtime) (keyword .system))
where
  /-- Takes the word for the visibility. -/
  keyword (v : Visibility) : Reader Visibility := do
    Reader.literal v.word
    return v

/-- Reading a visibility moves forward. -/
theorem Visibility.forward_reader : Visibility.reader.Forward :=
  have word (v : Visibility) : (Visibility.reader.keyword v).Forward :=
    (Reader.forward_literal _).bind fun _ => Reader.forward_pure _
  ((word _).orElse ((word _).orElse (word _))).inLayout

namespace AnnotationBlock

/-- Takes the rest of the line as the descriptor of a type. -/
def typeReader : Reader JavaType := do
  let text ← Reader.restOfLine
  match JavaType.ofDescriptor? (String.ofList text) with
  | some t => return t
  | none => Reader.fail

/-- Reading the type of an annotation moves forward. -/
theorem forward_typeReader : typeReader.Forward := by
  refine Reader.forward_restOfLine.bind fun text => ?_
  split
  · exact Reader.forward_pure _
  · exact Reader.forward_fail

/-- Takes the first line of an annotation: its visibility and its type. An annotation inside another
one says no visibility, and has the visibility `system`. -/
def headerReader (nested : Bool) : Reader (Visibility × JavaType) := do
  Reader.inLayout (Reader.literal (openingWord nested))
  let visibility ← if nested then pure Visibility.system else Visibility.reader
  let type ← typeReader
  return (visibility, type)

/-- What follows the opening word on the first line is read forward. -/
theorem forward_headerTail (nested : Bool) :
    (do
      let visibility ← if nested then pure Visibility.system else Visibility.reader
      let type ← typeReader
      return (visibility, type) : Reader (Visibility × JavaType)).Forward := by
  cases nested
  · exact Visibility.forward_reader.bind fun _ =>
      forward_typeReader.bind fun _ => Reader.forward_pure _
  · exact (Reader.forward_pure _).bind fun _ =>
      forward_typeReader.bind fun _ => Reader.forward_pure _

/-- The opening word is not empty. -/
theorem openingWord_ne_nil (nested : Bool) : (openingWord nested).toList ≠ [] := by
  cases nested <;> decide

/-- Reading the first line of an annotation moves forward. -/
theorem forward_headerReader (nested : Bool) : (headerReader nested).Forward :=
  (Reader.forward_literal _).inLayout.bind fun _ => forward_headerTail nested

/-- The first line of an annotation has at least the opening word. -/
theorem progresses_headerReader (nested : Bool) : (headerReader nested).Progresses :=
  (Reader.progresses_literal (openingWord_ne_nil nested)).inLayout.bind fun _ =>
    forward_headerTail nested

/-- Takes the words that end an annotation. -/
def closingReader (nested : Bool) : Reader Unit :=
  Reader.inLayout (Reader.literal (closingWord nested))

/-- The closing word is not empty. -/
theorem closingWord_ne_nil (nested : Bool) : (closingWord nested).toList ≠ [] := by
  cases nested <;> decide

/-- Reading the end of an annotation moves forward. -/
theorem forward_closingReader (nested : Bool) : (closingReader nested).Forward :=
  (Reader.forward_literal _).inLayout

/-- The end of an annotation has at least the closing word. -/
theorem progresses_closingReader (nested : Bool) : (closingReader nested).Progresses :=
  (Reader.progresses_literal (closingWord_ne_nil nested)).inLayout

/-! ### The recursion

The three functions return what they leave together with the proof that it is a suffix, and a
shorter one where something is always taken. `reader`, `elementsReader` and `valueReader` are the
same functions without the proofs, and their equations below are all that one needs to know of
them. -/

mutual

/-- Reads an annotation from its first word on. -/
def readBlock (nested : Bool) (s : List Char) :
    Except (Reader.Within s) (AnnotationBlock × Reader.Beyond s) :=
  match h : headerReader nested s with
  | .error e => .error ⟨e, (forward_headerReader nested).error h⟩
  | .ok ((visibility, type), t) =>
    have ht := (forward_headerReader nested).ok h
    have hlt := (progresses_headerReader nested).lt h
    match readElements nested t with
    | .error e => .error ⟨e.1, e.2.trans ht⟩
    | .ok (elements, u) =>
      .ok (⟨visibility, type, elements⟩, ⟨u.1, u.2.1.trans ht, Nat.lt_trans u.2.2 hlt⟩)
termination_by (s.length, 1)

/-- Reads elements down to the words that end the annotation, and those words. -/
def readElements (nested : Bool) (s : List Char) :
    Except (Reader.Within s) (List Element × Reader.Beyond s) :=
  match h : closingReader nested s with
  | .ok ((), t) =>
    .ok ([], ⟨t, (forward_closingReader nested).ok h, (progresses_closingReader nested).lt h⟩)
  | .error _ =>
    match h : Element.nameReader s with
    | .error _ => .error ⟨s, List.suffix_refl s⟩
    | .ok (name, t) =>
      have ht := Element.forward_nameReader.ok h
      have hlt := Element.progresses_nameReader.lt h
      match readValue t with
      | .error _ => .error ⟨s, List.suffix_refl s⟩
      | .ok (value, u) =>
        have hu := u.2.length_le
        match readElements nested u.1 with
        | .error e => .error ⟨e.1, e.2.trans (u.2.trans ht)⟩
        | .ok (elements, w) =>
          .ok (⟨name, value⟩ :: elements,
            ⟨w.1, w.2.1.trans (u.2.trans ht), Nat.lt_of_lt_of_le w.2.2 (by omega)⟩)
termination_by (s.length, 0)

/-- Reads the value of an element. -/
def readValue (s : List Char) : Except (Reader.Within s) (ElementValue × Reader.Within s) :=
  match readBlock true s with
  | .ok (a, t) => .ok (.nested a, ⟨t.1, t.2.1⟩)
  | .error _ =>
    match h : ElementValue.flatReader s with
    | .ok (v, t) => .ok (v, ⟨t, ElementValue.forward_flatReader.ok h⟩)
    | .error e => .error ⟨e, ElementValue.forward_flatReader.error h⟩
termination_by (s.length, 2)

end

/-- Takes an annotation. -/
def reader (nested : Bool) : Reader AnnotationBlock :=
  fun s =>
    match readBlock nested s with
    | .ok (a, t) => .ok (a, t.1)
    | .error e => .error e.1

/-- Takes the elements of an annotation and the words that end it. -/
def elementsReader (nested : Bool) : Reader (List Element) :=
  fun s =>
    match readElements nested s with
    | .ok (es, t) => .ok (es, t.1)
    | .error e => .error e.1

/-- Takes the value of an element. -/
def valueReader : Reader ElementValue :=
  fun s =>
    match readValue s with
    | .ok (v, t) => .ok (v, t.1)
    | .error e => .error e.1

/-- An annotation is its first line followed by its elements. -/
theorem reader_apply (nested : Bool) (s : List Char) :
    reader nested s =
      match headerReader nested s with
      | .error e => .error e
      | .ok ((visibility, type), t) =>
        match elementsReader nested t with
        | .error e => .error e
        | .ok (elements, u) => .ok (⟨visibility, type, elements⟩, u) := by
  unfold reader elementsReader
  -- The proofs that the definition carries depend on what its parts are read as, so the cases are
  -- taken on the definition and not on those results.
  fun_cases readBlock nested s with
  | case1 e hheader => simp only [hheader]
  | case2 visibility type t hheader _ _ e helements => simp only [hheader, helements]
  | case3 visibility type t hheader _ _ elements u helements => simp only [hheader, helements]

/-- Elements are read one after another until the annotation ends; one that cannot be read fails
where it begins. -/
theorem elementsReader_apply (nested : Bool) (s : List Char) :
    elementsReader nested s =
      match closingReader nested s with
      | .ok ((), t) => .ok ([], t)
      | .error _ =>
        match Element.nameReader s with
        | .error _ => .error s
        | .ok (name, t) =>
          match valueReader t with
          | .error _ => .error s
          | .ok (value, u) =>
            match elementsReader nested u with
            | .error e => .error e
            | .ok (elements, w) => .ok (⟨name, value⟩ :: elements, w) := by
  conv => lhs; unfold elementsReader
  fun_cases readElements nested s with
  | case1 t hclosing => simp only [hclosing]
  | case2 e hclosing e' hname => simp only [hclosing, hname]
  | case3 e hclosing name t hname _ _ e' hvalue => simp only [hclosing, hname, valueReader, hvalue]
  | case4 e hclosing name t hname _ _ value u hvalue _ e' hrest =>
    simp only [hclosing, hname, valueReader, hvalue, elementsReader, hrest]
  | case5 e hclosing name t hname _ _ value u hvalue _ elements w hrest =>
    simp only [hclosing, hname, valueReader, hvalue, elementsReader, hrest]

/-- A value is an annotation where one can be read, and else a value without parts of its kind. -/
theorem valueReader_apply (s : List Char) :
    valueReader s =
      match reader true s with
      | .ok (a, t) => .ok (.nested a, t)
      | .error _ => ElementValue.flatReader s := by
  unfold valueReader reader
  fun_cases readValue s with
  | case1 a t hblock => simp only [hblock]
  | case2 e hblock v t hflat => simp only [hblock, hflat]
  | case3 e hblock e' hflat => simp only [hblock, hflat]

/-- Reading an annotation moves forward. -/
theorem forward_reader (nested : Bool) : (reader nested).Forward where
  ok {s a t} h := by
    unfold reader at h
    split at h
    · next u _ =>
      cases h
      exact u.2.1
    · contradiction
  error {s e} h := by
    unfold reader at h
    split at h
    · contradiction
    · next u _ =>
      cases h
      exact u.2

/-- An annotation has at least its first line. -/
theorem progresses_reader (nested : Bool) : (reader nested).Progresses where
  lt {s a t} h := by
    unfold reader at h
    split at h
    · next u _ =>
      cases h
      exact u.2.2
    · contradiction

/-- Takes one or more annotations and the words that close them off. -/
def closedReader (closing : String) : Reader (List AnnotationBlock) := do
  let as ← Reader.many1 (reader false) (progresses_reader false)
  Reader.inLayout (Reader.literal closing)
  return as

/-- Reading annotations that are closed off moves forward. -/
theorem forward_closedReader (closing : String) :
    (closedReader closing).Forward :=
  (Reader.forward_many1 (forward_reader false)).bind fun _ =>
    (Reader.forward_literal _).inLayout.bind fun _ => Reader.forward_pure _

end AnnotationBlock

end GatedCalls
