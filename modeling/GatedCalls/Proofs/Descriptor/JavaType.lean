import GatedCalls.Descriptor.Prototype
import GatedCalls.Proofs.Text.Reading

/-!
# Descriptors are read as they are printed

A descriptor can be read back, whatever follows it, if the names of the classes in it can be told
from what stands around them; this is `IsNamed`. Only such types are ever read, and off nothing but
their descriptors.
-/

namespace GatedCalls

open Text

namespace JavaType

/-- Whether the name of a class that stands in the type is not empty and holds neither a semicolon
nor a line feed. -/
def IsNamed : JavaType → Prop
  | array t => t.IsNamed
  | object c => c.path.toList ≠ [] ∧ ∀ x ∈ c.path.toList, isNameChar x = true
  | primitive _ => True

/-- The descriptor of an array has a bracket in front. -/
theorem toList_descriptor_array (t : JavaType) :
    (array t).descriptor.toList = '[' :: t.descriptor.toList := by
  simp [descriptor]

/-- The descriptor of a class has a letter in front and a semicolon behind. -/
theorem toList_descriptor_object (c : ClassName) :
    (object c).descriptor.toList = 'L' :: (c.path.toList ++ [';']) := by
  simp [descriptor, ClassName.descriptor]

/-- The descriptor of a primitive type is a letter. -/
theorem toList_descriptor_primitive (p : Primitive) :
    (primitive p).descriptor.toList = [p.letter] := by
  simp [descriptor]

/-- No letter of a primitive type begins the descriptor of another kind of type, and none is
blank. -/
theorem Primitive.letter_ne (p : Primitive) :
    p.letter ≠ 'L' ∧ p.letter ≠ '[' ∧ isBlank p.letter = false := by
  cases p <;> decide

/-- A descriptor is taken off the text in front of which it stands. -/
theorem reader_descriptor {t : JavaType} (h : t.IsNamed) (rest : List Char) :
    reader (t.descriptor.toList ++ rest) = .ok (t, rest) := by
  induction t with
  | array t ih =>
    rw [toList_descriptor_array, List.cons_append, reader, ih h]
  | object c =>
    obtain ⟨hne, hchars⟩ := h
    have hstop : Stops isNameChar (';' :: rest) := by simp [isNameChar]
    have hrun := Reader.run1_append hne hchars hstop
    rw [toList_descriptor_object, List.cons_append, List.append_assoc, reader]
    simp only [List.cons_append, List.nil_append, hrun, String.ofList_toList]
  | primitive p =>
    obtain ⟨hL, hA, -⟩ := Primitive.letter_ne p
    rw [toList_descriptor_primitive, List.cons_append, List.nil_append, reader]
    · rw [Primitive.ofLetter?_letter]
    · simpa using hL
    · simpa using hA

/-- What has been read as a type is its descriptor, and the names in it can be told. -/
theorem reader_eq_ok {s rest : List Char} {t : JavaType} (h : reader s = .ok (t, rest)) :
    t.IsNamed ∧ s = t.descriptor.toList ++ rest := by
  fun_induction reader s generalizing t with
  | case1 s name u hrun =>
    cases h
    obtain ⟨hne, rfl, hchars, -⟩ := Reader.run1_eq_ok' hrun
    refine ⟨⟨by simpa using hne, by simpa using hchars⟩, ?_⟩
    simp [toList_descriptor_object]
  | case4 s t' u hread ih =>
    cases h
    obtain ⟨hnamed, rfl⟩ := ih hread
    exact ⟨hnamed, by rw [toList_descriptor_array, List.cons_append]⟩
  | case6 c s _ _ p hp =>
    cases h
    have hletter : p.letter = c := by simpa using List.find?_some hp
    exact ⟨trivial, by rw [toList_descriptor_primitive, hletter]; rfl⟩
  | _ => contradiction

/-- The first character of a descriptor, which is not blank. -/
theorem exists_descriptor_eq_cons (t : JavaType) :
    ∃ c s, t.descriptor.toList = c :: s ∧ isBlank c = false := by
  cases t with
  | array t => exact ⟨_, _, toList_descriptor_array t, by decide⟩
  | object c => exact ⟨_, _, toList_descriptor_object c, by decide⟩
  | primitive p => exact ⟨_, _, toList_descriptor_primitive p, (Primitive.letter_ne p).2.2⟩

/-- No descriptor begins with a blank. -/
theorem stops_descriptor (t : JavaType) (rest : List Char) :
    Stops isBlank (t.descriptor.toList ++ rest) := by
  obtain ⟨c, s, hc, hblank⟩ := t.exists_descriptor_eq_cons
  simpa [hc] using hblank

/-- No descriptor ends with a blank. -/
theorem stops_reverse_descriptor (t : JavaType) : Stops isBlank t.descriptor.toList.reverse := by
  induction t with
  | array t ih =>
    obtain ⟨c, s, hc, -⟩ := t.exists_descriptor_eq_cons
    rw [toList_descriptor_array, List.reverse_cons]
    exact ih.append (by simp [hc]) _
  | object c => rw [toList_descriptor_object]; simp; decide
  | primitive p => rw [toList_descriptor_primitive]; simpa using (Primitive.letter_ne p).2.2

/-- Descriptors are trimmed. -/
theorem isTrimmed_descriptor (t : JavaType) : IsTrimmed t.descriptor.toList :=
  isTrimmed_iff.mpr ⟨by simpa using t.stops_descriptor [], t.stops_reverse_descriptor⟩

/-- A text is a descriptor exactly if it is the descriptor of a type with names that can be told,
with blanks around it. -/
theorem ofDescriptor?_eq_some {text : String} {t : JavaType} :
    ofDescriptor? text = some t ↔ trim text.toList = t.descriptor.toList ∧ t.IsNamed := by
  rw [ofDescriptor?, Reader.whole?_eq_some]
  constructor
  · intro h
    obtain ⟨hnamed, hs⟩ := reader_eq_ok h
    exact ⟨by simpa using hs, hnamed⟩
  · rintro ⟨hs, hnamed⟩
    rw [hs]
    simpa using reader_descriptor hnamed []

/-- The descriptor of a type is a descriptor of it. -/
theorem ofDescriptor?_descriptor {t : JavaType} (h : t.IsNamed) :
    ofDescriptor? (String.ofList t.descriptor.toList) = some t := by
  rw [ofDescriptor?_eq_some, String.toList_ofList]
  exact ⟨t.isTrimmed_descriptor, h⟩

end JavaType

namespace Prototype

/-- Whether the names of classes in all types of the prototype can be told. -/
def IsNamed (p : Prototype) : Prop :=
  (∀ t ∈ p.params, t.IsNamed) ∧ p.result.IsNamed

/-- The descriptor of a prototype as characters. -/
theorem toList_descriptor (p : Prototype) :
    p.descriptor.toList =
      '(' :: (p.params.flatMap (fun t => t.descriptor.toList) ++ ')' :: p.result.descriptor.toList) := by
  simp [descriptor, String.toList_join, List.flatMap_map]

/-- The descriptor of a prototype is taken off the text in front of which it stands. -/
theorem reader_descriptor {p : Prototype} (h : p.IsNamed) (rest : List Char) :
    reader (p.descriptor.toList ++ rest) = .ok (p, rest) := by
  obtain ⟨hparams, hresult⟩ := h
  have hstop : JavaType.reader.Fails (')' :: (p.result.descriptor.toList ++ rest)) := ⟨_, rfl⟩
  have hmany : Reader.many JavaType.reader JavaType.progresses_reader
      (p.params.flatMap (fun t => t.descriptor.toList) ++
        ')' :: (p.result.descriptor.toList ++ rest)) = .ok (p.params, _) :=
    congrArg Except.ok (Reader.takeMany_flatMap _ (fun _ => True)
      (fun t ht rest _ => JavaType.reader_descriptor (hparams t ht) rest)
      (fun _ _ _ => trivial) trivial hstop)
  rw [toList_descriptor, reader, List.cons_append, List.append_assoc, List.cons_append]
  refine Reader.bind_ok (Reader.literal_append "(" _) ?_
  refine Reader.bind_ok hmany ?_
  refine Reader.bind_ok (Reader.literal_append ")" _) ?_
  refine Reader.bind_ok (JavaType.reader_descriptor hresult rest) ?_
  rfl

/-- What has been read as a prototype is its descriptor, and the names in it can be told. -/
theorem reader_eq_ok {s rest : List Char} {p : Prototype} (h : reader s = .ok (p, rest)) :
    p.IsNamed ∧ s = p.descriptor.toList ++ rest := by
  obtain ⟨_, s₁, hopen, h⟩ := Reader.bind_eq_ok.mp h
  obtain ⟨params, s₂, hmany, h⟩ := Reader.bind_eq_ok.mp h
  obtain ⟨_, s₃, hclose, h⟩ := Reader.bind_eq_ok.mp h
  obtain ⟨result, s₄, hresult, h⟩ := Reader.bind_eq_ok.mp h
  obtain ⟨rfl, rfl⟩ := Reader.pure_eq_ok.mp h
  obtain ⟨hparams, hs₁⟩ := Reader.takeMany_eq _ JavaType.reader_eq_ok (Except.ok.inj hmany)
  obtain ⟨hnamed, hs₃⟩ := JavaType.reader_eq_ok hresult
  refine ⟨⟨hparams, hnamed⟩, ?_⟩
  rw [Reader.literal_eq_ok hopen, hs₁, Reader.literal_eq_ok hclose, hs₃, toList_descriptor]
  simp

/-- No descriptor of a prototype ends with a blank. -/
theorem stops_reverse_descriptor (p : Prototype) : Stops isBlank p.descriptor.toList.reverse := by
  obtain ⟨c, s, hc, -⟩ := p.result.exists_descriptor_eq_cons
  have hresult := p.result.stops_reverse_descriptor
  rw [toList_descriptor, List.reverse_cons, List.reverse_append, List.reverse_cons,
    List.append_assoc, List.append_assoc]
  exact hresult.append (by simp [hc]) _

end Prototype

end GatedCalls
