import GatedCalls.Descriptor.Reading
import GatedCalls.Proofs.Descriptor.JavaType

/-!
# Exactly the printed descriptors are read

`JavaType.IsNamed` and `Prototype.IsNamed` follow the recursion of the readers. Here they are told
by the names of classes that occur in a type or a prototype, and reading a whole descriptor comes
down to them: a text is read as a type or a prototype exactly if, but for blanks around it, it is
the descriptor of that and every name in it can be told from the semicolon behind it.
-/

namespace GatedCalls

open Text

/-- Whether a name can stand in a descriptor: it is not empty and holds neither a semicolon nor a
line feed. -/
def ClassName.FitsDescriptor (c : ClassName) : Prop :=
  c.path ≠ "" ∧ ';' ∉ c.path.toList ∧ '\n' ∉ c.path.toList

namespace JavaType

/-- The names of classes that occur in a type. -/
def classNames : JavaType → List ClassName
  | array t => t.classNames
  | object c => [c]
  | primitive _ => []

/-- A name fits a descriptor if a reader of descriptors would take all of it. -/
theorem fitsDescriptor_iff (c : ClassName) :
    c.FitsDescriptor ↔ c.path.toList ≠ [] ∧ ∀ x ∈ c.path.toList, isNameChar x = true := by
  have hempty : c.path ≠ "" ↔ c.path.toList ≠ [] := by simp
  have hchars : (∀ x ∈ c.path.toList, isNameChar x = true) ↔
      ';' ∉ c.path.toList ∧ '\n' ∉ c.path.toList := by
    constructor
    · intro h
      exact ⟨fun hmem => absurd (h _ hmem) (by decide), fun hmem => absurd (h _ hmem) (by decide)⟩
    · rintro ⟨hsemicolon, hfeed⟩ x hx
      have hx₁ : x ≠ ';' := fun heq => hsemicolon (heq ▸ hx)
      have hx₂ : x ≠ '\n' := fun heq => hfeed (heq ▸ hx)
      simp [isNameChar, hx₁, hx₂]
  rw [ClassName.FitsDescriptor, hempty, hchars]

/-- The names in a type can be told exactly if all that occur in it fit a descriptor. -/
theorem isNamed_iff (t : JavaType) : t.IsNamed ↔ ∀ c ∈ t.classNames, c.FitsDescriptor := by
  induction t with
  | array t ih => exact ih
  | object c => rw [classNames, List.forall_mem_singleton, fitsDescriptor_iff, IsNamed]
  | primitive p => simp [classNames, IsNamed]

/-- A type is read off its descriptor, with blanks around it, and off nothing else. -/
theorem readDescriptor_eq_ok {text : String} {t : JavaType} :
    readDescriptor text = .ok t ↔
      trim text.toList = t.descriptor.toList ∧ ∀ c ∈ t.classNames, c.FitsDescriptor := by
  rw [← isNamed_iff, ← ofDescriptor?_eq_some, readDescriptor]
  cases ofDescriptor? text <;> simp

end JavaType

namespace Prototype

/-- The names of classes that occur in a prototype, those of the parameters first. -/
def classNames (p : Prototype) : List ClassName :=
  p.params.flatMap JavaType.classNames ++ p.result.classNames

/-- The names in a prototype can be told exactly if all that occur in it fit a descriptor. -/
theorem isNamed_iff (p : Prototype) : p.IsNamed ↔ ∀ c ∈ p.classNames, c.FitsDescriptor := by
  have hparams : (∀ t ∈ p.params, t.IsNamed) ↔
      ∀ c ∈ p.params.flatMap JavaType.classNames, c.FitsDescriptor := by
    simp only [JavaType.isNamed_iff, List.forall_mem_flatMap]
  rw [IsNamed, hparams, JavaType.isNamed_iff, classNames, List.forall_mem_append]

/-- A text is a descriptor exactly if it is the descriptor of a prototype with names that can be
told, with blanks around it. -/
theorem ofDescriptor?_eq_some {text : String} {p : Prototype} :
    ofDescriptor? text = some p ↔ trim text.toList = p.descriptor.toList ∧ p.IsNamed := by
  rw [ofDescriptor?, Reader.whole?_eq_some]
  constructor
  · intro h
    obtain ⟨hnamed, hs⟩ := reader_eq_ok h
    exact ⟨by simpa using hs, hnamed⟩
  · rintro ⟨hs, hnamed⟩
    rw [hs]
    simpa using reader_descriptor hnamed []

/-- A prototype is read off its descriptor, with blanks around it, and off nothing else. -/
theorem readDescriptor_eq_ok {text : String} {p : Prototype} :
    readDescriptor text = .ok p ↔
      trim text.toList = p.descriptor.toList ∧ ∀ c ∈ p.classNames, c.FitsDescriptor := by
  rw [← isNamed_iff, ← ofDescriptor?_eq_some, readDescriptor]
  cases ofDescriptor? text <;> simp

end Prototype

/-- Exactly the printed descriptors are read. A text is read as a type, or as a prototype, if and
only if what is left of it without the blanks around it is the descriptor, and every name of a class
that occurs is not empty and holds neither a semicolon nor a line feed. -/
theorem readDescriptor_exact :
    (∀ text t, JavaType.readDescriptor text = .ok t ↔
      trim text.toList = t.descriptor.toList ∧ ∀ c ∈ t.classNames, c.FitsDescriptor) ∧
    (∀ text p, Prototype.readDescriptor text = .ok p ↔
      trim text.toList = p.descriptor.toList ∧ ∀ c ∈ p.classNames, c.FitsDescriptor) :=
  ⟨fun _ _ => JavaType.readDescriptor_eq_ok, fun _ _ => Prototype.readDescriptor_eq_ok⟩

/-- Arrays, classes and primitive types stand side by side without separators. -/
example : (Prototype.readDescriptor " ([[I[La/b;JLc;)[V\n").toOption =
    some ⟨[.array (.array (.primitive .int)), .array (.object ⟨"a/b"⟩), .primitive .long,
      .object ⟨"c"⟩], .array .void⟩ := by
  cbv

end GatedCalls
