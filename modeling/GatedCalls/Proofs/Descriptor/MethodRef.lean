import GatedCalls.Descriptor.MethodRef
import GatedCalls.Proofs.Descriptor.JavaType

/-!
# Names of classes and method references are read as they are printed

Every name of a class is read off its descriptor. A method reference is read back, whatever follows
it, if its owner ends at the first arrow and its name at the next parenthesis; this is `IsNamed`,
and only such references are ever read.
-/

namespace GatedCalls

open Text

namespace ClassName

/-- The descriptor of a class as characters. -/
theorem toList_descriptor (c : ClassName) :
    c.descriptor.toList = 'L' :: (c.path.toList ++ [';']) := by
  simp [descriptor]

/-- Descriptors of classes are trimmed. -/
theorem isTrimmed_descriptor (c : ClassName) : IsTrimmed c.descriptor.toList :=
  (JavaType.object c).isTrimmed_descriptor

/-- A class is named by its descriptor. -/
theorem ofDescriptor_descriptor (c : ClassName) : ofDescriptor c.descriptor = c := by
  have htrim : trim c.descriptor.toList = 'L' :: (c.path.toList ++ [';']) := by
    rw [← toList_descriptor]
    exact c.isTrimmed_descriptor
  simp [ofDescriptor, htrim]

/-- The name that is read off a text consists of characters of the text. -/
theorem mem_of_mem_ofDescriptor {text : String} {x : Char}
    (h : x ∈ (ofDescriptor text).path.toList) : x ∈ text.toList := by
  have hbody : ∀ s : List Char, x ∈ (if s.getLast? = some ';' then s.dropLast else s) → x ∈ s := by
    intro s hx
    split at hx
    · exact (List.dropLast_sublist s).subset hx
    · exact hx
  apply mem_of_mem_trim
  simp only [ofDescriptor, String.toList_ofList] at h
  split at h
  · next s hs =>
    rw [hs]
    exact List.mem_cons_of_mem _ (hbody s h)
  · exact hbody _ h

end ClassName

namespace MethodRef

/-- Whether the parts of the reference can be told: owner and name are trimmed, the owner holds no
arrow, the name no parenthesis, and the names of classes in the prototype can be told. -/
structure IsNamed (m : MethodRef) : Prop where
  owner_trimmed : IsTrimmed m.owner.toList
  owner_no_arrow : ¬['-', '>'] <:+: m.owner.toList
  name_trimmed : IsTrimmed m.name.toList
  name_no_paren : '(' ∉ m.name.toList
  proto_named : m.proto.IsNamed

/-- A method reference as characters. -/
theorem toList_text (m : MethodRef) :
    m.text.toList =
      m.owner.toList ++ ("->".toList ++ (m.name.toList ++ m.proto.descriptor.toList)) := by
  simp [text]

/-- The owner is taken off in front of the arrow. -/
theorem before_arrow {owner : List Char} (h : ¬['-', '>'] <:+: owner) (rest : List Char) :
    Reader.before "->" (owner ++ ("->".toList ++ rest)) = .ok (owner, "->".toList ++ rest) := by
  have hbreak : Reader.breakAt "->".toList (owner ++ ("->".toList ++ rest)) =
      some (owner, "->".toList ++ rest) := by
    refine Reader.breakAt_append (by simp) fun b₁ b₂ hb hne hprefix => ?_
    -- An arrow that begins in the owner would end in it, or at a hyphen.
    obtain ⟨x, b₂, rfl⟩ := List.exists_cons_of_ne_nil hne
    cases b₂ with
    | nil => simp at hprefix
    | cons y b₂ =>
      obtain ⟨rfl, rfl⟩ : '-' = x ∧ '>' = y := by simpa using hprefix
      exact h ⟨b₁, b₂, by simp [hb]⟩
  rw [Reader.before, hbreak]

/-- The name is taken off in front of the parenthesis. -/
theorem before_paren {name : List Char} (h : '(' ∉ name) (rest : List Char) :
    Reader.before "(" (name ++ '(' :: rest) = .ok (name, '(' :: rest) := by
  have hbreak : Reader.breakAt "(".toList (name ++ ("(".toList ++ rest)) =
      some (name, "(".toList ++ rest) := by
    refine Reader.breakAt_append (by simp) fun b₁ b₂ hb hne hprefix => ?_
    obtain ⟨x, b₂, rfl⟩ := List.exists_cons_of_ne_nil hne
    obtain rfl : '(' = x := by simpa using hprefix
    exact h (by simp [hb])
  have heq : name ++ '(' :: rest = name ++ ("(".toList ++ rest) := by simp
  rw [Reader.before, heq, hbreak]
  simp

/-- The spellings of a reference: blanks may stand around the owner, which holds no arrow, and
around the name, which holds no parenthesis. -/
def IsSpelled (m : MethodRef) (x : List Char) : Prop :=
  m.proto.IsNamed ∧ ∃ owner name, ¬['-', '>'] <:+: owner ∧ '(' ∉ name ∧
    m.owner.toList = trim owner ∧ m.name.toList = trim name ∧
      x = owner ++ ("->".toList ++ (name ++ m.proto.descriptor.toList))

/-- A method reference is taken exactly off its spellings, whatever follows them. -/
theorem reader_eq_ok_iff {s rest : List Char} {m : MethodRef} :
    reader s = .ok (m, rest) ↔ ∃ x, m.IsSpelled x ∧ s = x ++ rest := by
  constructor
  · intro h
    obtain ⟨owner, s₁, howner, h⟩ := Reader.bind_eq_ok.mp h
    obtain ⟨_, s₂, harrow, h⟩ := Reader.bind_eq_ok.mp h
    obtain ⟨name, s₃, hname, h⟩ := Reader.bind_eq_ok.mp h
    obtain ⟨proto, s₄, hproto, h⟩ := Reader.bind_eq_ok.mp h
    obtain ⟨rfl, rfl⟩ := Reader.pure_eq_ok.mp h
    have hbowner := Reader.breakAt_of_before howner
    have hbname := Reader.breakAt_of_before hname
    obtain ⟨hnamed, hs₃⟩ := Prototype.reader_eq_ok hproto
    have hnoarrow : ¬['-', '>'] <:+: owner := by
      simpa using Reader.not_infix_of_breakAt (by simp) hbowner
    have hnoparen : '(' ∉ name := by
      intro hmem
      obtain ⟨b₁, b₂, rfl⟩ := List.append_of_mem hmem
      exact Reader.not_infix_of_breakAt (by simp) hbname ⟨b₁, b₂, by simp⟩
    refine ⟨_, ⟨hnamed, owner, name, hnoarrow, hnoparen, by simp, by simp, rfl⟩, ?_⟩
    rw [Reader.eq_append_of_breakAt hbowner, Reader.literal_eq_ok harrow,
      Reader.eq_append_of_breakAt hbname, hs₃]
    simp
  · rintro ⟨_, ⟨hproto, owner, name, harrow, hparen, howner, hname, rfl⟩, rfl⟩
    have hbefore : Reader.before "(" (name ++ (m.proto.descriptor.toList ++ rest)) =
        .ok (name, m.proto.descriptor.toList ++ rest) := by
      rw [Prototype.toList_descriptor, List.cons_append]
      exact before_paren hparen _
    rw [List.append_assoc, List.append_assoc, List.append_assoc]
    refine Reader.bind_ok (before_arrow harrow _) ?_
    refine Reader.bind_ok (Reader.literal_append "->" _) ?_
    refine Reader.bind_ok hbefore ?_
    refine Reader.bind_ok (Prototype.reader_descriptor hproto rest) ?_
    rw [← howner, ← hname, String.ofList_toList, String.ofList_toList]
    rfl

/-- A spelling is not empty. -/
theorem IsSpelled.ne_nil {m : MethodRef} {x : List Char} (h : m.IsSpelled x) : x ≠ [] := by
  obtain ⟨-, owner, name, -, -, -, -, rfl⟩ := h
  simp

/-- What ends with a prototype does not end with a blank. -/
theorem stops_reverse_append (owner name : List Char) (p : Prototype) :
    Stops isBlank (owner ++ ("->".toList ++ (name ++ p.descriptor.toList))).reverse := by
  rw [List.reverse_append, List.reverse_append, List.reverse_append, List.append_assoc,
    List.append_assoc]
  exact p.stops_reverse_descriptor.append (by simp [Prototype.toList_descriptor]) _

/-- No spelling ends with a blank. -/
theorem IsSpelled.stops_reverse {m : MethodRef} {x : List Char} (h : m.IsSpelled x) :
    Stops isBlank x.reverse := by
  obtain ⟨-, owner, name, -, -, -, -, rfl⟩ := h
  exact stops_reverse_append owner name m.proto

/-- What is printed is a spelling. -/
theorem isSpelled_text {m : MethodRef} (h : m.IsNamed) : m.IsSpelled m.text.toList :=
  ⟨h.proto_named, m.owner.toList, m.name.toList, h.owner_no_arrow, h.name_no_paren,
    h.owner_trimmed.symm, h.name_trimmed.symm, m.toList_text⟩

/-- A method reference is taken off the text in front of which it stands. -/
theorem reader_text {m : MethodRef} (h : m.IsNamed) (rest : List Char) :
    reader (m.text.toList ++ rest) = .ok (m, rest) :=
  reader_eq_ok_iff.mpr ⟨_, isSpelled_text h, rfl⟩

/-- The parts of a reference that has been read can be told, and they stood in the text, but for
blanks around owner and name. -/
theorem reader_eq_ok {s rest : List Char} {m : MethodRef} (h : reader s = .ok (m, rest)) :
    m.IsNamed ∧ ∃ owner name, m.owner.toList = trim owner ∧ m.name.toList = trim name ∧
      s = owner ++ ("->".toList ++ (name ++ (m.proto.descriptor.toList ++ rest))) := by
  obtain ⟨_, ⟨hproto, owner, name, harrow, hparen, howner, hname, rfl⟩, rfl⟩ :=
    reader_eq_ok_iff.mp h
  refine ⟨⟨?_, ?_, ?_, ?_, hproto⟩, owner, name, howner, hname, by simp⟩
  · exact howner ▸ isTrimmed_trim owner
  · rw [howner]
    exact fun hin => harrow (hin.trans (trim_isInfix owner))
  · exact hname ▸ isTrimmed_trim name
  · rw [hname]
    exact fun hmem => hparen (mem_of_mem_trim hmem)

/-- The characters of a reference that has been read stood in the text. -/
theorem mem_of_mem_text {s rest : List Char} {m : MethodRef} (h : reader s = .ok (m, rest))
    {x : Char} (hx : x ∈ m.text.toList) : x ∈ s := by
  obtain ⟨-, owner, name, howner, hname, rfl⟩ := reader_eq_ok h
  rw [toList_text, howner, hname] at hx
  simp only [List.mem_append] at hx ⊢
  obtain hx | hx | hx | hx := hx
  · exact .inl (mem_of_mem_trim hx)
  · exact .inr (.inl hx)
  · exact .inr (.inr (.inl (mem_of_mem_trim hx)))
  · exact .inr (.inr (.inr (.inl hx)))

/-- No method reference ends with a blank. -/
theorem stops_reverse_text (m : MethodRef) : Stops isBlank m.text.toList.reverse := by
  rw [toList_text]
  exact stops_reverse_append m.owner.toList m.name.toList m.proto

end MethodRef

end GatedCalls
