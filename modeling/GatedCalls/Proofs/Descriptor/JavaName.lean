import GatedCalls.Descriptor.Reading
import GatedCalls.Proofs.Text.Trim

/-!
# Java spellings convert back

The Java spelling of a type is read from its end: blanks and brackets come off until a name is left,
and a name that is no keyword names a class. So a type can be read back from its spelling if the
names of classes in it survive this, which is `JavaType.IsSpellable`; and since reading makes only
such names, those are all the types that are ever read. A text spells no type if nothing is left of
it.
-/

namespace GatedCalls

open Text

/-- Whether nothing is left of a text from which blanks around it and the brackets of an array at
its end are taken away, again and again. -/
inductive LeavesNothing : List Char → Prop where
  | blank {s : List Char} (h : trim s = []) : LeavesNothing s
  | brackets {s element : List Char} (h : trim s = element ++ ['[', ']'])
    (inner : LeavesNothing element) : LeavesNothing s

/-! ### Dots and slashes -/

/-- The second character for the first one, and every other character for itself. -/
def exchange (a b : Char) (c : Char) : Char :=
  if c = a then b else c

/-- Exchanging a character that is not blank for another such one does not change what is blank. -/
theorem isBlank_exchange {a b : Char} (ha : isBlank a = false) (hb : isBlank b = false) (c : Char) :
    isBlank (exchange a b c) = isBlank c := by
  unfold exchange
  split
  case isTrue heq => rw [hb, heq, ha]
  case isFalse => rfl

/-- Trimming goes past an exchange of characters that are not blank. -/
theorem trim_map_exchange {a b : Char} (ha : isBlank a = false) (hb : isBlank b = false)
    (s : List Char) : trim (s.map (exchange a b)) = (trim s).map (exchange a b) := by
  have hblank : isBlank ∘ exchange a b = isBlank := funext (isBlank_exchange ha hb)
  simp only [trim, trimStart, trimEnd, ← List.map_reverse, List.dropWhile_map, hblank]

/-- Behind an exchange the first character does not stand any more. -/
theorem not_mem_map_exchange {a b : Char} (hne : a ≠ b) (s : List Char) :
    a ∉ s.map (exchange a b) := by
  intro hmem
  obtain ⟨c, -, hc⟩ := List.mem_map.mp hmem
  unfold exchange at hc
  split at hc
  case isTrue => exact hne hc.symm
  case isFalse hother => exact hother hc

/-- Exchanging a character back, where the other one does not stand. -/
theorem map_exchange_back {a b : Char} {s : List Char} (h : b ∉ s) :
    (s.map (exchange a b)).map (exchange b a) = s := by
  have hback : ∀ c ∈ s, exchange b a (exchange a b c) = c := by
    intro c hc
    have hne : c ≠ b := fun heq => h (heq ▸ hc)
    by_cases heq : c = a <;> simp [exchange, heq, hne]
  rw [List.map_map]
  exact (List.map_congr_left hback).trans (List.map_id s)

/-- Only a word without either character is made to one by an exchange. -/
theorem eq_of_map_exchange {a b : Char} {s word : List Char} (hword : b ∉ word)
    (h : s.map (exchange a b) = word) : s = word := by
  have hself : ∀ c ∈ s, exchange a b c = c := by
    intro c hc
    by_cases heq : c = a
    · refine absurd ?_ hword
      rw [← h]
      exact List.mem_map.mpr ⟨c, hc, by simp [exchange, heq]⟩
    · simp [exchange, heq]
  rw [← h]
  exact ((List.map_congr_left hself).trans (List.map_id s)).symm

/-- Only a text that ends with a word ends with it behind an exchange. -/
theorem isSuffix_of_map_exchange {a b : Char} {s word : List Char} (hword : b ∉ word)
    (h : word <:+ s.map (exchange a b)) : word <:+ s := by
  obtain ⟨front, hfront⟩ := h
  obtain ⟨s₁, s₂, rfl, -, hs₂⟩ := List.map_eq_append_iff.mp hfront.symm
  rw [eq_of_map_exchange hword hs₂]
  exact List.suffix_append s₁ word

/-! ### Keywords -/

/-- A word stands for no primitive type if it is none of the keywords. -/
theorem Primitive.ofKeyword?_eq_none {word : String} :
    ofKeyword? word = none ↔ ∀ p : Primitive, word ≠ p.keyword := by
  have hall (p : Primitive) : p ∈ all := by cases p <;> decide
  rw [ofKeyword?, List.find?_eq_none]
  exact ⟨fun h p heq => h p (hall p) (beq_iff_eq.mpr heq.symm),
    fun h p _ heq => h p (beq_iff_eq.mp heq).symm⟩

/-- No keyword holds a dot or a slash. -/
theorem Primitive.not_mem_keyword (p : Primitive) :
    '.' ∉ p.keyword.toList ∧ '/' ∉ p.keyword.toList := by
  cases p <;> decide

/-! ### Names that convert back -/

/-- Whether a class can be told from its Java spelling: its name is not empty, has no blanks around
it, holds no dot, does not end with the brackets of an array, and is no word for a primitive
type. -/
structure ClassName.IsSpellable (c : ClassName) : Prop where
  nonempty : c.path ≠ ""
  trimmed : IsTrimmed c.path.toList
  no_dot : '.' ∉ c.path.toList
  no_brackets : ¬['[', ']'] <:+ c.path.toList
  no_keyword : ∀ p : Primitive, c.path ≠ p.keyword

namespace JavaType

/-- Whether the class in a type, if there is one, can be told from its Java spelling. -/
def IsSpellable : JavaType → Prop
  | array t => t.IsSpellable
  | object c => c.IsSpellable
  | primitive _ => True

/-! ### Reading, from the end -/

/-- A text spells no type exactly if nothing is left of it. -/
theorem ofJavaChars?_eq_none {s : List Char} : ofJavaChars? s = none ↔ LeavesNothing s := by
  fun_induction ofJavaChars? s with
  | case1 s name h ih =>
    have htrim : trim s = name.reverse ++ ['[', ']'] := by
      simpa using congrArg List.reverse h
    rw [Option.map_eq_none_iff, ih]
    refine ⟨.brackets htrim, ?_⟩
    rintro (hblank | ⟨hbrackets, inner⟩)
    · simp [htrim] at hblank
    · exact List.append_cancel_right (htrim.symm.trans hbrackets) ▸ inner
  | case2 s h => exact iff_of_true rfl (.blank (List.reverse_eq_nil_iff.mp h))
  | case3 s p hbrackets hnil | case4 s hbrackets hnil hp =>
    -- A name without brackets is left.
    refine iff_of_false (Option.some_ne_none _) ?_
    rintro (hblank | ⟨htrim, -⟩)
    · exact hnil (by simp [hblank])
    · exact hbrackets _ (by rw [htrim, List.reverse_append]; rfl)

/-- What is read off a Java spelling is the type that it spells. -/
theorem readJavaName_eq_ok {text : String} {t : JavaType} :
    readJavaName text = .ok t ↔ ofJavaName? text = some t := by
  rw [readJavaName]
  cases ofJavaName? text <;> simp

/-- The Java spelling of a type is read exactly if something is left of it. -/
theorem readJavaName_eq_error {text : String} :
    (∃ f, readJavaName text = .error f) ↔ LeavesNothing text.toList := by
  rw [← ofJavaChars?_eq_none, readJavaName, ofJavaName?]
  cases ofJavaChars? text.toList <;> simp

/-- Brackets at the end make an array of what stands in front of them. -/
theorem ofJavaChars?_of_brackets {s element : List Char} (h : trim s = element ++ ['[', ']']) :
    ofJavaChars? s = (ofJavaChars? element).map array := by
  have hreverse : (trim s).reverse = ']' :: '[' :: element.reverse := by simp [h]
  rw [ofJavaChars?]
  split
  case h_1 name heq =>
    obtain rfl : name = element.reverse := by simpa using heq.symm.trans hreverse
    rw [List.reverse_reverse]
  case h_2 heq => cases heq.symm.trans hreverse
  case h_3 hbrackets _ => exact (hbrackets _ hreverse).elim

/-- A name without brackets at the end is a keyword, or that of a class. -/
theorem ofJavaChars?_of_name {s : List Char} (hne : trim s ≠ [])
    (hbrackets : ¬['[', ']'] <:+ trim s) :
    ofJavaChars? s =
      match Primitive.ofKeyword? (String.ofList (trim s)) with
      | some p => some (primitive p)
      | none => some (object (ClassName.ofJavaName (String.ofList (trim s)))) := by
  rw [ofJavaChars?]
  split
  case h_1 name heq =>
    refine absurd ⟨name.reverse, ?_⟩ hbrackets
    simpa using (congrArg List.reverse heq).symm
  case h_2 heq => exact absurd (List.reverse_eq_nil_iff.mp heq) hne
  case h_3 =>
    generalize hname : (trim s).reverse.reverse = name
    obtain rfl : trim s = name := (List.reverse_reverse _).symm.trans hname
    rfl

/-! ### Printing and reading -/

/-- The Java spelling of a class has dots for the slashes of its name. -/
theorem toList_javaName_object (c : ClassName) :
    (object c).javaName.toList = c.path.toList.map (exchange '/' '.') := by
  rw [javaName, ClassName.javaName, String.toList_ofList]
  rfl

/-- The Java spelling of an array has brackets behind. -/
theorem toList_javaName_array (t : JavaType) :
    (array t).javaName.toList = t.javaName.toList ++ ['[', ']'] := by
  rw [javaName, String.toList_append]
  rfl

/-- The Java spelling of a type that can be told from it is not empty and has no blanks around
it. -/
theorem isTrimmed_javaName {t : JavaType} (h : t.IsSpellable) :
    t.javaName.toList ≠ [] ∧ IsTrimmed t.javaName.toList := by
  induction t with
  | array t ih =>
    obtain ⟨hne, htrimmed⟩ := ih h
    rw [toList_javaName_array]
    refine ⟨by simp, isTrimmed_iff.mpr ⟨htrimmed.stops.append hne _, ?_⟩⟩
    rw [List.reverse_append]
    exact stops_cons.mpr (by decide)
  | object c =>
    have hne : c.path.toList ≠ [] := fun hnil => h.nonempty (String.toList_eq_nil_iff.mp hnil)
    rw [toList_javaName_object]
    refine ⟨by simpa using h.nonempty, ?_⟩
    rw [IsTrimmed, trim_map_exchange (by decide) (by decide), h.trimmed]
  | primitive p => cases p <;> decide

/-- A type whose classes can be told from their Java spelling is read as it is spelled. -/
theorem ofJavaChars?_javaName {t : JavaType} (h : t.IsSpellable) :
    ofJavaChars? t.javaName.toList = some t := by
  obtain ⟨hne, htrimmed⟩ := isTrimmed_javaName h
  induction t with
  | array t ih =>
    have hinner := isTrimmed_javaName (t := t) h
    rw [ofJavaChars?_of_brackets (htrimmed.trans (toList_javaName_array t)), ih h hinner.1 hinner.2]
    rfl
  | object c =>
    rw [toList_javaName_object] at hne htrimmed ⊢
    have hbrackets : ¬['[', ']'] <:+ c.path.toList.map (exchange '/' '.') := fun hsuffix =>
      h.no_brackets (isSuffix_of_map_exchange (by decide) hsuffix)
    have hkeyword :
        Primitive.ofKeyword? (String.ofList (c.path.toList.map (exchange '/' '.'))) = none := by
      refine Primitive.ofKeyword?_eq_none.mpr fun p heq => h.no_keyword p (String.toList_inj.mp ?_)
      have hlist : c.path.toList.map (exchange '/' '.') = p.keyword.toList := by
        rw [← heq, String.toList_ofList]
      exact eq_of_map_exchange p.not_mem_keyword.1 hlist
    rw [ofJavaChars?_of_name (by rwa [htrimmed]) (by rwa [htrimmed]), htrimmed, hkeyword]
    refine congrArg (some ∘ object) (congrArg ClassName.mk ?_)
    rw [String.toList_ofList, htrimmed]
    exact (congrArg String.ofList (map_exchange_back h.no_dot)).trans String.ofList_toList
  | primitive p =>
    rw [ofJavaChars?_of_name]
    all_goals cases p <;> decide

/-- A name that is no keyword names a class that can be told from its Java spelling, if it is
trimmed and brackets do not end it. -/
theorem isSpellable_ofJavaName {name : List Char} (hne : name ≠ []) (htrimmed : IsTrimmed name)
    (hbrackets : ¬['[', ']'] <:+ name)
    (hkeyword : Primitive.ofKeyword? (String.ofList name) = none) :
    (ClassName.ofJavaName (String.ofList name)).IsSpellable := by
  have hpath : (ClassName.ofJavaName (String.ofList name)).path.toList =
      name.map (exchange '.' '/') := by
    rw [ClassName.ofJavaName, String.toList_ofList, String.toList_ofList, htrimmed]
    rfl
  constructor
  case nonempty =>
    intro hempty
    rw [hempty] at hpath
    exact hne (List.map_eq_nil_iff.mp hpath.symm)
  case trimmed =>
    rw [hpath, IsTrimmed, trim_map_exchange (by decide) (by decide), htrimmed]
  case no_dot =>
    rw [hpath]
    exact not_mem_map_exchange (by decide) name
  case no_brackets =>
    rw [hpath]
    exact fun hsuffix => hbrackets (isSuffix_of_map_exchange (by decide) hsuffix)
  case no_keyword =>
    intro p heq
    refine Primitive.ofKeyword?_eq_none.mp hkeyword p (String.toList_inj.mp ?_)
    rw [heq] at hpath
    rw [String.toList_ofList]
    exact eq_of_map_exchange p.not_mem_keyword.2 hpath.symm

/-- Only types whose classes can be told from their Java spelling are read. -/
theorem isSpellable_of_ofJavaChars? {s : List Char} {t : JavaType} (h : ofJavaChars? s = some t) :
    t.IsSpellable := by
  fun_induction ofJavaChars? s generalizing t with
  | case1 s name hbrackets ih =>
    obtain ⟨element, helement, rfl⟩ := Option.map_eq_some_iff.mp h
    exact ih (t := element) helement
  | case2 s hnil => cases h
  | case3 s p hbrackets hnil hp =>
    obtain rfl := Option.some.inj h
    trivial
  | case4 s hbrackets hnil hp =>
    obtain rfl := Option.some.inj h
    rw [List.reverse_reverse] at hp ⊢
    refine isSpellable_ofJavaName (fun hempty => hnil (List.reverse_eq_nil_iff.mpr hempty))
      (isTrimmed_trim s) ?_ hp
    rintro ⟨front, hfront⟩
    exact hbrackets front.reverse (by rw [← hfront, List.reverse_append]; rfl)

/-- Java spellings convert back. A type is read from its Java spelling exactly if the class in it
can be told from it. Every type that is read off some text is one of these. A text is refused, as
empty, exactly if nothing is left of it. -/
theorem readJavaName_exact :
    (∀ t : JavaType, readJavaName t.javaName = .ok t ↔ t.IsSpellable) ∧
    (∀ text t, readJavaName text = .ok t → t.IsSpellable ∧ readJavaName t.javaName = .ok t) ∧
    (∀ text failure, readJavaName text = .error failure ↔
      failure = Cause.emptyJavaName.failure ∧ LeavesNothing text.toList) := by
  have hspellable (t : JavaType) : readJavaName t.javaName = .ok t ↔ t.IsSpellable :=
    ⟨fun h => isSpellable_of_ofJavaChars? (readJavaName_eq_ok.mp h),
      fun h => readJavaName_eq_ok.mpr (ofJavaChars?_javaName h)⟩
  refine ⟨hspellable, fun text t h => ?_, fun text failure => ?_⟩
  · have ht : t.IsSpellable := isSpellable_of_ofJavaChars? (readJavaName_eq_ok.mp h)
    exact ⟨ht, (hspellable t).mpr ht⟩
  · rw [← ofJavaChars?_eq_none, readJavaName, ofJavaName?]
    cases ofJavaChars? text.toList <;> simp [eq_comm]

end JavaType

end GatedCalls
