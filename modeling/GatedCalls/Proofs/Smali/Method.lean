import GatedCalls.Proofs.Smali.Entry
import GatedCalls.Proofs.Smali.Modifier
import GatedCalls.Smali.MethodReader

/-!
# Methods are read as they are printed

A method is printed as its first line and its entries: the number of registers, the annotations and
the body. The entries are read back one after another, each in front of the ones behind it.
-/

namespace GatedCalls

open Text

namespace Method

/-- The entries of a method in the order in which they are printed. -/
def entries (m : Method) : List Entry :=
  m.locals.toList.map Entry.locals ++ m.annotations.map Entry.annotated ++ m.body.map Entry.item

/-- The method that the first line alone defines. -/
def header (m : Method) : Method :=
  ⟨m.name, m.modifiers, m.isConstructor, m.proto, none, [], []⟩

/-- The entries of a method that say the number of registers. -/
theorem filterMap_locals_entries (m : Method) :
    m.entries.filterMap Entry.locals? = m.locals.toList := by
  rw [entries, List.filterMap_append, List.filterMap_append,
    filterMap_map_some (f := Entry.locals) fun _ => rfl,
    filterMap_map_none (f := Entry.annotated) fun _ => rfl,
    filterMap_map_none (f := Entry.item) fun _ => rfl, List.append_nil, List.append_nil]

/-- The entries of a method that are annotations. -/
theorem filterMap_block_entries (m : Method) :
    m.entries.filterMap Entry.block? = m.annotations := by
  rw [entries, List.filterMap_append, List.filterMap_append,
    filterMap_map_none (f := Entry.locals) fun _ => rfl,
    filterMap_map_some (f := Entry.annotated) fun _ => rfl,
    filterMap_map_none (f := Entry.item) fun _ => rfl, List.append_nil, List.nil_append]

/-- The entries of a method that belong to its body. -/
theorem filterMap_item_entries (m : Method) : m.entries.filterMap Entry.item? = m.body := by
  rw [entries, List.filterMap_append, List.filterMap_append,
    filterMap_map_none (f := Entry.locals) fun _ => rfl,
    filterMap_map_none (f := Entry.annotated) fun _ => rfl,
    filterMap_map_some (f := Entry.item) fun _ => rfl, List.nil_append, List.nil_append]

/-- The entries of a method and its first line make it up. -/
theorem withEntries_entries (m : Method) : m.header.withEntries m.entries = m := by
  rw [withEntries, filterMap_locals_entries, filterMap_block_entries, filterMap_item_entries]
  obtain ⟨name, modifiers, isConstructor, proto, locals, annotations, body⟩ := m
  cases locals <;> rfl

/-- The word for a constructor with the space behind it. -/
def constructorText (isConstructor : Bool) : List Char :=
  if isConstructor then "constructor ".toList else []

/-- The end of a method, and the text behind it. -/
def closingText (behind : List Char) : List Char :=
  ".end method".toList ++ '\n' :: '\n' :: behind

/-- The end of a method does not begin with layout. -/
theorem stops_closingText (behind : List Char) : Stops isLayout (closingText behind) :=
  stops_cons.mpr (by decide)

/-- The printed entries of a method. -/
theorem flatMap_entries (m : Method) :
    m.entries.flatMap Entry.text =
      (m.locals.toList.flatMap fun n => (Entry.localsLine n).toList) ++
        ((m.annotations.flatMap fun a => (a.print false "    ").toList) ++
          m.body.flatMap fun i => i.print.toList) := by
  rw [entries, List.flatMap_append, List.flatMap_append, List.flatMap_map, List.flatMap_map,
    List.flatMap_map, List.append_assoc]
  rfl

/-- A printed method as characters, with the text behind it. -/
theorem toList_print (m : Method) (behind : List Char) :
    m.print.toList ++ behind = ".method".toList ++ ' ' :: ((Modifier.printList m.modifiers).toList ++
      (constructorText m.isConstructor ++ (m.name.toList ++ (m.proto.descriptor.toList ++
        '\n' :: (m.entries.flatMap Entry.text ++ closingText behind))))) := by
  rw [flatMap_entries]
  obtain ⟨name, modifiers, isConstructor, proto, locals, annotations, body⟩ := m
  unfold closingText
  -- An equation for a concatenation this long takes long to derive, so the definition is opened.
  delta print
  cases isConstructor <;> cases locals <;>
    simp [constructorText, Entry.localsLine, String.toList_join, List.flatMap_map]

/-- Whether a method is read as itself in front of the text behind it. -/
structure Legible (m : Method) (behind : List Char) : Prop where
  name_ne_nil : m.name.toList ≠ []
  name_trimmed : IsTrimmed m.name.toList
  name_chars : ∀ c ∈ m.name.toList, isNameChar c = true
  /-- Neither a modifier nor the word of a constructor is read off the name. -/
  name_free : m.isConstructor = false → ¬BeginsWithModifier m.name.toList ∧
    ¬BeginsWithWord "constructor".toList m.name.toList
  proto_named : m.proto.IsNamed
  /-- Each entry is legible in front of the ones behind it and of the closing line. -/
  entries_legible : EachInPlace Entry.text Entry.Legible (closingText behind) m.entries

/-! ### Legible methods are read back -/

/-- No modifier begins like the word for a constructor. -/
theorem not_beginsWithModifier_constructor (s : List Char) :
    ¬BeginsWithModifier ("constructor ".toList ++ s) := by
  rintro ⟨m, c, -, t, ht⟩
  have hhead := congrArg List.head? ht
  revert hhead
  cases m <;> simp [Modifier.word]

/-- A constructor is told by the word in front of its name. -/
theorem constructorReader_append {isConstructor : Bool} {name rest : List Char}
    (hname : Stops isSpace (name ++ '(' :: rest))
    (hfree : isConstructor = false → ¬BeginsWithWord "constructor".toList name) :
    ∃ x, Reader.optional (do Reader.literal "constructor"; Reader.spaces1)
      (constructorText isConstructor ++ (name ++ '(' :: rest)) = .ok (x, name ++ '(' :: rest) ∧
        x.isSome = isConstructor := by
  cases isConstructor with
  | true =>
    have hread : (do Reader.literal "constructor"; Reader.spaces1 : Reader Unit)
        ("constructor".toList ++ ' ' :: (name ++ '(' :: rest)) = .ok ((), name ++ '(' :: rest) :=
      Reader.bind_ok (Reader.literal_append "constructor" _) (Reader.spaces1_cons (by decide) hname)
    exact ⟨some (), Reader.optional_of_ok hread, rfl⟩
  | false =>
    refine ⟨none, Reader.optional_of_fails (Reader.fails_of_ne_ok fun a t h => ?_), rfl⟩
    obtain ⟨_, s, hword, hspace⟩ := Reader.bind_eq_ok.mp h
    obtain ⟨cs, hne, rfl, hcs, -⟩ := Reader.spaces1_eq_ok hspace
    obtain ⟨c, cs, rfl⟩ := List.exists_cons_of_ne_nil hne
    have htext : name ++ '(' :: rest = "constructor".toList ++ (c :: cs ++ t) :=
      Reader.literal_eq_ok_iff.mp hword
    have hbegins : BeginsWithWord "constructor".toList (name ++ '(' :: rest) :=
      ⟨c, hcs c List.mem_cons_self, cs ++ t, by rw [htext]; simp⟩
    exact hfree rfl ((beginsWithWord_append (by decide) (by decide)).mp hbegins)

/-- The first line of a legible method is read as itself. -/
theorem headerReader_append {m : Method} {behind : List Char} (h : m.Legible behind)
    (rest : List Char) :
    headerReader (".method".toList ++ ' ' :: ((Modifier.printList m.modifiers).toList ++
      (constructorText m.isConstructor ++ (m.name.toList ++ (m.proto.descriptor.toList ++
        '\n' :: rest))))) = .ok (m.header, rest) := by
  have hproto : ∃ s, m.proto.descriptor.toList ++ '\n' :: rest = '(' :: s := by
    rw [Prototype.toList_descriptor]
    exact ⟨_, rfl⟩
  have hread := Prototype.reader_descriptor h.proto_named ('\n' :: rest)
  obtain ⟨s, hs⟩ := hproto
  rw [hs] at hread ⊢
  have hname : Stops isSpace (m.name.toList ++ '(' :: s) :=
    h.name_trimmed.stops.isLayout.isSpace.append h.name_ne_nil _
  have hstop : Stops isSpace (constructorText m.isConstructor ++ (m.name.toList ++ '(' :: s)) := by
    cases m.isConstructor with
    | true => exact stops_cons.mpr (by decide)
    | false => exact hname
  have hfree : ¬BeginsWithModifier
      (constructorText m.isConstructor ++ (m.name.toList ++ '(' :: s)) := by
    cases hconstructor : m.isConstructor with
    | true => exact not_beginsWithModifier_constructor _
    | false =>
      rw [constructorText, if_neg (by decide), List.nil_append,
        beginsWithModifier_append (by decide) fun m => m.not_mem_word.2]
      exact (h.name_free hconstructor).1
  obtain ⟨x, hconstructor, hx⟩ := constructorReader_append hname fun hc => (h.name_free hc).2
  refine Reader.bind_ok (Reader.literal_append ".method" _) ?_
  refine Reader.bind_ok
    (Reader.spaces1_cons (by decide) (Modifier.stops_printList m.modifiers hstop)) ?_
  refine Reader.bind_ok (Modifier.listReader_append m.modifiers hstop hfree) ?_
  refine Reader.bind_ok hconstructor ?_
  refine Reader.bind_ok (Reader.run1_append h.name_ne_nil h.name_chars (stops_cons.mpr (by decide))) ?_
  refine Reader.bind_ok hread ?_
  refine Reader.bind_ok (Reader.restOfLine_append inLine_nil rest) ?_
  rw [h.name_trimmed, String.ofList_toList, hx]
  rfl

/-- A legible entry is read in its place, with the layout behind it. -/
theorem spacedReader_text {e : Entry} {behind : List Char} (he : e.Legible behind) :
    closing.Fails (afterLayout (e.text ++ behind)) ∧
      Entry.spacedReader (afterLayout (e.text ++ behind)) = .ok (e, afterLayout behind) := by
  obtain ⟨hopen, u, hread, hu⟩ := Entry.readInPlace_of_legible he
  refine ⟨Reader.literal_fails hopen, Reader.bind_ok hread ?_⟩
  rw [← hu]
  rfl

/-- A legible method is read as itself. -/
theorem reader_print {m : Method} {behind : List Char} (h : m.Legible behind) :
    ∃ u, reader (m.print.toList ++ behind) = .ok (m, u) ∧ afterLayout u = afterLayout behind := by
  have hentries (start : List Char) : Reader.manyTill closing Entry.spacedReader
      Entry.progresses_spacedReader start
        (afterLayout (m.entries.flatMap Entry.text ++ closingText behind)) =
          .ok ((m.entries, ()), '\n' :: '\n' :: behind) := by
    have hend : closing (afterLayout (closingText behind)) = .ok ((), '\n' :: '\n' :: behind) := by
      rw [afterLayout_of_stops (stops_closingText behind)]
      exact Reader.literal_append ".end method" _
    have hmany : Reader.manyTill closing Entry.spacedReader Entry.progresses_spacedReader start
        (afterLayout (m.entries.flatMap Entry.text ++ closingText behind)) =
          .ok ((m.entries.map id, ()), '\n' :: '\n' :: behind) :=
      Reader.manyTill_eachInPlace id (fun _ _ he => spacedReader_text he) h.entries_legible hend
    rwa [List.map_id] at hmany
  have hheader := headerReader_append h (m.entries.flatMap Entry.text ++ closingText behind)
  have hspaced : (do let m ← headerReader; Reader.layout; return m : Reader Method)
      (m.print.toList ++ behind) =
        .ok (m.header, afterLayout (m.entries.flatMap Entry.text ++ closingText behind)) := by
    rw [toList_print]
    exact Reader.bind_ok hheader rfl
  refine ⟨'\n' :: behind, ?_, afterLayout_cons (by decide) behind⟩
  have hend : Reader.restOfLine ('\n' :: '\n' :: behind) = .ok ([], '\n' :: behind) :=
    Reader.restOfLine_append inLine_nil _
  rw [reader, hspaced]
  simp only [hentries, hend, withEntries_entries]

end Method

end GatedCalls
