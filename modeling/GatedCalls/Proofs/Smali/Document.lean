import GatedCalls.Proofs.Smali.WellFormed
import GatedCalls.Proofs.Text.Yields

/-!
# Documents with further text

What a method or a class is read as when there is further text behind its printed parts. A text
within a method adds the entries that it yields to those of the method, a text behind a class adds
statements to the class; and the whole is not read where the further text is not.
-/

namespace GatedCalls

open Text

/-- Whether a text within a method yields entries in front of the text behind it. -/
abbrev Entry.Yields (x : List Char) (es : List Entry) (behind : List Char) : Prop :=
  Reader.Yields Method.closing spacedReader progresses_spacedReader x es behind

/-- Whether a text within a method is not read. -/
def Entry.Unreadable (s : List Char) : Prop :=
  ∀ start, ∃ e, Reader.manyTill Method.closing spacedReader progresses_spacedReader start
    (afterLayout s) = .error e

/-- Whether a text at the top level yields statements in front of the text behind it. -/
abbrev Statement.Yields (x : List Char) (sts : List Statement) (behind : List Char) : Prop :=
  Reader.Yields Reader.endOfText spacedReader progresses_spacedReader x sts behind

/-- A text that is not read where it stands makes the text in front of it unreadable too. -/
theorem Entry.Unreadable.append {x behind : List Char} {es : List Entry}
    (hx : Entry.Yields x es behind) (h : Entry.Unreadable behind) :
    Entry.Unreadable (x ++ behind) := by
  intro start
  obtain ⟨e, he⟩ := h start
  exact ⟨e, by rw [hx start, he]; rfl⟩

/-! ### Methods -/

namespace Method

/-- The text of a method down to its last printed entry. -/
def opening (m : Method) : List Char :=
  ".method".toList ++ ' ' :: ((Modifier.printList m.modifiers).toList ++
    (constructorText m.isConstructor ++ (m.name.toList ++ (m.proto.descriptor.toList ++
      '\n' :: m.entries.flatMap Entry.text))))

/-- The text of a method down to its last printed entry, and the text behind it. -/
theorem opening_append (m : Method) (s : List Char) :
    m.opening ++ s = ".method".toList ++ ' ' :: ((Modifier.printList m.modifiers).toList ++
      (constructorText m.isConstructor ++ (m.name.toList ++ (m.proto.descriptor.toList ++
        '\n' :: (m.entries.flatMap Entry.text ++ s))))) := by
  unfold opening
  generalize ".method".toList = word
  simp only [List.append_assoc, List.cons_append]

/-- A method with further text behind its printed entries. -/
def textWith (m : Method) (x : List Char) : List Char :=
  m.opening ++ (x ++ closingText [])

/-- A method with further text, and the text behind it. -/
theorem textWith_append (m : Method) (x behind : List Char) :
    m.textWith x ++ behind = m.opening ++ (x ++ closingText behind) :=
  (List.append_assoc _ _ _).trans (congrArg (m.opening ++ ·) (List.append_assoc x _ behind))

/-- A method with further entries. -/
def withFurther (m : Method) (es : List Entry) : Method :=
  { m with
    locals := (es.filterMap Entry.locals?).getLast?.or m.locals
    annotations := m.annotations ++ es.filterMap Entry.block?
    body := m.body ++ es.filterMap Entry.item? }

/-- Entries behind those of a method are added to it. -/
theorem withEntries_append (m : Method) (es : List Entry) :
    m.header.withEntries (m.entries ++ es) = m.withFurther es := by
  have hlast : (m.locals.toList ++ es.filterMap Entry.locals?).getLast? =
      (es.filterMap Entry.locals?).getLast?.or m.locals := by
    rw [List.getLast?_append]
    cases m.locals <;> rfl
  rw [withEntries, List.filterMap_append, List.filterMap_append, List.filterMap_append,
    filterMap_locals_entries, filterMap_block_entries, filterMap_item_entries, hlast]
  rfl

variable {m : Method} {x behind : List Char} {es : List Entry}

/-- What is read once the entries of a method are taken: the rest of its last line is passed
over. -/
def concluded (header : Method) :
    Except (List Char) ((List Entry × Unit) × List Char) → Except (List Char) (Method × List Char)
  | .error e => .error e
  | .ok ((es, ()), u) =>
    match Reader.restOfLine u with
    | .error e => .error e
    | .ok (_, w) => .ok (header.withEntries es, w)

/-- A method is read as its printed entries and what its further text is read as. -/
theorem reader_opening (h : m.WellFormed) {s : List Char}
    (hs : startsWith ".annotation" (afterLayout s) = false) :
    reader (m.opening ++ s) =
      m.header.concluded (Reader.prepend m.entries (Reader.manyTill closing Entry.spacedReader
        Entry.progresses_spacedReader (m.opening ++ s) (afterLayout s))) := by
  have hyields : Entry.Yields (m.entries.flatMap Entry.text) (m.entries.flatMap fun e => [e]) s :=
    Reader.yields_flatMap ((h.eachInPlace_entries hs).imp fun e _ t he =>
      Reader.yields_one (spacedReader_text he).1 (spacedReader_text he).2)
  rw [List.flatMap_singleton'] at hyields
  have hheader := headerReader_append (h.legible []) (m.entries.flatMap Entry.text ++ s)
  have hspaced : (do let m ← headerReader; Reader.layout; return m : Reader Method)
      (m.opening ++ s) = .ok (m.header, afterLayout (m.entries.flatMap Entry.text ++ s)) := by
    rw [opening_append]
    exact Reader.bind_ok hheader rfl
  rw [reader, hspaced]
  exact congrArg m.header.concluded (hyields (m.opening ++ s))

/-- A method with further text that yields entries is read as the method with these entries. -/
theorem reader_textWith (h : m.WellFormed)
    (hx : startsWith ".annotation" (afterLayout (x ++ closingText behind)) = false)
    (hyields : Entry.Yields x es (closingText behind)) :
    reader (m.textWith x ++ behind) = .ok (m.withFurther es, '\n' :: behind) := by
  have htext := m.textWith_append x behind
  have hend : closing (afterLayout (closingText behind)) = .ok ((), '\n' :: '\n' :: behind) := by
    rw [afterLayout_of_stops (stops_closingText behind)]
    exact Reader.literal_append ".end method" _
  have hrest : Reader.restOfLine ('\n' :: '\n' :: behind) = .ok ([], '\n' :: behind) :=
    Reader.restOfLine_append inLine_nil _
  rw [htext, reader_opening h hx, hyields.manyTill_eq_ok hend]
  simp only [Reader.prepend, concluded, hrest, withEntries_append]

/-- A method with further text that is not read is not read. -/
theorem reader_textWith_fails (h : m.WellFormed)
    (hx : startsWith ".annotation" (afterLayout (x ++ closingText behind)) = false)
    (hunreadable : Entry.Unreadable (x ++ closingText behind)) :
    reader.Fails (m.textWith x ++ behind) := by
  have htext := m.textWith_append x behind
  obtain ⟨e, he⟩ := hunreadable (m.opening ++ (x ++ closingText behind))
  refine ⟨e, ?_⟩
  rw [htext, reader_opening h hx, he]
  rfl

end Method

/-! ### Classes -/

namespace Statement

variable {m : Method} {x behind : List Char} {es : List Entry}

/-- Whether a statement is a part of a class of which there can be any number. -/
def IsMember : Statement → Prop
  | annotated _ => True
  | field _ => True
  | method _ => True
  | _ => False

/-- A text with a word in front of which there is no layout begins with the word. -/
theorem afterLayout_word {word : String} {w : Char} {ws : List Char} (hword : word.toList = w :: ws)
    (hw : isLayout w = false) (s : List Char) :
    afterLayout (word.toList ++ s) = word.toList ++ s := by
  rw [hword]
  exact afterLayout_of_stops (stops_cons.mpr hw)

/-- A text that does not end is not the end of a document. -/
theorem endOfText_fails {s : List Char} (h : s ≠ []) : Reader.endOfText.Fails s := by
  refine ⟨s, ?_⟩
  rw [Reader.endOfText, if_neg (by simpa using h)]

/-- A method with further text begins with its first line. -/
theorem exists_textWith (m : Method) (x : List Char) :
    ∃ s, m.textWith x = ".method".toList ++ s :=
  ⟨_, List.append_assoc _ _ _⟩

/-- A method with further text that yields entries is a statement. -/
theorem yields_method (h : m.WellFormed)
    (hx : startsWith ".annotation" (afterLayout (x ++ Method.closingText behind)) = false)
    (hyields : Entry.Yields x es (Method.closingText behind)) :
    Statement.Yields (m.textWith x) [method (m.withFurther es)] behind := by
  have hread := Method.reader_textWith h hx hyields
  obtain ⟨s, hs⟩ := exists_textWith m x
  have hplace : afterLayout (m.textWith x ++ behind) = ".method".toList ++ (s ++ behind) := by
    rw [hs, List.append_assoc]
    exact afterLayout_word rfl (by decide) _
  have hstatement : reader (".method".toList ++ (s ++ behind)) =
      .ok (method (m.withFurther es), '\n' :: behind) := by
    rw [hs, List.append_assoc] at hread
    rw [reader, readerFor_method]
    exact Reader.bind_ok hread rfl
  refine Reader.yields_one ?_ ?_
  · rw [hplace]
    exact endOfText_fails (by simp)
  · rw [hplace]
    refine Reader.bind_ok hstatement ?_
    rw [Reader.bind_of_ok (Reader.layout_apply _), afterLayout_cons (by decide)]
    rfl

/-- A method with further text that is not read is no statement. -/
theorem reader_method_fails (h : m.WellFormed)
    (hx : startsWith ".annotation" (afterLayout (x ++ Method.closingText behind)) = false)
    (hunreadable : Entry.Unreadable (x ++ Method.closingText behind)) :
    spacedReader.Fails (afterLayout (m.textWith x ++ behind)) ∧
      Reader.endOfText.Fails (afterLayout (m.textWith x ++ behind)) := by
  have hfails := Method.reader_textWith_fails h hx hunreadable
  obtain ⟨s, hs⟩ := exists_textWith m x
  rw [hs, List.append_assoc] at hfails ⊢
  rw [afterLayout_word rfl (by decide)]
  refine ⟨Reader.Fails.bind ?_, endOfText_fails (by simp)⟩
  obtain ⟨e, he⟩ : methodReader.Fails (".method".toList ++ (s ++ behind)) := hfails.bind
  exact ⟨e, by rw [reader, readerFor_method, he]⟩

end Statement

namespace ClassDef

variable {c : ClassDef} {m : Method} {x : List Char} {es : List Entry} {sts : List Statement}

/-- The printed parts of a well-formed class yield its statements in front of a text that does not
begin with an annotation. -/
theorem WellFormed.yields_print (h : c.WellFormed)
    (hx : startsWith ".annotation" (afterLayout x) = false) :
    Statement.Yields c.print.toList (c.pieces.map Prod.snd) x := by
  have hempty : ∀ c ∈ ("" : String).toList, c = ' ' := nofun
  have hmethods := startsWith_part "methods" (c.methods.map fun m => (m.print, .method m)) hx
  have hinPlace : EachInPlace (fun p => p.1.toList) Statement.ReadInPlace x c.pieces := by
    refine eachInPlace_append.mpr ⟨eachInPlace_headPart h.name_inLine h.superclass_inLine
      h.source_body _, eachInPlace_append.mpr ⟨eachInPlace_interfacePart h.interfaces_inLine _, ?_⟩⟩
    refine eachInPlace_append.mpr ⟨?_, eachInPlace_append.mpr ⟨?_, ?_⟩⟩
    · exact eachInPlace_part "annotations" (by decide)
        (fun a _ s ha => Statement.readInPlace_annotated ha)
        (eachInPlace_of_forall fun a ha _ => (h.annotations a ha).legible hempty a)
    · exact eachInPlace_part "fields" (by decide) (fun f _ s hf => Statement.readInPlace_field hf)
        (eachInPlace_fields h.fields hmethods).1
    · exact eachInPlace_part "methods" (by decide) (fun m _ s hm => Statement.readInPlace_method hm)
        (eachInPlace_of_forall fun m hm s => (h.methods m hm).legible s)
  have hyields : Statement.Yields (c.pieces.flatMap fun p => p.1.toList)
      (c.pieces.flatMap fun p => [p.2]) x :=
    Reader.yields_flatMap (hinPlace.imp fun p _ s hp => Reader.yields_one hp.endOfText_fails hp)
  rw [← List.map_eq_flatMap] at hyields
  rw [toList_print]
  exact hyields

/-- A class with further parts. -/
def withFurther (c : ClassDef) (sts : List Statement) : ClassDef :=
  { c with
    annotations := c.annotations ++ sts.filterMap Statement.annotated?
    fields := c.fields ++ sts.filterMap Statement.field?
    methods := c.methods ++ sts.filterMap Statement.method? }

/-- The statements of a class and further parts of it make up the class with these. -/
theorem ofStatements?_append (c : ClassDef) (hsts : ∀ st ∈ sts, st.IsMember) :
    ofStatements? (c.pieces.map Prod.snd ++ sts) = some (c.withFurther sts) := by
  have hnone {β : Type} {f : Statement → Option β} (hf : ∀ st, st.IsMember → f st = none) :
      sts.filterMap f = [] :=
    List.filterMap_eq_nil_iff.mpr fun st hst => hf st (hsts st hst)
  have hheader : sts.filterMap Statement.header? = [] :=
    hnone fun | .annotated _, _ | .field _, _ | .method _, _ => rfl
  have hsuperclass : sts.filterMap Statement.superclass? = [] :=
    hnone fun | .annotated _, _ | .field _, _ | .method _, _ => rfl
  have hsource : sts.filterMap Statement.source? = [] :=
    hnone fun | .annotated _, _ | .field _, _ | .method _, _ => rfl
  have himplemented : sts.filterMap Statement.implemented? = [] :=
    hnone fun | .annotated _, _ | .field _, _ | .method _, _ => rfl
  have hpieces := ofStatements?_pieces c
  generalize c.pieces.map Prod.snd = ps at hpieces ⊢
  unfold ofStatements? at hpieces ⊢
  simp only [List.filterMap_append, hheader, hsuperclass, hsource, himplemented, List.append_nil]
  split at hpieces
  · cases hpieces
  · obtain rfl := Option.some.inj hpieces
    rfl

/-- A class with a further text that yields parts of it is read as the class with these. -/
theorem read_append (h : c.WellFormed) (hx : startsWith ".annotation" (afterLayout x) = false)
    (hyields : Statement.Yields x sts []) (hsts : ∀ st ∈ sts, st.IsMember) :
    read (c.print ++ String.ofList x) = .ok (c.withFurther sts) := by
  have hprint : Statement.Yields c.print.toList (c.pieces.map Prod.snd) (x ++ []) := by
    rw [List.append_nil]
    exact h.yields_print hx
  have hmany (start : List Char) := (hprint.append hyields).manyTill_eq_ok (u := [])
    (show Reader.endOfText (afterLayout []) = .ok ((), []) from rfl) start
  simp only [List.append_nil] at hmany
  have hall : Statement.readAll (c.print.toList ++ x) = .ok (c.pieces.map Prod.snd ++ sts) := by
    rw [Statement.readAll, ← afterLayout, hmany]
  rw [read, String.toList_append, String.toList_ofList, hall]
  simp only [ofStatements?_append c hsts]

/-- The text of a class with one more method, which has further text behind its printed entries. -/
def textWith (c : ClassDef) (m : Method) (x : List Char) : String :=
  c.print ++ String.ofList (m.textWith x)

/-- Methods begin with no annotation. -/
theorem startsWith_textWith (m : Method) (x : List Char) :
    startsWith ".annotation" (afterLayout (m.textWith x)) = false := by
  obtain ⟨s, hs⟩ := Statement.exists_textWith m x
  rw [hs, Statement.afterLayout_word rfl (by decide)]
  rfl

/-- Further text in a method that yields entries adds them to the method. -/
theorem read_textWith (hc : c.WellFormed) (hm : m.WellFormed)
    (hx : startsWith ".annotation" (afterLayout (x ++ Method.closingText [])) = false)
    (hyields : Entry.Yields x es (Method.closingText [])) :
    read (c.textWith m x) = .ok { c with methods := c.methods ++ [m.withFurther es] } := by
  have hread := read_append hc (startsWith_textWith m x) (Statement.yields_method hm hx hyields)
    (by simp [Statement.IsMember])
  rw [textWith, hread]
  simp [withFurther, Statement.annotated?, Statement.field?, Statement.method?]

/-- Further text in a method that is not read makes the document unreadable. -/
theorem read_textWith_fails (hc : c.WellFormed) (hm : m.WellFormed)
    (hx : startsWith ".annotation" (afterLayout (x ++ Method.closingText [])) = false)
    (hunreadable : Entry.Unreadable (x ++ Method.closingText [])) :
    ∃ f, read (c.textWith m x) = .error f := by
  have hprint := hc.yields_print (startsWith_textWith m x)
  obtain ⟨hfails, hend⟩ := Statement.reader_method_fails hm hx hunreadable
  rw [List.append_nil] at hfails hend
  obtain ⟨e, he⟩ := hprint.manyTill_fails hend hfails (afterLayout (c.print.toList ++ m.textWith x))
  have hall : Statement.readAll (c.print.toList ++ m.textWith x) = .error e := by
    rw [Statement.readAll, ← afterLayout, he]
  rw [read, textWith, String.toList_append, String.toList_ofList, hall]
  exact ⟨_, rfl⟩

end ClassDef

end GatedCalls
