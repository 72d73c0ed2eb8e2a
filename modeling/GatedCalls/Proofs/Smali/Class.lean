import GatedCalls.Proofs.Smali.Field
import GatedCalls.Proofs.Smali.Method
import GatedCalls.Smali.ClassReader

/-!
# Classes are read as they are printed

A printed class is a list of pieces, each with the statement that it stands for; the titles of the
parts are comments. Each piece is read in front of the ones behind it, and the statements make up
the class.
-/

namespace GatedCalls

open Text

/-! ### Statements -/

namespace Statement

/-- Whether a text is read as a statement in front of the text behind it. -/
def ReadInPlace (p : String × Statement) (behind : List Char) : Prop :=
  spacedReader (afterLayout (p.1.toList ++ behind)) = .ok (p.2, afterLayout behind)

/-- A statement is read in its place if its reader takes it up to layout. -/
theorem readInPlace_of_reader {text : String} {st : Statement} {behind t u : List Char}
    (htext : afterLayout (text.toList ++ behind) = t) (hread : readerFor t t = .ok (st, u))
    (hu : afterLayout u = afterLayout behind) : ReadInPlace (text, st) behind := by
  have hst : reader (afterLayout (text.toList ++ behind)) = .ok (st, u) := by
    rw [htext]
    exact hread
  refine Reader.bind_ok hst ?_
  rw [← hu]
  rfl

/-- An annotation is told by its first word. -/
theorem readerFor_annotated (s : List Char) :
    readerFor (".annotation".toList ++ s) = annotatedReader := by
  unfold readerFor
  rfl

/-- A field is told by its first word. -/
theorem readerFor_field (s : List Char) : readerFor (".field".toList ++ s) = fieldReader := by
  unfold readerFor
  rfl

/-- A method is told by its first word. -/
theorem readerFor_method (s : List Char) : readerFor (".method".toList ++ s) = methodReader := by
  unfold readerFor
  rfl

/-- The text does not end where a statement is read. -/
theorem ReadInPlace.endOfText_fails {p : String × Statement} {behind : List Char}
    (h : ReadInPlace p behind) : Reader.endOfText.Fails (afterLayout (p.1.toList ++ behind)) := by
  refine Reader.fails_of_ne_ok fun a t hend => ?_
  -- A statement has at least one character.
  have hlt := Statement.progresses_spacedReader.lt h
  rw [Reader.endOfText_eq_ok hend] at hlt
  exact absurd hlt (Nat.not_lt_zero _)

/-- The name of a class is read off the rest of its line. -/
theorem nameReader_append {name : ClassName} (hin : InLine name.path.toList) (rest : List Char) :
    nameReader (name.descriptor.toList ++ '\n' :: rest) = .ok (name, rest) := by
  have hline : InLine name.descriptor.toList := by
    rw [name.toList_descriptor]
    simp [hin, Reader.isInLine]
  refine Reader.bind_ok (Reader.restOfLine_append hline rest) ?_
  rw [String.ofList_toList, ClassName.ofDescriptor_descriptor]
  rfl

/-- The name of a class does not begin with a space. -/
theorem stops_descriptor (name : ClassName) (s : List Char) :
    Stops isSpace (name.descriptor.toList ++ s) := by
  simp [name.toList_descriptor, isSpace]

/-- No modifier begins like the name of a class. -/
theorem not_beginsWithModifier_descriptor (name : ClassName) (s : List Char) :
    ¬BeginsWithModifier (name.descriptor.toList ++ s) := by
  rintro ⟨m, c, -, t, ht⟩
  have hhead := congrArg List.head? ht
  rw [name.toList_descriptor] at hhead
  revert hhead
  cases m <;> simp [Modifier.word]

/-- The title of a part is a comment. -/
theorem readInPlace_title {title : String} (hin : InLine title.toList) (behind : List Char) :
    ReadInPlace ("\n# " ++ title ++ "\n", comment) behind := by
  have htext : afterLayout (("\n# " ++ title ++ "\n").toList ++ behind) =
      '#' :: ' ' :: (title.toList ++ '\n' :: behind) := by
    have hchars : ("\n# " ++ title ++ "\n").toList ++ behind =
        '\n' :: '#' :: ' ' :: (title.toList ++ '\n' :: behind) := by
      simp
    rw [hchars, afterLayout_cons (by decide)]
    exact afterLayout_of_stops (stops_cons.mpr (by decide))
  have hline : ∀ c ∈ ' ' :: title.toList, Reader.isInLine c = true :=
    inLine_cons.mpr ⟨by decide, hin⟩
  refine readInPlace_of_reader htext (u := '\n' :: behind) ?_ (afterLayout_cons (by decide) behind)
  refine Reader.bind_ok (Reader.literal_append "#" _) ?_
  exact Reader.bind_ok (Reader.run_append hline (stops_cons.mpr (by decide))) rfl

/-- The line that names the class is read as itself. -/
theorem readInPlace_header {name : ClassName} (hin : InLine name.path.toList)
    (modifiers : List Modifier) (behind : List Char) :
    ReadInPlace (".class " ++ Modifier.printList modifiers ++ name.descriptor ++ "\n",
      header modifiers name) behind := by
  have hstop := stops_descriptor name ('\n' :: behind)
  have htext : afterLayout ((".class " ++ Modifier.printList modifiers ++ name.descriptor ++
      "\n").toList ++ behind) = ".class".toList ++ ' ' :: ((Modifier.printList modifiers).toList ++
        (name.descriptor.toList ++ '\n' :: behind)) := by
    simp only [String.toList_append, List.append_assoc]
    exact afterLayout_of_stops (stops_cons.mpr (by decide))
  refine readInPlace_of_reader htext (u := behind) ?_ rfl
  refine Reader.bind_ok (Reader.literal_append ".class" _) ?_
  refine Reader.bind_ok
    (Reader.spaces1_cons (by decide) (Modifier.stops_printList modifiers hstop)) ?_
  refine Reader.bind_ok (Modifier.listReader_append modifiers hstop
    (not_beginsWithModifier_descriptor name _)) ?_
  exact Reader.bind_ok (nameReader_append hin behind) rfl

/-- The line that names the class that is extended is read as itself. -/
theorem readInPlace_superclass {name : ClassName} (hin : InLine name.path.toList)
    (behind : List Char) :
    ReadInPlace (".super " ++ name.descriptor ++ "\n", superclass name) behind := by
  have htext : afterLayout ((".super " ++ name.descriptor ++ "\n").toList ++ behind) =
      ".super".toList ++ ' ' :: (name.descriptor.toList ++ '\n' :: behind) := by
    simp only [String.toList_append, List.append_assoc]
    exact afterLayout_of_stops (stops_cons.mpr (by decide))
  refine readInPlace_of_reader htext (u := behind) ?_ rfl
  refine Reader.bind_ok (Reader.literal_append ".super" _) ?_
  refine Reader.bind_ok (Reader.spaces1_cons (by decide) (stops_descriptor name _)) ?_
  exact Reader.bind_ok (nameReader_append hin behind) rfl

/-- A line that names an interface is read as itself. -/
theorem readInPlace_implemented {name : ClassName} (hin : InLine name.path.toList)
    (behind : List Char) :
    ReadInPlace (".implements " ++ name.descriptor ++ "\n", implemented name) behind := by
  have htext : afterLayout ((".implements " ++ name.descriptor ++ "\n").toList ++ behind) =
      ".implements".toList ++ ' ' :: (name.descriptor.toList ++ '\n' :: behind) := by
    simp only [String.toList_append, List.append_assoc]
    exact afterLayout_of_stops (stops_cons.mpr (by decide))
  refine readInPlace_of_reader htext (u := behind) ?_ rfl
  refine Reader.bind_ok (Reader.literal_append ".implements" _) ?_
  refine Reader.bind_ok (Reader.spaces1_cons (by decide) (stops_descriptor name _)) ?_
  exact Reader.bind_ok (nameReader_append hin behind) rfl

/-- The line that names the source file is read as itself. -/
theorem readInPlace_source {body : String} (hbody : StringLiteral.IsBody body.toList)
    (behind : List Char) : ReadInPlace (".source \"" ++ body ++ "\"\n", source body) behind := by
  have htext : afterLayout ((".source \"" ++ body ++ "\"\n").toList ++ behind) =
      ".source".toList ++ ' ' :: '"' :: (body.toList ++ '"' :: '\n' :: behind) := by
    simp only [String.toList_append, List.append_assoc]
    exact afterLayout_of_stops (stops_cons.mpr (by decide))
  have hstop : Stops isSpace ('"' :: (body.toList ++ '"' :: '\n' :: behind)) :=
    stops_cons.mpr (by decide)
  have hspaced : StringLiteral.reader (' ' :: '"' :: (body.toList ++ '"' :: '\n' :: behind)) =
      .ok (body.toList, '\n' :: behind) := by
    rw [StringLiteral.reader_cons (by decide) hstop]
    exact StringLiteral.reader_append hbody _
  refine readInPlace_of_reader htext (u := behind) ?_ rfl
  refine Reader.bind_ok (Reader.literal_append ".source" _) ?_
  refine Reader.bind_ok hspaced ?_
  refine Reader.bind_ok (Reader.restOfLine_append inLine_nil behind) ?_
  rw [String.ofList_toList]
  rfl

/-- An annotation of the class is read in its place if it is read there by itself. -/
theorem readInPlace_annotated_of_reader {text : String} {a : AnnotationBlock} {behind s u : List Char}
    (htext : afterLayout (text.toList ++ behind) = ".annotation".toList ++ s)
    (hread : AnnotationBlock.reader false (".annotation".toList ++ s) = .ok (a, u))
    (hu : afterLayout u = afterLayout behind) : ReadInPlace (text, annotated a) behind := by
  refine readInPlace_of_reader htext ?_ hu
  rw [readerFor_annotated]
  exact Reader.bind_ok hread rfl

/-- An annotation of the class is read as itself. -/
theorem readInPlace_annotated {a : AnnotationBlock} {behind : List Char}
    (ha : a.Legible false "" ('\n' :: behind)) :
    ReadInPlace (a.print false "" ++ "\n", annotated a) behind := by
  have hempty : ∀ c ∈ ("" : String).toList, c = ' ' := nofun
  obtain ⟨s, hs⟩ := AnnotationBlock.afterLayout_outerText hempty a ('\n' :: behind)
  have htext :
      afterLayout ((a.print false "" ++ "\n").toList ++ behind) = ".annotation".toList ++ s := by
    rw [String.toList_append, List.append_assoc]
    exact hs
  have hread := AnnotationBlock.reader_print hempty a ha (afterLayout_afterLayout _)
  rw [AnnotationBlock.outerText] at hs
  rw [hs] at hread
  refine readInPlace_annotated_of_reader htext hread ?_
  rw [afterLayout_afterLayout, afterLayout_cons (by decide)]

/-- A field is read as itself. -/
theorem readInPlace_field {f : Field} {behind : List Char} (hf : f.Legible behind) :
    ReadInPlace (f.print, field f) behind := by
  obtain ⟨u, hread, hu⟩ := Field.reader_print hf
  have htext := (congrArg afterLayout (Field.toList_print f behind)).trans
    (afterLayout_of_stops (stops_cons.mpr (by decide)))
  rw [Field.toList_print] at hread
  refine readInPlace_of_reader htext ?_ hu
  rw [readerFor_field]
  exact Reader.bind_ok hread rfl

/-- A method is read as itself. -/
theorem readInPlace_method {m : Method} {behind : List Char} (hm : m.Legible behind) :
    ReadInPlace (m.print, method m) behind := by
  obtain ⟨u, hread, hu⟩ := Method.reader_print hm
  have htext := (congrArg afterLayout (Method.toList_print m behind)).trans
    (afterLayout_of_stops (stops_cons.mpr (by decide)))
  rw [Method.toList_print] at hread
  refine readInPlace_of_reader htext ?_ hu
  rw [readerFor_method]
  exact Reader.bind_ok hread rfl

end Statement

/-! ### Classes -/

namespace ClassDef

/-- The pieces of a part of a class, under its title. -/
def part (title : String) (ps : List (String × Statement)) : List (String × Statement) :=
  if ps.isEmpty then [] else ("\n# " ++ title ++ "\n", .comment) :: ps

/-- The fields of a class as they are printed. -/
def fieldPart (c : ClassDef) : List (String × Statement) :=
  part "fields" (c.fields.map fun f => (f.print, .field f))

/-- The methods of a class as they are printed. -/
def methodPart (c : ClassDef) : List (String × Statement) :=
  part "methods" (c.methods.map fun m => (m.print, .method m))

/-- The annotations of a class as they are printed. -/
def annotationPart (c : ClassDef) : List (String × Statement) :=
  part "annotations" (c.annotations.map fun a => (a.print false "" ++ "\n", .annotated a))

/-- The interfaces of a class as they are printed. -/
def interfacePart (c : ClassDef) : List (String × Statement) :=
  part "interfaces" (c.interfaces.map fun i =>
    (".implements " ++ i.descriptor ++ "\n", .implemented i))

/-- The lines of a class in front of its parts. -/
def headPart (c : ClassDef) : List (String × Statement) :=
  (".class " ++ Modifier.printList c.modifiers ++ c.name.descriptor ++ "\n",
    .header c.modifiers c.name) ::
  (c.superclass.toList.map (fun s => (".super " ++ s.descriptor ++ "\n", .superclass s)) ++
    c.source.toList.map (fun s => (".source \"" ++ s ++ "\"\n", .source s)))

/-- The pieces of a printed class, each with the statement that it stands for. -/
def pieces (c : ClassDef) : List (String × Statement) :=
  c.headPart ++ (c.interfacePart ++ (c.annotationPart ++ (c.fieldPart ++ c.methodPart)))

/-- The text of pieces. -/
def textOf (ps : List (String × Statement)) : List Char :=
  ps.flatMap fun p => p.1.toList

/-- A part is printed piece by piece. -/
theorem toList_printPart (title : String) (ps : List (String × Statement)) :
    (printPart title (ps.map Prod.fst)).toList = textOf (part title ps) := by
  cases ps with
  | nil => rfl
  | cons p ps => simp [printPart, part, textOf, String.toList_join, List.flatMap_map]

/-- A class is printed piece by piece. -/
theorem toList_print (c : ClassDef) : c.print.toList = textOf c.pieces := by
  have hinterfaces : (printPart "interfaces"
      (c.interfaces.map fun i => ".implements " ++ i.descriptor ++ "\n")).toList =
        textOf c.interfacePart := by
    rw [interfacePart, ← toList_printPart, List.map_map]
    rfl
  have hannotations : (printPart "annotations"
      (c.annotations.map fun a => a.print false "" ++ "\n")).toList = textOf c.annotationPart := by
    rw [annotationPart, ← toList_printPart, List.map_map]
    rfl
  have hfields : (printPart "fields" (c.fields.map Field.print)).toList = textOf c.fieldPart := by
    rw [fieldPart, ← toList_printPart, List.map_map]
    rfl
  have hmethods : (printPart "methods" (c.methods.map Method.print)).toList =
      textOf c.methodPart := by
    rw [methodPart, ← toList_printPart, List.map_map]
    rfl
  have hhead : textOf c.headPart =
      ".class ".toList ++ (Modifier.printList c.modifiers).toList ++ c.name.descriptor.toList ++
        "\n".toList ++
        (c.superclass.toList.flatMap fun s => (".super " ++ s.descriptor ++ "\n").toList) ++
        c.source.toList.flatMap fun s => (".source \"" ++ s ++ "\"\n").toList := by
    simp only [textOf, headPart, List.flatMap_cons, List.flatMap_append, List.flatMap_map,
      String.toList_append, List.append_assoc]
  have hpieces : textOf c.pieces = textOf c.headPart ++ (textOf c.interfacePart ++
      (textOf c.annotationPart ++ (textOf c.fieldPart ++ textOf c.methodPart))) := by
    simp only [textOf, pieces, List.flatMap_append]
  rw [hpieces, hhead, ← hinterfaces, ← hannotations, ← hfields, ← hmethods]
  delta print
  cases c.superclass <;> cases c.source <;>
    simp only [Option.toList_none, Option.toList_some, List.flatMap_nil, List.flatMap_cons,
      List.append_nil, String.toList_append, List.append_assoc, String.toList_empty]

/-! ### The statements of a class -/

/-- The title of a part adds a comment to its statements, and no other statement. -/
theorem filterMap_part {β : Type} {f : Statement → Option β} (hcomment : f .comment = none)
    (title : String) (ps : List (String × Statement)) :
    ((part title ps).map Prod.snd).filterMap f = (ps.map Prod.snd).filterMap f := by
  cases ps with
  | nil => rfl
  | cons p ps => simp [part, hcomment]

/-- The statements of one kind in front of the parts of a class. -/
theorem filterMap_headPart {β : Type} (f : Statement → Option β) (c : ClassDef) :
    (c.headPart.map Prod.snd).filterMap f = (f (.header c.modifiers c.name)).toList ++
      (c.superclass.toList.filterMap (fun s => f (.superclass s)) ++
        c.source.toList.filterMap fun s => f (.source s)) := by
  cases hheader : f (.header c.modifiers c.name) <;>
    simp [headPart, hheader, List.filterMap_map, Function.comp_def]

/-- The statements of one kind among the pieces of a class. -/
theorem filterMap_pieces {β : Type} {f : Statement → Option β} (hcomment : f .comment = none)
    (c : ClassDef) :
    (c.pieces.map Prod.snd).filterMap f =
      (f (.header c.modifiers c.name)).toList ++
        (c.superclass.toList.filterMap (fun s => f (.superclass s)) ++
          c.source.toList.filterMap fun s => f (.source s)) ++
        (c.interfaces.filterMap (fun i => f (.implemented i)) ++
          (c.annotations.filterMap (fun a => f (.annotated a)) ++
            (c.fields.filterMap (fun x => f (.field x)) ++
              c.methods.filterMap fun m => f (.method m)))) := by
  rw [← filterMap_headPart]
  simp only [pieces, List.map_append, List.filterMap_append, interfacePart, annotationPart,
    fieldPart, methodPart, filterMap_part hcomment, List.map_map, List.filterMap_map,
    Function.comp_def]

/-- The statements of a class make it up. -/
theorem ofStatements?_pieces (c : ClassDef) : ofStatements? (c.pieces.map Prod.snd) = some c := by
  have hheader : (c.pieces.map Prod.snd).filterMap Statement.header? = [(c.modifiers, c.name)] := by
    refine (filterMap_pieces rfl c).trans ?_
    simp [Statement.header?]
  have hsuperclass : (c.pieces.map Prod.snd).filterMap Statement.superclass? =
      c.superclass.toList := by
    refine (filterMap_pieces rfl c).trans ?_
    simp [Statement.superclass?]
  have hsource : (c.pieces.map Prod.snd).filterMap Statement.source? = c.source.toList := by
    refine (filterMap_pieces rfl c).trans ?_
    simp [Statement.source?]
  have himplemented : (c.pieces.map Prod.snd).filterMap Statement.implemented? = c.interfaces := by
    refine (filterMap_pieces rfl c).trans ?_
    simp [Statement.implemented?]
  have hannotated : (c.pieces.map Prod.snd).filterMap Statement.annotated? = c.annotations := by
    refine (filterMap_pieces rfl c).trans ?_
    simp [Statement.annotated?]
  have hfield : (c.pieces.map Prod.snd).filterMap Statement.field? = c.fields := by
    refine (filterMap_pieces rfl c).trans ?_
    simp [Statement.field?]
  have hmethod : (c.pieces.map Prod.snd).filterMap Statement.method? = c.methods := by
    refine (filterMap_pieces rfl c).trans ?_
    simp [Statement.method?]
  have hlast {α : Type} (x : Option α) : x.toList.getLast? = x := by cases x <;> rfl
  simp only [ofStatements?, hheader, hsuperclass, hsource, himplemented, hannotated, hfield, hmethod,
    hlast]
  rfl

/-! ### Legible classes are read back -/

/-- Whether a class is read as itself. -/
structure Legible (c : ClassDef) : Prop where
  name_inLine : InLine c.name.path.toList
  superclass_inLine : ∀ s ∈ c.superclass, InLine s.path.toList
  /-- The name of the source file can stand between quotes. -/
  source_body : ∀ s ∈ c.source, StringLiteral.IsBody s.toList
  interfaces_inLine : ∀ i ∈ c.interfaces, InLine i.path.toList
  /-- Each annotation is legible in front of the ones behind it and of the fields and methods. -/
  annotations_legible : EachInPlace (fun a => (a.print false "" ++ "\n").toList)
    (fun a s => a.Legible false "" ('\n' :: s)) (textOf (c.fieldPart ++ c.methodPart)) c.annotations
  /-- Each field is legible in front of the ones behind it and of the methods. -/
  fields_legible : EachInPlace (fun f => f.print.toList) Field.Legible (textOf c.methodPart) c.fields
  /-- Each method is legible in front of the ones behind it. -/
  methods_legible : EachInPlace (fun m => m.print.toList) Method.Legible [] c.methods

/-- The pieces of a part are read in place if the values in it are. -/
theorem eachInPlace_part {α : Type} (title : String) {piece : α → String × Statement}
    {P : α → List Char → Prop} {as : List α} {rest : List Char} (htitle : InLine title.toList)
    (hpiece : ∀ a ∈ as, ∀ s, P a s → Statement.ReadInPlace (piece a) s)
    (has : EachInPlace (fun a => (piece a).1.toList) P rest as) :
    EachInPlace (fun p => p.1.toList) Statement.ReadInPlace rest (part title (as.map piece)) := by
  have hpieces : EachInPlace (fun p => p.1.toList) Statement.ReadInPlace rest (as.map piece) :=
    eachInPlace_map.mpr (has.imp hpiece)
  unfold part
  split
  · trivial
  · exact ⟨Statement.readInPlace_title htitle _, hpieces⟩

/-- The lines in front of the parts are read in place. -/
theorem eachInPlace_headPart {c : ClassDef} (hname : InLine c.name.path.toList)
    (hsuperclass : ∀ s ∈ c.superclass, InLine s.path.toList)
    (hsource : ∀ s ∈ c.source, StringLiteral.IsBody s.toList) (rest : List Char) :
    EachInPlace (fun p => p.1.toList) Statement.ReadInPlace rest c.headPart := by
  refine ⟨Statement.readInPlace_header hname c.modifiers _, ?_⟩
  refine eachInPlace_append.mpr ⟨eachInPlace_map.mpr ?_, eachInPlace_map.mpr ?_⟩
  · exact eachInPlace_of_forall fun s hs t =>
      Statement.readInPlace_superclass (hsuperclass s (by simpa using hs)) t
  · exact eachInPlace_of_forall fun s hs t =>
      Statement.readInPlace_source (hsource s (by simpa using hs)) t

/-- The interfaces are read in place. -/
theorem eachInPlace_interfacePart {c : ClassDef}
    (hinterfaces : ∀ i ∈ c.interfaces, InLine i.path.toList) (rest : List Char) :
    EachInPlace (fun p => p.1.toList) Statement.ReadInPlace rest c.interfacePart :=
  eachInPlace_part "interfaces" (by decide)
    (fun i hi s _ => Statement.readInPlace_implemented (hinterfaces i hi) s)
    (eachInPlace_of_forall (P := fun _ _ => True) fun _ _ _ => trivial)

/-- The pieces of a legible class are read in place. -/
theorem eachInPlace_pieces {c : ClassDef} (h : c.Legible) :
    EachInPlace (fun p => p.1.toList) Statement.ReadInPlace [] c.pieces := by
  have hhead := eachInPlace_headPart h.name_inLine h.superclass_inLine h.source_body
  have hinterfaces := eachInPlace_interfacePart h.interfaces_inLine
  have hannotations := eachInPlace_part "annotations" (by decide)
    (fun a _ s ha => Statement.readInPlace_annotated ha) h.annotations_legible
  have hfields := eachInPlace_part "fields" (by decide)
    (fun f _ s hf => Statement.readInPlace_field hf) h.fields_legible
  have hmethods := eachInPlace_part "methods" (by decide)
    (fun m _ s hm => Statement.readInPlace_method hm) h.methods_legible
  refine eachInPlace_append.mpr ⟨hhead _, eachInPlace_append.mpr ⟨hinterfaces _, ?_⟩⟩
  refine eachInPlace_append.mpr ⟨?_, eachInPlace_append.mpr ⟨?_, hmethods⟩⟩
  · rw [List.append_nil]
    exact hannotations
  · rw [List.append_nil]
    exact hfields

/-- The statements of a text of pieces that are read in place. -/
theorem readAll_textOf {ps : List (String × Statement)}
    (hps : EachInPlace (fun p => p.1.toList) Statement.ReadInPlace [] ps) :
    Statement.readAll (textOf ps) = .ok (ps.map Prod.snd) := by
  have hstep (p : String × Statement) (s : List Char) (hp : Statement.ReadInPlace p s) :
      Reader.endOfText.Fails (afterLayout (p.1.toList ++ s)) ∧
        Statement.spacedReader (afterLayout (p.1.toList ++ s)) = .ok (p.2, afterLayout s) :=
    ⟨hp.endOfText_fails, hp⟩
  have hmany (start : List Char) : Reader.manyTill Reader.endOfText Statement.spacedReader
      Statement.progresses_spacedReader start (afterLayout (textOf ps ++ [])) =
        .ok ((ps.map Prod.snd, ()), []) :=
    Reader.manyTill_eachInPlace Prod.snd hstep hps rfl
  rw [List.append_nil] at hmany
  rw [Statement.readAll, ← afterLayout, hmany]

/-- A legible class is read back. -/
theorem read_print {c : ClassDef} (h : c.Legible) : read c.print = .ok c := by
  rw [read, toList_print, readAll_textOf (eachInPlace_pieces h)]
  simp only [ofStatements?_pieces]

end ClassDef

end GatedCalls
