import GatedCalls.Proofs.Smali.Exact.Field
import GatedCalls.Proofs.Smali.Exact.Method
import GatedCalls.Proofs.Smali.WellFormed

/-!
# The classes that are read back

The converse of `ClassDef.read_print`: where the text of a class is read as the same class, each of
its statements has been read where it stands, and so every part of the class is legible. A statement
begins with a word of its own, so what has been read in the place of an annotation, a field or a
method can only be one of the same kind, and the parts of the class say which one.
-/

namespace GatedCalls

open Text

/-! ### Statements that have been read -/

/-- Whether the names and the literal of a statement have the form that reading gives them. -/
def Statement.IsRead : Statement → Prop
  | header _ name => InLine name.path.toList
  | superclass name => InLine name.path.toList
  | implemented name => InLine name.path.toList
  | source body => StringLiteral.IsBody body.toList
  | _ => True

namespace Statement

variable {s t : List Char}

/-- A statement is read with the layout behind it. -/
theorem spacedReader_eq_ok {st : Statement} (h : spacedReader s = .ok (st, t)) :
    ∃ u, reader s = .ok (st, u) ∧ t = afterLayout u :=
  Reader.spaced_eq_ok h

/-- The name of a class that has been read is in line. -/
theorem nameReader_eq_ok {name : ClassName} (h : nameReader s = .ok (name, t)) :
    InLine name.path.toList := by
  obtain ⟨line, u, hline, h⟩ := Reader.bind_eq_ok.mp h
  obtain ⟨rfl, -⟩ := Reader.pure_eq_ok.mp h
  intro c hc
  have hmem := ClassName.mem_of_mem_ofDescriptor hc
  rw [String.toList_ofList] at hmem
  exact Reader.inLine_of_restOfLine hline c hmem

/-- A statement that has been read is in the form that reading gives it, whatever its kind. -/
theorem isRead_of_mem {beginning : String} {r : Reader Statement} {st : Statement}
    (hr : (beginning, r) ∈ readers) (h : r s = .ok (st, t)) : st.IsRead := by
  simp only [readers, List.mem_cons, Prod.mk.injEq, List.not_mem_nil, or_false] at hr
  rcases hr with
    ⟨_, rfl⟩ | ⟨_, rfl⟩ | ⟨_, rfl⟩ | ⟨_, rfl⟩ | ⟨_, rfl⟩ | ⟨_, rfl⟩ | ⟨_, rfl⟩ | ⟨_, rfl⟩
  -- In the order of `readers`.
  · obtain ⟨_, s₁, -, h⟩ := Reader.bind_eq_ok.mp h
    obtain ⟨_, s₂, -, h⟩ := Reader.bind_eq_ok.mp h
    obtain ⟨rfl, -⟩ := Reader.pure_eq_ok.mp h
    trivial
  · obtain ⟨_, s₁, -, h⟩ := Reader.bind_eq_ok.mp h
    obtain ⟨_, s₂, -, h⟩ := Reader.bind_eq_ok.mp h
    obtain ⟨modifiers, s₃, -, h⟩ := Reader.bind_eq_ok.mp h
    obtain ⟨name, s₄, hname, h⟩ := Reader.bind_eq_ok.mp h
    obtain ⟨rfl, -⟩ := Reader.pure_eq_ok.mp h
    exact nameReader_eq_ok hname
  · obtain ⟨_, s₁, -, h⟩ := Reader.bind_eq_ok.mp h
    obtain ⟨_, s₂, -, h⟩ := Reader.bind_eq_ok.mp h
    obtain ⟨name, s₃, hname, h⟩ := Reader.bind_eq_ok.mp h
    obtain ⟨rfl, -⟩ := Reader.pure_eq_ok.mp h
    exact nameReader_eq_ok hname
  · obtain ⟨_, s₁, -, h⟩ := Reader.bind_eq_ok.mp h
    obtain ⟨body, s₂, hbody, h⟩ := Reader.bind_eq_ok.mp h
    obtain ⟨_, s₃, -, h⟩ := Reader.bind_eq_ok.mp h
    obtain ⟨rfl, -⟩ := Reader.pure_eq_ok.mp h
    rw [IsRead, String.toList_ofList]
    exact (StringLiteral.reader_eq_ok hbody).1
  · obtain ⟨_, s₁, -, h⟩ := Reader.bind_eq_ok.mp h
    obtain ⟨_, s₂, -, h⟩ := Reader.bind_eq_ok.mp h
    obtain ⟨name, s₃, hname, h⟩ := Reader.bind_eq_ok.mp h
    obtain ⟨rfl, -⟩ := Reader.pure_eq_ok.mp h
    exact nameReader_eq_ok hname
  all_goals
    obtain ⟨x, s₁, -, h⟩ := Reader.bind_eq_ok.mp h
    obtain ⟨rfl, -⟩ := Reader.pure_eq_ok.mp h
    trivial

/-- The reader of a statement is one of those for each kind, or none. -/
theorem readerFor_eq (s : List Char) :
    readerFor s = Reader.fail ∨ ∃ beginning, (beginning, readerFor s) ∈ readers := by
  unfold readerFor
  split
  · next h => exact .inr ⟨_, List.mem_of_find?_eq_some h⟩
  · exact .inl rfl

/-- A statement that has been read is in the form that reading gives it. -/
theorem isRead_of_spacedReader {st : Statement} (h : spacedReader s = .ok (st, t)) : st.IsRead := by
  obtain ⟨u, hread, -⟩ := spacedReader_eq_ok h
  obtain hfail | ⟨beginning, hmem⟩ := readerFor_eq s
  · rw [reader, hfail] at hread
    cases hread
  · exact isRead_of_mem hmem hread

/-! ### Statements of each kind where they stand -/

/-- What is read where an annotation stands is an annotation, and it is legible if it is the
same. -/
theorem annotated_of_spacedReader {a : AnnotationBlock} {behind : List Char} {st : Statement}
    (hconstants : a.ConstantsInLine)
    (h : spacedReader (afterLayout ((a.print false "" ++ "\n").toList ++ behind)) = .ok (st, t)) :
    ∃ b, st.annotated? = some b ∧ (b = a → a.Legible false "" ('\n' :: behind)) := by
  have hempty : ∀ c ∈ ("" : String).toList, c = ' ' := nofun
  have htext : (a.print false "" ++ "\n").toList ++ behind = a.outerText "" ++ '\n' :: behind := by
    simp [AnnotationBlock.outerText]
  obtain ⟨w, hw⟩ := AnnotationBlock.afterLayout_outerText hempty a ('\n' :: behind)
  have hplace := afterLayout_afterLayout (a.outerText "" ++ '\n' :: behind)
  obtain ⟨u, hread, -⟩ := spacedReader_eq_ok h
  rw [htext, hw, reader, readerFor_annotated] at hread
  rw [hw] at hplace
  obtain ⟨b, v, hb, hst⟩ := Reader.bind_eq_ok.mp hread
  obtain ⟨rfl, -⟩ := Reader.pure_eq_ok.mp hst
  refine ⟨b, rfl, ?_⟩
  rintro rfl
  exact AnnotationBlock.legible_of_reader hempty b hconstants (hplace.trans hw.symm) hb

/-- What is read where a field stands is a field, and it is legible if it is the same. -/
theorem field_of_spacedReader {f : Field} {behind : List Char} {st : Statement}
    (hconstants : ∀ a ∈ f.annotations, a.ConstantsInLine)
    (h : spacedReader (afterLayout (f.print.toList ++ behind)) = .ok (st, t)) :
    ∃ g, st.field? = some g ∧ (g = f → f.Legible behind) := by
  obtain ⟨w, hw⟩ : ∃ w, f.print.toList ++ behind = ".field".toList ++ w :=
    ⟨_, Field.toList_print f behind⟩
  have hplace : afterLayout (".field".toList ++ w) = ".field".toList ++ w :=
    afterLayout_of_stops (stops_cons.mpr (by decide))
  obtain ⟨u, hread, -⟩ := spacedReader_eq_ok h
  rw [hw, hplace, reader, readerFor_field] at hread
  obtain ⟨g, v, hg, hst⟩ := Reader.bind_eq_ok.mp hread
  obtain ⟨rfl, -⟩ := Reader.pure_eq_ok.mp hst
  refine ⟨g, rfl, ?_⟩
  rintro rfl
  rw [← hw] at hg
  exact Field.legible_of_reader hconstants hg

/-- What is read where a method stands is a method, and it is legible if it is the same. -/
theorem method_of_spacedReader {m : Method} {behind : List Char} {st : Statement}
    (hconstants : ∀ a ∈ m.annotations, a.ConstantsInLine)
    (h : spacedReader (afterLayout (m.print.toList ++ behind)) = .ok (st, t)) :
    ∃ n, st.method? = some n ∧ (n = m → m.Legible behind) := by
  obtain ⟨w, hw⟩ : ∃ w, m.print.toList ++ behind = ".method".toList ++ w :=
    ⟨_, Method.toList_print m behind⟩
  have hplace : afterLayout (".method".toList ++ w) = ".method".toList ++ w :=
    afterLayout_of_stops (stops_cons.mpr (by decide))
  obtain ⟨u, hread, -⟩ := spacedReader_eq_ok h
  rw [hw, hplace, reader, readerFor_method] at hread
  obtain ⟨n, v, hn, hst⟩ := Reader.bind_eq_ok.mp hread
  obtain ⟨rfl, -⟩ := Reader.pure_eq_ok.mp hst
  refine ⟨n, rfl, ?_⟩
  rintro rfl
  rw [← hw] at hn
  exact Method.legible_of_reader hconstants hn

end Statement

/-! ### Classes that are read back -/

namespace ClassDef

/-- Whether statements are what is read from a place down to the end of the text. -/
def ReadsStatements (start u s : List Char) (sts : List Statement) : Prop :=
  Reader.manyTill Reader.endOfText Statement.spacedReader Statement.progresses_spacedReader start s =
    .ok ((sts, ()), u)

section Pieces

variable {sts : List Statement} {rest start u : List Char}

/-- Pieces that are read in place are what is read first. -/
theorem ReadsStatements.pieces {ps : List (String × Statement)}
    (h : ReadsStatements start u (afterLayout (textOf ps ++ rest)) sts)
    (hps : EachInPlace (fun p => p.1.toList) Statement.ReadInPlace rest ps) :
    ∃ sts', sts = ps.map Prod.snd ++ sts' ∧ ReadsStatements start u (afterLayout rest) sts' := by
  induction ps generalizing sts with
  | nil => exact ⟨sts, rfl, h⟩
  | cons p ps ih =>
    obtain ⟨hp, hps⟩ := hps
    rw [textOf, List.flatMap_cons, List.append_assoc] at h
    obtain ⟨sts', rfl, hbehind⟩ := Reader.manyTill_eq_cons hp.endOfText_fails hp h
    obtain ⟨sts'', rfl, hrest⟩ := ih hbehind hps
    exact ⟨sts'', rfl, hrest⟩

variable {α : Type} {piece : α → String × Statement} {select : Statement → Option α}
  {P : α → List Char → Prop} {a : α} {as : List α}

/-- Where a piece stands whose statement is the first one of its kind, it is read back, and it is as
what is read there tells. -/
theorem ReadsStatements.value
    (h : ReadsStatements start u (afterLayout ((piece a).1.toList ++ rest)) sts)
    (hselect : sts.filterMap select = a :: as)
    (hread : ∀ st t, Statement.spacedReader (afterLayout ((piece a).1.toList ++ rest)) = .ok (st, t) →
      ∃ b, select st = some b ∧ (b = a → P a rest))
    (hplace : P a rest → Statement.ReadInPlace (piece a) rest) :
    ∃ sts', sts = (piece a).2 :: sts' ∧ sts'.filterMap select = as ∧ P a rest ∧
      ReadsStatements start u (afterLayout rest) sts' := by
  obtain ⟨rfl, -⟩ | ⟨-, st, v, sts', rfl, hst, hrest⟩ := Reader.manyTill_eq_ok h
  · cases hselect
  · obtain ⟨b, hb, hP⟩ := hread st v hst
    rw [List.filterMap_cons_some hb] at hselect
    obtain ⟨rfl, hselect'⟩ := List.cons.inj hselect
    -- As it is in place, it leaves the reader in front of the text behind it.
    obtain ⟨rfl, rfl⟩ := Reader.ok_unique hst (hplace (hP rfl))
    exact ⟨sts', rfl, hselect', hP rfl, hrest⟩

/-- Values are in place if they are the statements of their kind that are read back. -/
theorem ReadsStatements.values
    (h : ReadsStatements start u (afterLayout (textOf (as.map piece) ++ rest)) sts)
    (hselect : sts.filterMap select = as)
    (hread : ∀ a ∈ as, ∀ s st t,
      Statement.spacedReader (afterLayout ((piece a).1.toList ++ s)) = .ok (st, t) →
        ∃ b, select st = some b ∧ (b = a → P a s))
    (hplace : ∀ a s, P a s → Statement.ReadInPlace (piece a) s) :
    EachInPlace (fun a => (piece a).1.toList) P rest as ∧
      ∃ sts', sts = (as.map piece).map Prod.snd ++ sts' ∧
        ReadsStatements start u (afterLayout rest) sts' := by
  rw [textOf, List.flatMap_map] at h
  induction as generalizing sts with
  | nil => exact ⟨trivial, sts, rfl, h⟩
  | cons a as ih =>
    rw [List.flatMap_cons, List.append_assoc] at h
    obtain ⟨sts', rfl, hselect', ha, hbehind⟩ :=
      h.value hselect (hread a List.mem_cons_self _) (hplace a _)
    obtain ⟨heach, sts'', rfl, hrest⟩ :=
      ih hbehind hselect' (fun b hb => hread b (List.mem_cons_of_mem a hb))
    exact ⟨⟨ha, heach⟩, sts'', rfl, hrest⟩

/-- The values of a part are in place if they are the statements of their kind that are read back:
the title of the part is a comment. -/
theorem ReadsStatements.part {title : String}
    (h : ReadsStatements start u (afterLayout (textOf (part title (as.map piece)) ++ rest)) sts)
    (htitle : InLine title.toList) (hcomment : select .comment = none)
    (hselect : sts.filterMap select = as)
    (hread : ∀ a ∈ as, ∀ s st t,
      Statement.spacedReader (afterLayout ((piece a).1.toList ++ s)) = .ok (st, t) →
        ∃ b, select st = some b ∧ (b = a → P a s))
    (hplace : ∀ a s, P a s → Statement.ReadInPlace (piece a) s) :
    EachInPlace (fun a => (piece a).1.toList) P rest as ∧
      ∃ sts', sts = (ClassDef.part title (as.map piece)).map Prod.snd ++ sts' ∧
        ReadsStatements start u (afterLayout rest) sts' := by
  cases as with
  | nil => exact ⟨trivial, sts, rfl, h⟩
  | cons a as =>
    have hpart : ClassDef.part title ((a :: as).map piece) =
        ("\n# " ++ title ++ "\n", .comment) :: (a :: as).map piece := rfl
    rw [hpart, textOf, List.flatMap_cons, List.append_assoc] at h
    have htitled := Statement.readInPlace_title htitle (textOf ((a :: as).map piece) ++ rest)
    obtain ⟨sts', rfl, hvalues⟩ := Reader.manyTill_eq_cons htitled.endOfText_fails htitled h
    rw [List.filterMap_cons_none hcomment] at hselect
    have hvalues' : ReadsStatements start u
        (afterLayout (textOf ((a :: as).map piece) ++ rest)) sts' := hvalues
    obtain ⟨heach, sts'', rfl, hrest⟩ := hvalues'.values hselect hread hplace
    exact ⟨heach, sts'', rfl, hrest⟩

end Pieces

/-- Whether all constants in the annotations of a class are of enumerations whose names are in
line. -/
structure ConstantsInLine (c : ClassDef) : Prop where
  annotations : ∀ a ∈ c.annotations, a.ConstantsInLine
  fields : ∀ f ∈ c.fields, ∀ a ∈ f.annotations, a.ConstantsInLine
  methods : ∀ m ∈ c.methods, ∀ a ∈ m.annotations, a.ConstantsInLine

/-- The statements of a class that has been read have the form that reading gives them. -/
theorem isRead_of_ofStatements? {c : ClassDef} {sts : List Statement}
    (hsts : ∀ st ∈ sts, st.IsRead) (h : ofStatements? sts = some c) :
    InLine c.name.path.toList ∧ (∀ s ∈ c.superclass, InLine s.path.toList) ∧
      (∀ s ∈ c.source, StringLiteral.IsBody s.toList) ∧
      ∀ i ∈ c.interfaces, InLine i.path.toList := by
  -- What is said last is said.
  have hlast {α : Type} {f : Statement → Option α} {x : α}
      (hx : (sts.filterMap f).getLast? = some x) : ∃ st, st.IsRead ∧ f st = some x := by
    obtain ⟨st, hst, heq⟩ := List.mem_filterMap.mp (List.mem_of_getLast? hx)
    exact ⟨st, hsts st hst, heq⟩
  unfold ofStatements? at h
  split at h
  · cases h
  · next modifiers name hheader =>
    obtain rfl := Option.some.inj h
    refine ⟨?_, fun s hs => ?_, fun s hs => ?_, fun i hi => ?_⟩
    · obtain ⟨st, hread, heq⟩ := hlast hheader
      cases st <;> cases heq
      exact hread
    · obtain ⟨st, hread, heq⟩ := hlast hs
      cases st <;> cases heq
      exact hread
    · obtain ⟨st, hread, heq⟩ := hlast hs
      cases st <;> cases heq
      exact hread
    · obtain ⟨st, hst, heq⟩ := List.mem_filterMap.mp hi
      have hread := hsts st hst
      cases st <;> cases heq
      exact hread

/-- The parts of a class that statements define are the statements of each kind. -/
theorem parts_of_ofStatements? {c : ClassDef} {sts : List Statement}
    (h : ofStatements? sts = some c) :
    sts.filterMap Statement.annotated? = c.annotations ∧
      sts.filterMap Statement.field? = c.fields ∧ sts.filterMap Statement.method? = c.methods := by
  unfold ofStatements? at h
  split at h
  · cases h
  · obtain rfl := Option.some.inj h
    exact ⟨rfl, rfl, rfl⟩

/-- A class that is read is what the statements of its text define. -/
theorem read_eq_ok {text : String} {c : ClassDef} (h : read text = .ok c) :
    ∃ sts start u, ReadsStatements start u (afterLayout text.toList) sts ∧
      ofStatements? sts = some c := by
  simp only [read, Statement.readAll] at h
  split at h
  · cases h
  · next sts hall =>
    split at hall
    · next sts' u hmany =>
      obtain rfl := Except.ok.inj hall
      split at h
      · next c' hsts =>
        obtain rfl := Except.ok.inj h
        exact ⟨_, _, u, hmany, hsts⟩
      · cases h
    · cases hall

/-- The statements of a kind that is told by neither the lines in front of the parts nor the
interfaces stand behind them. -/
theorem filterMap_front {β : Type} {f : Statement → Option β} (hcomment : f .comment = none)
    (hheader : ∀ modifiers name, f (.header modifiers name) = none)
    (hsuperclass : ∀ s, f (.superclass s) = none) (hsource : ∀ s, f (.source s) = none)
    (himplemented : ∀ i, f (.implemented i) = none) (c : ClassDef) (sts : List Statement) :
    (c.headPart.map Prod.snd ++ (c.interfacePart.map Prod.snd ++ sts)).filterMap f =
      sts.filterMap f := by
  have hinterfaces : (c.interfacePart.map Prod.snd).filterMap f = [] := by
    rw [interfacePart, filterMap_part hcomment, List.map_map]
    exact filterMap_map_none himplemented _
  rw [List.filterMap_append, List.filterMap_append, hinterfaces, filterMap_headPart, hheader]
  simp [hsuperclass, hsource]

/-- The statements of another kind stand behind a part. -/
theorem filterMap_behind {α β : Type} {f : Statement → Option β} (hcomment : f .comment = none)
    {piece : α → String × Statement} (hpiece : ∀ a, f (piece a).2 = none) (title : String)
    (as : List α) (sts : List Statement) :
    ((part title (as.map piece)).map Prod.snd ++ sts).filterMap f = sts.filterMap f := by
  have hnone : ((as.map piece).map Prod.snd).filterMap f = [] := by
    rw [List.map_map]
    exact filterMap_map_none hpiece as
  rw [List.filterMap_append, filterMap_part hcomment, hnone, List.nil_append]

/-- A class that is read back is legible. -/
theorem legible_of_read {c : ClassDef} (hconstants : c.ConstantsInLine)
    (h : read c.print = .ok c) : c.Legible := by
  obtain ⟨sts, start, u, hmany, hclass⟩ := read_eq_ok h
  have hsts : ∀ st ∈ sts, st.IsRead := by
    intro st hst
    obtain ⟨s, t, -, hread⟩ := Reader.manyTill_forall Statement.forward_spacedReader hmany st hst
    exact Statement.isRead_of_spacedReader hread
  obtain ⟨hname, hsuperclass, hsource, hinterfaces⟩ := isRead_of_ofStatements? hsts hclass
  obtain ⟨hannotated, hfield, hmethod⟩ := parts_of_ofStatements? hclass
  have htext : c.print.toList = textOf c.headPart ++ (textOf c.interfacePart ++
      (textOf c.annotationPart ++ textOf (c.fieldPart ++ c.methodPart))) := by
    rw [toList_print]
    simp only [textOf, pieces, List.flatMap_append]
  rw [htext] at hmany
  -- The parts are read one after another, each in front of the ones behind it.
  obtain ⟨sts₁, rfl, h₁⟩ := hmany.pieces (eachInPlace_headPart hname hsuperclass hsource _)
  obtain ⟨sts₂, rfl, h₂⟩ := h₁.pieces (eachInPlace_interfacePart hinterfaces _)
  rw [filterMap_front rfl (fun _ _ => rfl) (fun _ => rfl) (fun _ => rfl) fun _ => rfl]
    at hannotated hfield hmethod
  obtain ⟨hannotations, sts₃, rfl, h₃⟩ := h₂.part (by decide) rfl hannotated
    (fun a ha s st t hread => Statement.annotated_of_spacedReader (hconstants.annotations a ha) hread)
    fun a s ha => Statement.readInPlace_annotated ha
  rw [filterMap_behind rfl fun _ => rfl] at hfield hmethod
  have hbehind : textOf (c.fieldPart ++ c.methodPart) = textOf c.fieldPart ++ textOf c.methodPart := by
    simp only [textOf, List.flatMap_append]
  rw [hbehind] at h₃
  obtain ⟨hfields, sts₄, rfl, h₄⟩ := h₃.part (by decide) rfl hfield
    (fun f hf s st t hread => Statement.field_of_spacedReader (hconstants.fields f hf) hread)
    fun f s hf => Statement.readInPlace_field hf
  rw [filterMap_behind rfl fun _ => rfl] at hmethod
  -- Nothing stands behind the methods.
  rw [← List.append_nil (textOf c.methodPart)] at h₄
  obtain ⟨hmethods, -⟩ := h₄.part (by decide) rfl hmethod
    (fun m hm s st t hread => Statement.method_of_spacedReader (hconstants.methods m hm) hread)
    fun m s hm => Statement.readInPlace_method hm
  exact ⟨hname, hsuperclass, hsource, hinterfaces, hannotations, hfields, hmethods⟩

/-- Of the classes whose constants are in line, those that are read back are the legible ones. -/
theorem read_print_iff_legible {c : ClassDef} (hconstants : c.ConstantsInLine) :
    read c.print = .ok c ↔ c.Legible :=
  ⟨legible_of_read hconstants, read_print⟩

/-- The constants of the specimen are in line, and so it is read back because it is legible. -/
theorem read_print_iff_legible_specimen :
    specimen.ConstantsInLine ∧ specimen.Legible ∧ read specimen.print = .ok specimen := by
  have hconstants : specimen.ConstantsInLine := by
    refine ⟨?_, ?_, ?_⟩
    · simp only [specimen, List.mem_singleton, forall_eq]
      have howner : InLine "a/E".toList := by decide
      exact ⟨trivial, howner, ⟨trivial, trivial⟩, trivial⟩
    · simp [specimen]
    · simp [specimen]
  have hlegible := specimen_wellFormed.legible
  exact ⟨hconstants, hlegible, (read_print_iff_legible hconstants).mpr hlegible⟩

/-! ### Annotations in arrays -/

/-- In a class that is read back, an annotation that is an item of an array is the last item: the
comma behind it would be read as a part of its last line. -/
theorem last_item_of_read {c : ClassDef} (hconstants : c.ConstantsInLine)
    (h : read c.print = .ok c) {a : AnnotationBlock} (ha : a ∈ c.annotations) {e : Element}
    (he : e ∈ a.elements) {item : String} {before behind : List String}
    (hvalue : e.value = .array (before ++ item :: behind))
    (hitem : startsWith ".subannotation" item.toList = true) : behind = [] := by
  obtain ⟨s, hlegible⟩ := (legible_of_read hconstants h).annotations_legible.exists_of_mem ha
  obtain ⟨visibility, type, elements⟩ := a
  obtain ⟨-, -, -, helements⟩ := hlegible
  obtain ⟨t, hlegible⟩ := Element.exists_legible_of_mem helements he
  rw [hvalue] at hlegible
  obtain ⟨⟨body, -, hquote⟩, -⟩ | ⟨-, -, hplain, -⟩ | ⟨-, hlast⟩ :=
    ElementValue.itemLegible_of_append hlegible
  · rw [hquote] at hitem
    cases hitem
  · rw [hplain] at hitem
    cases hitem
  · exact hlast

/-- The end of an annotation. -/
def pairEnd : List Char :=
  ".end annotation\n".toList

/-- An array of two annotations, in front of the end of an annotation. -/
def pairValue : List Char :=
  ("\x7b\n        .subannotation Lc;\n        .end subannotation,\n        .subannotation Ld;\n" ++
    "        .end subannotation\n    \x7d\n").toList ++ pairEnd

/-- The element with that array. -/
def pairElement : List Char :=
  "    value = ".toList ++ pairValue

/-- The annotation with that element. -/
def pairText : List Char :=
  ".annotation".toList ++ (" system Lb;\n".toList ++ pairElement)

/-- The text of a class with that annotation. -/
def pairSource : String :=
  ".class public La;\n" ++ String.ofList pairText

/-- The items of the array as they are read: the comma stays on the last line of the first
annotation, and behind the line feed the second one is read as plain text, line by line. -/
def pairItems : List String :=
  [".subannotation Lc;\n.end subannotation,", ".subannotation Ld;", ".end subannotation"]

/-- The annotation that is read. -/
def pairBlock : AnnotationBlock :=
  ⟨.system, .object ⟨"b"⟩, [⟨"value", .array pairItems⟩]⟩

/-- The class that is read. -/
def pair : ClassDef :=
  ⟨⟨"a"⟩, [.public], none, none, [], [pairBlock], [], []⟩

/-- The annotation is read off its text. -/
theorem reader_pairText : AnnotationBlock.reader false pairText = .ok (pairBlock, []) := by
  -- The value is an array and no annotation of its own.
  have hnested : (AnnotationBlock.reader true).Fails pairValue :=
    AnnotationBlock.reader_fails (Reader.Fails.bind (Reader.Fails.inLayout
      (Reader.literal_fails (by decide +kernel))))
  have hvalue : AnnotationBlock.valueReader pairValue = .ok (.array pairItems, pairEnd) := by
    rw [AnnotationBlock.valueReader_of_fails hnested]
    decide +kernel
  have hopen : (AnnotationBlock.closingReader false).Fails pairElement :=
    Reader.Fails.inLayout (Reader.literal_fails (by decide +kernel))
  have hname : Element.nameReader pairElement = .ok ("value", pairValue) := by decide +kernel
  have hend : AnnotationBlock.elementsReader false pairEnd = .ok ([], []) :=
    AnnotationBlock.elementsReader_nil (by decide +kernel)
  have hheader : AnnotationBlock.headerReader false pairText =
      .ok ((.system, .object ⟨"b"⟩), pairElement) := by
    decide +kernel
  have helements := AnnotationBlock.elementsReader_cons hopen hname hvalue hend
  exact AnnotationBlock.reader_of_ok hheader helements

/-- The class is read off the line that names it and the text of the annotation. -/
theorem read_pairSource : read pairSource = .ok pair := by
  have hheader : Statement.ReadInPlace (".class public La;\n", .header [.public] ⟨"a"⟩) pairText := by
    have htext : ".class " ++ Modifier.printList [.public] ++ ClassName.descriptor ⟨"a"⟩ ++ "\n" =
        ".class public La;\n" := by
      decide +kernel
    rw [← htext]
    exact Statement.readInPlace_header (by decide) [.public] _
  have hannotated : Statement.ReadInPlace (String.ofList pairText, .annotated pairBlock) [] := by
    refine Statement.readInPlace_annotated_of_reader ?_ reader_pairText rfl
    rw [List.append_nil, String.toList_ofList]
    exact afterLayout_of_stops (stops_cons.mpr (by decide))
  have hpieces : EachInPlace (fun p => p.1.toList) Statement.ReadInPlace []
      [(".class public La;\n", .header [.public] ⟨"a"⟩),
        (String.ofList pairText, .annotated pairBlock)] := by
    refine ⟨?_, hannotated, trivial⟩
    rw [List.flatMap_singleton, List.append_nil, String.toList_ofList]
    exact hheader
  have htext : pairSource.toList =
      textOf [(".class public La;\n", .header [.public] ⟨"a"⟩),
        (String.ofList pairText, .annotated pairBlock)] := by
    unfold pairSource
    rw [String.toList_append, textOf, List.flatMap_cons, List.flatMap_cons, List.flatMap_nil,
      List.append_nil]
  rw [read, htext, readAll_textOf hpieces]
  rfl

/-- The class is read, but not read back. -/
theorem read_print_pair_ne : read pairSource = .ok pair ∧ read pair.print ≠ .ok pair := by
  refine ⟨read_pairSource, fun h => ?_⟩
  have hconstants : pair.ConstantsInLine := by
    refine ⟨fun a ha => ?_, nofun, nofun⟩
    obtain rfl := List.mem_singleton.mp ha
    exact ⟨trivial, trivial⟩
  have ha : pairBlock ∈ pair.annotations := List.mem_singleton.mpr rfl
  have he : ⟨"value", .array pairItems⟩ ∈ pairBlock.elements := List.mem_singleton.mpr rfl
  have hvalue : ElementValue.array pairItems = .array ([] ++ ".subannotation Lc;\n.end subannotation,"
      :: [".subannotation Ld;", ".end subannotation"]) := rfl
  have hitem : startsWith ".subannotation" ".subannotation Lc;\n.end subannotation,".toList = true := by
    decide +kernel
  exact absurd (last_item_of_read hconstants h ha he hvalue hitem) (List.cons_ne_nil _ _)

end ClassDef

end GatedCalls
