import GatedCalls.Proofs.Smali.ParamGroup

/-!
# Who owns an annotation

Annotations below a parameter or a field belong to it if they are closed off, and else to the method
or the class that the line stands in, in order. For fields this holds of all annotations that are
read off their text; parameters that own an annotation with a carriage return in it are the
exception.
-/

namespace GatedCalls

open Text

/-! ### Fields -/

/-- A line with a field and the annotations below it, which a line with the words `.end field` may
close off. -/
structure FieldGroup extends BlockGroup where
  front : List Char
  line : List Char
  /-- What the line is read as, whatever stands below it. -/
  field : Field
  front_isGap : IsGap front
  /-- The whole line is read as the field, and nothing behind it. -/
  lineReader_eq : ∀ behind, Field.lineReader (line ++ behind) = .ok (field, behind)

namespace FieldGroup

/-- Every printed line of a well-formed field is read whatever stands below it. -/
def ofWellFormed (g : BlockGroup) (f : Field) (hf : f.WellFormed) : FieldGroup where
  toBlockGroup := g
  front := []
  line := ".field".toList ++ ' ' :: ((Modifier.printList f.modifiers).toList ++ (f.name.toList ++
    ':' :: (f.type.descriptor.toList ++ (Field.initialText f.initial ++ ['\n']))))
  field := { f with annotations := [] }
  front_isGap := isGap_nil
  lineReader_eq behind := by
    have hempty : startsWith ".annotation" (afterLayout []) = false := rfl
    have hread := Field.lineReader_append (hf.legible hempty) behind
    simpa only [List.append_assoc, List.cons_append, List.nil_append] using hread

/-- The group as it stands. -/
def text (g : FieldGroup) : List Char :=
  g.front ++ (g.line ++ g.belowText ".end field")

/-- The field with the annotations that it owns. -/
def item (g : FieldGroup) : Field :=
  { g.field with annotations := g.owned }

/-- The statements that a group is read as. -/
def statements (g : FieldGroup) : List Statement :=
  .field g.item :: g.left.map .annotated

variable {behind : List Char}

/-- The line of a field begins with the word for it. -/
theorem exists_line (g : FieldGroup) : ∃ s, g.line = ".field".toList ++ s := by
  obtain ⟨_, s, hword, -⟩ := Reader.bind_eq_ok.mp (g.lineReader_eq [])
  rw [List.append_nil] at hword
  exact ⟨s, Reader.literal_eq_ok hword⟩

/-- The group and the text behind it, with the indentation passed over. -/
theorem afterLayout_text (g : FieldGroup) (behind : List Char) :
    afterLayout (g.text ++ behind) = g.line ++ (g.belowText ".end field" ++ behind) := by
  obtain ⟨s, hs⟩ := g.exists_line
  rw [text, List.append_assoc, List.append_assoc, afterLayout_append g.front_isGap.isLayout, hs,
    List.append_assoc]
  exact Statement.afterLayout_word rfl (by decide) _

/-- A field that is read with what stands below its line is a statement. -/
theorem yields_field (g : FieldGroup) (below : List Char) {x : Option (List AnnotationBlock)}
    {rest u : List Char}
    (hannotations : Reader.optional (AnnotationBlock.closedReader ".end field") (below ++ rest) =
      .ok (x, u)) (hu : afterLayout u = afterLayout rest) :
    Statement.Yields (g.front ++ (g.line ++ below)) [.field { g.field with annotations := x.getD [] }]
      rest := by
  obtain ⟨s, hs⟩ := g.exists_line
  have hplace : afterLayout (g.front ++ (g.line ++ below) ++ rest) =
      ".field".toList ++ (s ++ (below ++ rest)) := by
    rw [List.append_assoc, List.append_assoc, afterLayout_append g.front_isGap.isLayout, hs,
      List.append_assoc]
    exact Statement.afterLayout_word rfl (by decide) _
  have hread := Field.reader_of_lineReader (g.lineReader_eq (below ++ rest)) hannotations
  rw [hs, List.append_assoc] at hread
  have hstatement : Statement.reader (".field".toList ++ (s ++ (below ++ rest))) =
      .ok (.field { g.field with annotations := x.getD [] }, u) := by
    rw [Statement.reader, Statement.readerFor_field]
    exact Reader.bind_ok hread rfl
  refine Reader.yields_one ?_ ?_
  · rw [hplace]
    exact Statement.endOfText_fails (by simp)
  · rw [hplace]
    refine Reader.bind_ok hstatement ?_
    rw [Reader.bind_of_ok (Reader.layout_apply _), hu]
    rfl

/-- A group is the field with the annotations that it owns, and the annotations that it leaves. -/
theorem yields (g : FieldGroup) (h : IsOutside ".end field" behind) :
    Statement.Yields g.text g.statements behind := by
  cases hg : g.closing with
  | some l =>
    have hclosed : AnnotationBlock.closedReader ".end field" (g.belowText ".end field" ++ behind) =
        .ok (g.owned, afterLayout behind) :=
      g.closedReader_belowText hg (by decide) (stops_cons.mpr (by decide)) (fun _ => rfl) behind
    have hstatements : g.statements = [.field { g.field with annotations := g.owned }] := by
      rw [statements, item, BlockGroup.left, hg]
      rfl
    rw [hstatements]
    exact g.yields_field _ (Reader.optional_of_ok hclosed) (afterLayout_afterLayout behind)
  | none =>
    have howned : g.owned = [] := by rw [BlockGroup.owned, hg]
    have hopen := g.closedReader_belowText_fails hg h
    have hfield : Statement.Yields (g.front ++ (g.line ++ [])) [.field g.item]
        (g.belowText ".end field" ++ behind) := by
      rw [item, howned]
      exact g.yields_field [] (Reader.optional_of_fails hopen) rfl
    have hyields := hfield.append (g.yields_statements hg behind)
    rwa [List.append_nil, List.append_assoc] at hyields

/-- Behind a group neither an annotation nor the words that close one off stand. -/
theorem isOutside_flatMap (gs : List FieldGroup) (h : IsOutside ".end field" behind) :
    IsOutside ".end field" (gs.flatMap text ++ behind) := by
  cases gs with
  | nil => exact h
  | cons g gs =>
    obtain ⟨s, hs⟩ := g.exists_line
    rw [IsOutside, List.flatMap_cons, List.append_assoc, afterLayout_text, hs]
    exact ⟨rfl, rfl⟩

/-- Groups yield what each of them does. -/
theorem yields_flatMap (gs : List FieldGroup) (h : IsOutside ".end field" behind) :
    Statement.Yields (gs.flatMap text) (gs.flatMap statements) behind := by
  induction gs with
  | nil => exact Reader.yields_layout nofun
  | cons g gs ih => exact (g.yields (isOutside_flatMap gs h)).append ih

/-- Groups are parts of a class. -/
theorem isMember_statements (gs : List FieldGroup) :
    ∀ st ∈ gs.flatMap statements, st.IsMember := by
  intro st hst
  obtain ⟨g, -, hst⟩ := List.mem_flatMap.mp hst
  obtain rfl | hst := List.mem_cons.mp hst
  · trivial
  · obtain ⟨a, -, rfl⟩ := List.mem_map.mp hst
    trivial

/-- Groups add their fields and the annotations that these leave to a class. -/
theorem withFurther_statements (c : ClassDef) (gs : List FieldGroup) :
    c.withFurther (gs.flatMap statements) =
      { c with annotations := c.annotations ++ gs.flatMap fun g => g.left,
               fields := c.fields ++ gs.map item } := by
  have hannotated (g : FieldGroup) : g.statements.filterMap Statement.annotated? = g.left :=
    filterMap_map_some (f := Statement.annotated) (g := Statement.annotated?) (fun _ => rfl) g.left
  have hfields (g : FieldGroup) : g.statements.filterMap Statement.field? = [g.item] :=
    congrArg (g.item :: ·) (filterMap_map_none (fun _ => rfl) g.left)
  have hmethods : (gs.flatMap statements).filterMap Statement.method? = [] := by
    rw [List.filterMap_flatMap, List.flatMap_eq_nil_iff]
    exact fun g _ => filterMap_map_none (fun _ => rfl) g.left
  rw [ClassDef.withFurther, hmethods]
  simp [List.filterMap_flatMap, hannotated, hfields, ← List.map_eq_flatMap]

end FieldGroup

namespace ClassDef

variable {c : ClassDef} {m : Method}

/-- A document with groups behind the parts of its class is read with what these are. -/
theorem read_fieldGroups (hc : c.WellFormed) (gs : List FieldGroup) :
    read (c.print ++ String.ofList (gs.flatMap FieldGroup.text)) =
      .ok { c with annotations := c.annotations ++ gs.flatMap fun g => g.left,
                   fields := c.fields ++ gs.map FieldGroup.item } := by
  have hend : IsOutside ".end field" [] := ⟨rfl, rfl⟩
  have hstart := (FieldGroup.isOutside_flatMap gs hend).1
  rw [List.append_nil] at hstart
  rw [read_append hc hstart (FieldGroup.yields_flatMap gs hend) (FieldGroup.isMember_statements gs),
    FieldGroup.withFurther_statements]

/-- Annotations go to their owners. Of a method with parameters and annotations below them, each
parameter whose annotations are closed off is one directive with all its lines, each other one a
directive of its line, and the annotations left by these are those of the method, in order; the
document is refused exactly if a parameter owns an annotation with a carriage return inside a line.
Likewise fields have the annotations that are closed off below them, and the class has the others,
in order. -/
theorem read_annotationOwners (hc : c.WellFormed) (hm : m.WellFormed) :
    (∀ gs : List ParamGroup, (∀ g ∈ gs, g.IsReadable) →
      read (c.textWith m (gs.flatMap ParamGroup.text)) =
        .ok { c with methods := c.methods ++
          [{ m with annotations := m.annotations ++ gs.flatMap fun g => g.left,
                    body := m.body ++ gs.map ParamGroup.item }] }) ∧
    (∀ gs : List ParamGroup, (¬∀ g ∈ gs, g.IsReadable) →
      ∃ f, read (c.textWith m (gs.flatMap ParamGroup.text)) = .error f) ∧
    ∀ gs : List FieldGroup,
      read (c.print ++ String.ofList (gs.flatMap FieldGroup.text)) =
        .ok { c with annotations := c.annotations ++ gs.flatMap fun g => g.left,
                     fields := c.fields ++ gs.map FieldGroup.item } :=
  ⟨fun _ => read_paramGroups hc hm, fun _ => read_paramGroups_fails hc hm, read_fieldGroups hc⟩

/-- A marker with a string in it. -/
def marker (value : String) : AnnotationBlock :=
  ⟨.build, .object ⟨"b"⟩, [⟨"value", .array [value]⟩]⟩

/-- A marker with a literal on one line in it is well-formed. -/
theorem wellFormed_marker {value : String} (h : ElementValue.IsLiteral value.toList)
    (hline : '\n' ∉ value.toList) : (marker value).WellFormed false := by
  refine ⟨by simp, ⟨by decide, by simp; decide⟩, by decide, ⟨by decide, List.all_eq_true.mp (by decide),
    ?_⟩, trivial⟩
  simp only [ElementValue.WellFormed, List.mem_singleton, forall_eq]
  exact .inl ⟨h, hline⟩

/-- A marker printed with four spaces in front. -/
def printedMarker : PrintedBlock :=
  .ofWellFormed "    " (marker "\"xy\"") (by simp)
    (wellFormed_marker ⟨['x', 'y'], by decide, rfl⟩ (by decide))

/-- The marker below a line, closed off. -/
def closedMarker : BlockGroup :=
  ⟨[printedMarker], some .plain, by simp⟩

/-- The marker below a line, not closed off. -/
def openMarker : BlockGroup :=
  ⟨[printedMarker], none, by simp⟩

/-- The lines of the printed marker are no ends of parameters, and no carriage return stands in
them. -/
theorem lines_printedMarker : ∀ l ∈ lines printedMarker.text,
    startsWith ".end param" (trim l) = false ∧ '\r' ∉ l := by
  decide +kernel

/-- Two parameters, the first of which owns the marker below it. -/
def sampleParams : List ParamGroup :=
  [⟨closedMarker, .plain, ".param p0".toList, by decide, rfl, by
      simpa [closedMarker] using fun l hl => (lines_printedMarker l hl).1⟩,
    ⟨openMarker, .plain, ".param p1".toList, by decide, rfl, by
      simpa [openMarker] using fun l hl => (lines_printedMarker l hl).1⟩]

/-- A field. -/
def sampleField : Field :=
  ⟨"f", [.static], .primitive .int, some "1", []⟩

/-- The field is well-formed. -/
theorem wellFormed_sampleField : sampleField.WellFormed :=
  ⟨by decide, by simp [sampleField]; decide, trivial, by simp [sampleField, JavaType.descriptor]; decide,
    by simp [sampleField]; decide, by simp [sampleField]⟩

/-- Two fields, the first of which owns the marker below it. -/
def sampleFields : List FieldGroup :=
  [.ofWellFormed closedMarker sampleField wellFormed_sampleField,
    .ofWellFormed openMarker sampleField wellFormed_sampleField]

/-- Of the markers below two parameters, the second one is an annotation of the method, and so it is
of the class below two fields. -/
theorem read_annotationOwners_sample :
    specimen.WellFormed ∧ plainMethod.WellFormed ∧ (∀ g ∈ sampleParams, g.IsReadable) ∧
      read (specimen.textWith plainMethod (sampleParams.flatMap ParamGroup.text)) =
        .ok { specimen with methods := specimen.methods ++ [{ plainMethod with
          annotations := [marker "\"xy\""]
          body := [.directive (".param p0\n.annotation build Lb;\nvalue = \x7b\n\"xy\"\n\x7d\n" ++
            ".end annotation\n.end param"), .directive ".param p1"] }] } ∧
      read (specimen.print ++ String.ofList (sampleFields.flatMap FieldGroup.text)) =
        .ok { specimen with
          annotations := specimen.annotations ++ [marker "\"xy\""]
          fields := specimen.fields ++
            [{ sampleField with annotations := [marker "\"xy\""] }, sampleField] } := by
  obtain ⟨hparams, -, hfields⟩ := read_annotationOwners specimen_wellFormed plainMethod_wellFormed
  have hreadable : ∀ g ∈ sampleParams, g.IsReadable := by
    simp only [sampleParams, List.mem_cons, List.not_mem_nil, or_false, forall_eq_or_imp, forall_eq]
    constructor <;> intro _ b hb l hl <;> obtain rfl := List.mem_singleton.mp hb <;>
      exact (lines_printedMarker l hl).2
  have hitems : sampleParams.map ParamGroup.item =
      [.directive (".param p0\n.annotation build Lb;\nvalue = \x7b\n\"xy\"\n\x7d\n" ++
        ".end annotation\n.end param"), .directive ".param p1"] := by
    decide +kernel
  refine ⟨specimen_wellFormed, plainMethod_wellFormed, hreadable, ?_, hfields sampleFields⟩
  rw [hparams sampleParams hreadable, hitems]
  rfl

/-- A marker with a carriage return in its string, printed with four spaces in front. -/
def printedBroken : PrintedBlock :=
  .ofWellFormed "    " (marker "\"x\ry\"") (by simp)
    (wellFormed_marker ⟨['x', '\r', 'y'], by decide, rfl⟩ (by decide))

/-- A parameter that owns this marker. -/
def brokenParam : ParamGroup :=
  ⟨⟨[printedBroken], some .plain, by simp⟩, .plain, ".param p0".toList, by decide, rfl, by
    have hlines : ∀ l ∈ lines printedBroken.text, startsWith ".end param" (trim l) = false := by
      decide +kernel
    simpa using hlines⟩

/-- A document with this parameter. -/
def brokenSource : String :=
  ".class public La;\n.method public run()V\n    .locals 2\n    .param p0\n" ++
    "    .annotation build Lb;\n        value = \x7b\n            \"x\ry\"\n        \x7d\n" ++
    "    .end annotation\n    .end param\n.end method\n\n"

/-- The document is not read, although the marker is read off its text and is closed off. -/
theorem read_brokenSource :
    brokenSource = bareClass.textWith plainMethod brokenParam.text ∧
      ∃ f, read brokenSource = .error f := by
  have htext : brokenSource = bareClass.textWith plainMethod brokenParam.text := by decide +kernel
  have hbroken : ¬∀ g ∈ [brokenParam], g.IsReadable := by
    intro h
    have hline : ∃ l ∈ lines printedBroken.text, '\r' ∈ l := by decide +kernel
    obtain ⟨l, hl, hreturn⟩ := hline
    exact h brokenParam (by simp) (by simp [brokenParam]) printedBroken (by simp [brokenParam]) l hl
      hreturn
  have hfails := read_paramGroups_fails bareClass_wellFormed plainMethod_wellFormed hbroken
  rw [List.flatMap_singleton, ← htext] at hfails
  exact ⟨htext, hfails⟩

end ClassDef

end GatedCalls
