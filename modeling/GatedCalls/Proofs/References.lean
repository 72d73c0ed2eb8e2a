import GatedCalls.Proofs.Descriptor.Reading
import GatedCalls.Proofs.Permission.Table
import GatedCalls.Proofs.Resolution.Plain
import GatedCalls.Proofs.Smali.Exact.Class
import GatedCalls.Proofs.Smali.UnreadTail

/-!
# Which references name a method of a type

The owner of a reference is cut out of its text at the first arrow and the name at the next
parenthesis; neither is looked at. So a reference that is read need not name a method of a type: it
does exactly if its text begins with the descriptor of a type, an arrow and a name
(`IsSpelled.isSound_iff`). The same holds of the methods in a permission table, which are read off
its lines, and of the callees in a class, which are read off its text.
-/

namespace GatedCalls

open Text

namespace MethodRef

/-- Whether a reference names a method of a type: its owner is the descriptor of a type, and its
name is not empty. -/
structure IsSound (m : MethodRef) : Prop where
  owner : ∃ t, JavaType.readDescriptor m.owner = .ok t
  name : m.name ≠ ""

/-- Whether a text begins like a reference that names a method of a type: the descriptor of a type
stands in front of the first arrow, and something that is not blank between that and the next
parenthesis. -/
def BeginsSoundly (s : List Char) : Prop :=
  ∃ owner name rest, s = owner ++ ("->".toList ++ (name ++ '(' :: rest)) ∧
    ¬['-', '>'] <:+: owner ∧ '(' ∉ name ∧
      (∃ t, JavaType.readDescriptor (String.ofList owner) = .ok t) ∧ trim name ≠ []

/-- The first arrow of a text and the next parenthesis tell its parts. -/
theorem parts_unique {owner owner' name name' rest rest' : List Char}
    (howner : ¬['-', '>'] <:+: owner) (howner' : ¬['-', '>'] <:+: owner')
    (hname : '(' ∉ name) (hname' : '(' ∉ name')
    (h : owner ++ ("->".toList ++ (name ++ '(' :: rest)) =
      owner' ++ ("->".toList ++ (name' ++ '(' :: rest'))) : owner = owner' ∧ name = name' := by
  have harrow := before_arrow howner (name ++ '(' :: rest)
  rw [h, before_arrow howner'] at harrow
  obtain ⟨rfl, hbehind⟩ := Prod.mk.inj (Except.ok.inj harrow)
  have hparen := before_paren hname rest
  rw [← List.append_cancel_left hbehind, before_paren hname'] at hparen
  exact ⟨rfl, (Prod.mk.inj (Except.ok.inj hparen)).1.symm⟩

/-- Blanks around the descriptor of a type do not count. -/
theorem readDescriptor_ofList {owner : List Char} {text : String} (h : text.toList = trim owner)
    (t : JavaType) :
    JavaType.readDescriptor (String.ofList owner) = .ok t ↔ JavaType.readDescriptor text = .ok t := by
  rw [JavaType.readDescriptor_eq_ok, JavaType.readDescriptor_eq_ok, String.toList_ofList, h,
    isTrimmed_trim owner]

/-- A reference names a method of a type exactly if its spellings begin like that, whatever follows
them. -/
theorem IsSpelled.isSound_iff {m : MethodRef} {x : List Char} (h : m.IsSpelled x) (rest : List Char) :
    m.IsSound ↔ BeginsSoundly (x ++ rest) := by
  obtain ⟨-, owner, name, harrow, hparen, howner, hname, rfl⟩ := h
  obtain ⟨proto, hproto⟩ : ∃ proto, m.proto.descriptor.toList = '(' :: proto :=
    ⟨_, Prototype.toList_descriptor m.proto⟩
  have htext : owner ++ ("->".toList ++ (name ++ m.proto.descriptor.toList)) ++ rest =
      owner ++ ("->".toList ++ (name ++ '(' :: (proto ++ rest))) := by
    simp [hproto]
  have hblank : m.name ≠ "" ↔ trim name ≠ [] := by
    rw [← hname, ne_eq, ne_eq, String.toList_eq_nil_iff]
  rw [htext]
  constructor
  · rintro ⟨⟨t, ht⟩, hne⟩
    exact ⟨owner, name, proto ++ rest, rfl, harrow, hparen,
      ⟨t, (readDescriptor_ofList howner t).mpr ht⟩, hblank.mp hne⟩
  · rintro ⟨owner', name', rest', heq, harrow', hparen', ⟨t, ht⟩, hne⟩
    obtain ⟨rfl, rfl⟩ := parts_unique harrow harrow' hparen hparen' heq
    exact ⟨⟨t, (readDescriptor_ofList howner t).mp ht⟩, hblank.mpr hne⟩

/-- A text is read as a reference exactly if, but for blanks around it, it is a spelling of it. -/
theorem read_eq_ok {text : String} {m : MethodRef} :
    read text = .ok m ↔ m.IsSpelled (trim text.toList) := by
  have hwhole : ofText? text = some m ↔ m.IsSpelled (trim text.toList) := by
    rw [ofText?, Reader.whole?_eq_some, reader_eq_ok_iff]
    simp
  rw [← hwhole, read]
  cases ofText? text <;> simp

end MethodRef

/-! ### Permission tables -/

namespace PermissionTable

/-- The lines of a table that is read say nothing or one thing, and the table unites them. -/
theorem unites_of_ofText {text : String} {t : PermissionTable} (h : ofText text = .ok t) :
    t.Unites (lines text.toList) ∧ ∀ l ∈ lines text.toList, IsLine l := by
  have hread : ofText text = empty.addLines (lines text.toList) 1 := rfl
  rw [hread] at h
  obtain ⟨t', hok, hunites, hall⟩ | ⟨front, bad, behind, -, -, -, herror⟩ :=
    unites_empty.addLines (lines text.toList) 1
  · obtain rfl := Except.ok.inj (hok.symm.trans h)
    exact ⟨hunites, hall⟩
  · rw [herror] at h
    cases h

/-- The methods in a table are those of the entries that it unites. -/
theorem Unites.contains_iff {t : PermissionTable} {ls : List (List Char)} (h : t.Unites ls)
    (m : MethodRef) : t.contains m = true ↔ ∃ l ∈ ls, ∃ ps, IsEntry m ps (content l) := by
  have hcontains : t.contains m = true ↔ t.get? m ≠ none := by
    rw [contains, get?, Std.ExtTreeMap.contains_eq_isSome_getElem?, Option.isSome_iff_ne_none]
  rw [hcontains, ne_eq, h.get?_eq_none]
  simp only [not_forall, Classical.not_not, exists_prop]

/-- The methods of a table name methods of types exactly if its lines begin like that, unless they
say nothing. -/
theorem Unites.isSound_iff {t : PermissionTable} {ls : List (List Char)} (h : t.Unites ls)
    (hls : ∀ l ∈ ls, IsLine l) :
    (∀ m, t.contains m = true → m.IsSound) ↔
      ∀ l ∈ ls, content l ≠ [] → MethodRef.BeginsSoundly (content l) := by
  have hentry {m : MethodRef} {ps : List String} {x : List Char} (hx : IsEntry m ps x) :
      m.IsSound ↔ MethodRef.BeginsSoundly x := by
    obtain ⟨ref, gap, list, href, -, -, -, rfl⟩ := hx
    exact href.isSound_iff (gap ++ list)
  constructor
  · intro hsound l hl hne
    obtain ⟨m, ps, hm⟩ := (hls l hl).resolve_left hne
    exact (hentry hm).mp (hsound m ((h.contains_iff m).mpr ⟨l, hl, ps, hm⟩))
  · intro hbegins m hm
    obtain ⟨l, hl, ps, hm⟩ := (h.contains_iff m).mp hm
    exact (hentry hm).mpr (hbegins l hl hm.ne_nil)

end PermissionTable

/-! ### Classes -/

/-- The callee of a call stands in the text off which the call is read. -/
theorem Entry.exists_callee_of_reader {s u : List Char} {call : Call}
    (h : reader s = .ok (item (.instruction (.call call)), u)) :
    ∃ x, x <:+: s ∧ call.callee.IsSpelled x := by
  obtain ⟨line, y, tail, hline, htrim, hy⟩ := reader_eq_ok_call.mp h
  obtain ⟨gap, operands, comma, callee, -, -, -, -, hcallee, -, rfl⟩ := hy
  have hinLine : line <:+: s := by
    rw [Reader.eq_takeWhile_of_restOfLine (Reader.restOfLine_of_line hline)]
    exact (List.takeWhile_prefix _).isInfix
  refine ⟨callee, List.IsInfix.trans ?_ ((trim_isInfix line).trans hinLine), hcallee⟩
  rw [htrim]
  exact ⟨(Call.mnemonic call.dispatch call.operands.isRange).toList ++ (gap ++ (operands ++ comma)),
    tail, by simp⟩

/-- The callees in the body of a method stand in the text off which the method is read. -/
theorem Method.exists_callee_of_reader {s u : List Char} {m : Method} (h : reader s = .ok (m, u))
    {call : Call} (hcall : .instruction (.call call) ∈ m.body) :
    ∃ x, x <:+: s ∧ call.callee.IsSpelled x := by
  obtain ⟨header, es, t, v, hheader, hentries, rfl⟩ := reader_eq_ok h
  obtain ⟨e, he, hitem⟩ := List.mem_filterMap.mp hcall
  obtain ⟨w, w', hw, hspaced⟩ := Reader.manyTill_forall Entry.forward_spacedReader hentries e he
  obtain ⟨w'', hread, -⟩ := Reader.spaced_eq_ok hspaced
  obtain rfl : e = .item (.instruction (.call call)) := by
    cases e <;> cases hitem
    rfl
  obtain ⟨x, hx, hcallee⟩ := Entry.exists_callee_of_reader hread
  have hbehind : afterLayout t <:+ s :=
    (List.dropWhile_suffix _).trans (forward_headerReader.ok hheader)
  exact ⟨x, hx.trans (hw.trans hbehind).isInfix, hcallee⟩

/-- Only the reader of methods takes a method as a statement. -/
theorem Statement.method_of_mem {beginning : String} {r : Reader Statement} {s u : List Char}
    {m : Method} (hr : (beginning, r) ∈ readers) (h : r s = .ok (.method m, u)) :
    Method.reader s = .ok (m, u) := by
  simp only [readers, List.mem_cons, Prod.mk.injEq, List.not_mem_nil, or_false] at hr
  rcases hr with
    ⟨_, rfl⟩ | ⟨_, rfl⟩ | ⟨_, rfl⟩ | ⟨_, rfl⟩ | ⟨_, rfl⟩ | ⟨_, rfl⟩ | ⟨_, rfl⟩ | ⟨_, rfl⟩
  case inr.inr.inr.inr.inr.inr.inr =>
    obtain ⟨m', v, hread, h⟩ := Reader.bind_eq_ok.mp h
    obtain ⟨heq, rfl⟩ := Reader.pure_eq_ok.mp h
    rwa [← Statement.method.inj heq]
  -- Each of the others takes a statement of its own kind.
  all_goals
    repeat obtain ⟨_, _, -, h⟩ := Reader.bind_eq_ok.mp h
    cases (Reader.pure_eq_ok.mp h).1

/-- What is taken as a method with the layout behind it is read as one. -/
theorem Statement.reader_of_spacedReader {s u : List Char} {m : Method}
    (h : spacedReader s = .ok (.method m, u)) : ∃ v, Method.reader s = .ok (m, v) := by
  obtain ⟨v, hread, -⟩ := spacedReader_eq_ok h
  obtain hfail | ⟨beginning, hmem⟩ := readerFor_eq s
  · rw [reader, hfail] at hread
    cases hread
  · exact ⟨v, method_of_mem hmem hread⟩

/-- The callees in the methods of a class stand in the text off which the class is read. -/
theorem ClassDef.exists_callee_of_read {text : String} {c : ClassDef} (h : read text = .ok c)
    {call : Call} (hcall : .instruction (.call call) ∈ c.items) :
    ∃ x, x <:+: text.toList ∧ call.callee.IsSpelled x := by
  obtain ⟨sts, start, u, hmany, hclass⟩ := read_eq_ok h
  obtain ⟨m, hm, hbody⟩ := List.mem_flatMap.mp hcall
  rw [← (parts_of_ofStatements? hclass).2.2] at hm
  obtain ⟨st, hst, hmethod⟩ := List.mem_filterMap.mp hm
  obtain ⟨t, v, ht, hspaced⟩ := Reader.manyTill_forall Statement.forward_spacedReader hmany st hst
  obtain rfl : st = .method m := by
    cases st <;> cases hmethod
    rfl
  obtain ⟨v, hread⟩ := Statement.reader_of_spacedReader hspaced
  obtain ⟨x, hx, hcallee⟩ := Method.exists_callee_of_reader hread hbody
  exact ⟨x, hx.trans (ht.trans (List.dropWhile_suffix _)).isInfix, hcallee⟩

namespace MethodRef

/-- Exactly which references name methods of types, of those that are read off any text. The text is
read as a reference if and only if it spells the reference, with blanks around it, and what is read
names a method of a type if and only if the text begins like that. If it is read as a table, all
methods of the table do so if and only if all of its lines begin like that, unless they say nothing.
And if it is read as a class, each callee in the class is spelled somewhere in it, and names a
method of a type if and only if the spelling begins like that. -/
theorem sound_exactly (text : String) :
    (∀ m, read text = .ok m ↔ m.IsSpelled (trim text.toList)) ∧
    (∀ m, read text = .ok m → (m.IsSound ↔ BeginsSoundly (trim text.toList))) ∧
    (∀ t, PermissionTable.ofText text = .ok t →
      ((∀ m, t.contains m = true → m.IsSound) ↔
        ∀ l ∈ lines text.toList, PermissionTable.content l ≠ [] →
          BeginsSoundly (PermissionTable.content l))) ∧
    ∀ c, ClassDef.read text = .ok c → ∀ call, .instruction (.call call) ∈ c.items →
      ∃ x, x <:+: text.toList ∧ call.callee.IsSpelled x ∧
        (call.callee.IsSound ↔ BeginsSoundly x) := by
  refine ⟨fun m => read_eq_ok, fun m h => ?_, fun t h => ?_, fun c h call hcall => ?_⟩
  · have hsound := (read_eq_ok.mp h).isSound_iff []
    rwa [List.append_nil] at hsound
  · obtain ⟨hunites, hlines⟩ := PermissionTable.unites_of_ofText h
    exact hunites.isSound_iff hlines
  · obtain ⟨x, hx, hcallee⟩ := ClassDef.exists_callee_of_read h hcall
    have hsound := hcallee.isSound_iff []
    rw [List.append_nil] at hsound
    exact ⟨x, hx, hcallee, hsound⟩

open ClassDef in
/-- A reference, a table with an entry for it, and a class with a call. -/
theorem sound_exactly_sample :
    (∃ m, read " Lfoo/Bar;->name()V" = .ok m ∧
      (m.IsSound ↔ BeginsSoundly (trim " Lfoo/Bar;->name()V".toList))) ∧
    (∃ t, PermissionTable.ofText "Lfoo/Bar;->name()V p" = .ok t ∧
      ((∀ m, t.contains m = true → m.IsSound) ↔
        ∀ l ∈ lines "Lfoo/Bar;->name()V p".toList, PermissionTable.content l ≠ [] →
          BeginsSoundly (PermissionTable.content l))) ∧
    ∃ c, ClassDef.read (bareClass.textWith plainMethod ((callLine .plain).textWith [])) = .ok c ∧
      .instruction (.call rangeCall) ∈ c.items ∧
        ∃ x, x <:+: (bareClass.textWith plainMethod ((callLine .plain).textWith [])).toList ∧
          rangeCall.callee.IsSpelled x ∧ (rangeCall.callee.IsSound ↔ BeginsSoundly x) := by
  refine ⟨?_, ?_, ?_⟩
  · have hread : read " Lfoo/Bar;->name()V" = .ok ⟨"Lfoo/Bar;", "name", ⟨[], .void⟩⟩ := by cbv
    exact ⟨_, hread, (sound_exactly _).2.1 _ hread⟩
  · have hsome : (PermissionTable.ofText "Lfoo/Bar;->name()V p").isOk = true := by cbv
    cases ht : PermissionTable.ofText "Lfoo/Bar;->name()V p" with
    | ok t => exact ⟨t, rfl, (sound_exactly _).2.2.1 t ht⟩
    | error f =>
      rw [ht] at hsome
      cases hsome
  · have htail : ∀ l ∈ [(callLine .plain, [])], InLine l.2 ∧ BodyLine.LeavesUnread l.1.item l.2 :=
      List.forall_mem_singleton.mpr ⟨inLine_nil, BodyLine.leavesUnread_nil _⟩
    have hread := read_linesWith bareClass_wellFormed plainMethod_wellFormed htail
    rw [List.flatMap_singleton] at hread
    obtain ⟨c, hread, hcall⟩ : ∃ c, ClassDef.read (bareClass.textWith plainMethod
        ((callLine .plain).textWith [])) = .ok c ∧ .instruction (.call rangeCall) ∈ c.items :=
      ⟨_, hread, List.mem_flatMap.mpr ⟨_, List.mem_singleton_self _, List.mem_singleton_self _⟩⟩
    exact ⟨c, hread, hcall, (sound_exactly _).2.2.2 c hread rangeCall hcall⟩

/-- A reference is read whose owner is no descriptor and whose name is empty. -/
theorem read_unsound :
    read "foo->()V" = .ok ⟨"foo", "", ⟨[], .void⟩⟩ ∧ ∀ t, JavaType.readDescriptor "foo" ≠ .ok t := by
  refine ⟨by cbv, fun t h => ?_⟩
  have hnone : (JavaType.readDescriptor "foo").toOption = none := by cbv
  rw [h] at hnone
  cases hnone

end MethodRef

end GatedCalls
