import GatedCalls.Proofs.Smali.Exact.Entry
import GatedCalls.Proofs.Smali.Method

/-!
# Methods that are read back are legible

The converse of `Method.reader_print`. An annotation and an item of the body are told apart by the
first word, so where a method is read back, the entries have been read one after another, each where
it stands; only the order in which the reader comes upon them has to be followed.
-/

namespace GatedCalls

open Text

namespace Method

variable {m : Method} {s t : List Char}

/-! ### Methods that have been read -/

/-- The parts of the first line of a method that has been read. -/
theorem headerReader_eq_ok (h : headerReader s = .ok (m, t)) :
    ∃ s₁ s₂ s₃ s₄ s₅ s₆ name line x,
      Reader.literal ".method" s = .ok ((), s₁) ∧ Reader.spaces1 s₁ = .ok ((), s₂) ∧
      Modifier.listReader s₂ = .ok (m.modifiers, s₃) ∧
      Reader.optional (do Reader.literal "constructor"; Reader.spaces1) s₃ = .ok (x, s₄) ∧
      x.isSome = m.isConstructor ∧ Reader.run1 isNameChar s₄ = .ok (name, s₅) ∧
      m.name = String.ofList (trim name) ∧ Prototype.reader s₅ = .ok (m.proto, s₆) ∧
      Reader.restOfLine s₆ = .ok (line, t) := by
  obtain ⟨_, s₁, hword, h⟩ := Reader.bind_eq_ok.mp h
  obtain ⟨_, s₂, hspaces, h⟩ := Reader.bind_eq_ok.mp h
  obtain ⟨modifiers, s₃, hmodifiers, h⟩ := Reader.bind_eq_ok.mp h
  obtain ⟨x, s₄, hconstructor, h⟩ := Reader.bind_eq_ok.mp h
  obtain ⟨name, s₅, hname, h⟩ := Reader.bind_eq_ok.mp h
  obtain ⟨proto, s₆, hproto, h⟩ := Reader.bind_eq_ok.mp h
  obtain ⟨line, s₇, hline, h⟩ := Reader.bind_eq_ok.mp h
  obtain ⟨rfl, rfl⟩ := Reader.pure_eq_ok.mp h
  exact ⟨s₁, s₂, s₃, s₄, s₅, s₆, name, line, x, hword, hspaces, hmodifiers, hconstructor, rfl, hname,
    rfl, hproto, hline⟩

/-- Whether entries are what is read from a place behind the first line of a method down to its
end. -/
def ReadsEntries (start u s : List Char) (es : List Entry) : Prop :=
  Reader.manyTill closing Entry.spacedReader Entry.progresses_spacedReader start s = .ok ((es, ()), u)

/-- A method that has been read is its first line with the entries behind it in their places. -/
theorem reader_eq_ok (h : reader s = .ok (m, t)) :
    ∃ header es u v, headerReader s = .ok (header, u) ∧ ReadsEntries s v (afterLayout u) es ∧
      m = header.withEntries es := by
  unfold reader at h
  split at h
  · cases h
  · next header u hheader =>
    obtain ⟨w, hfirst, rfl⟩ := Reader.spaced_eq_ok hheader
    split at h
    · cases h
    · next es v hmany =>
      split at h
      · cases h
      · obtain ⟨rfl, -⟩ := Prod.mk.inj (Except.ok.inj h)
        exact ⟨header, es, w, v, hfirst, hmany, rfl⟩

/-! ### The entries of a method that is read back -/

section Entries

variable {es : List Entry} {rest start u : List Char}

/-- The number of registers is read back first, if it is said. -/
theorem ReadsEntries.locals {locals : Option UInt32}
    (h : ReadsEntries start u
      (afterLayout ((locals.toList.map Entry.locals).flatMap Entry.text ++ rest)) es) :
    ∃ es', es = locals.toList.map Entry.locals ++ es' ∧
      ReadsEntries start u (afterLayout rest) es' := by
  cases locals with
  | none => exact ⟨es, rfl, h⟩
  | some n =>
    have hlegible : (Entry.locals n).Legible rest := trivial
    obtain ⟨hopen, hread⟩ := spacedReader_text hlegible
    have htext : ((some n).toList.map Entry.locals).flatMap Entry.text = (Entry.locals n).text :=
      List.append_nil _
    rw [htext] at h
    exact Reader.manyTill_eq_cons hopen hread h

/-- Where an annotation stands that is the first one among the entries, it is read back and
legible. -/
theorem ReadsEntries.annotated {a : AnnotationBlock} {as : List AnnotationBlock}
    (h : ReadsEntries start u (afterLayout ((Entry.annotated a).text ++ rest)) es)
    (ha : a.ConstantsInLine) (has : es.filterMap Entry.block? = a :: as) :
    ∃ es', es = .annotated a :: es' ∧ es'.filterMap Entry.block? = as ∧
      (Entry.annotated a).Legible rest ∧ ReadsEntries start u (afterLayout rest) es' := by
  have hspaces : ∀ c ∈ ("    " : String).toList, c = ' ' := by simp
  obtain ⟨rfl, -⟩ | ⟨-, e, v, es', rfl, he, hrest⟩ := Reader.manyTill_eq_ok h
  · cases has
  · obtain ⟨w, hentry, rfl⟩ := Reader.spaced_eq_ok he
    -- What begins like an annotation is read as one, and the entries say as which one.
    obtain ⟨a', rfl, hread⟩ :=
      Entry.annotated_of_reader (AnnotationBlock.afterLayout_outerText hspaces a rest) hentry
    obtain ⟨rfl, has'⟩ := List.cons.inj has
    obtain ⟨hlegible, rfl⟩ :=
      AnnotationBlock.legible_and_behind hspaces ha (afterLayout_afterLayout _) hread
    rw [afterLayout_afterLayout] at hrest
    exact ⟨es', rfl, has', hlegible, hrest⟩

/-- Annotations are read back and legible if the ones among the entries are the same. -/
theorem ReadsEntries.annotations {as : List AnnotationBlock}
    (h : ReadsEntries start u
      (afterLayout ((as.map Entry.annotated).flatMap Entry.text ++ rest)) es)
    (hconstants : ∀ a ∈ as, a.ConstantsInLine) (has : es.filterMap Entry.block? = as) :
    EachInPlace Entry.text Entry.Legible rest (as.map Entry.annotated) ∧
      ∃ es', es = as.map Entry.annotated ++ es' ∧ ReadsEntries start u (afterLayout rest) es' := by
  induction as generalizing es with
  | nil => exact ⟨trivial, es, rfl, h⟩
  | cons a as ih =>
    rw [List.map_cons, List.flatMap_cons, List.append_assoc] at h
    obtain ⟨es', rfl, has', ha, hbehind⟩ := h.annotated (hconstants a List.mem_cons_self) has
    obtain ⟨hlegible, es'', rfl, hrest⟩ :=
      ih hbehind (fun b hb => hconstants b (List.mem_cons_of_mem a hb)) has'
    exact ⟨⟨ha, hlegible⟩, es'', rfl, hrest⟩

/-- Where an item stands that is the first one among the entries, and no annotation is among them,
it is read back and legible. -/
theorem ReadsEntries.item {i : BodyItem} {body : List BodyItem}
    (h : ReadsEntries start u (afterLayout ((Entry.item i).text ++ rest)) es) (hi : i.IsRead)
    (hnone : es.filterMap Entry.block? = []) (hbody : es.filterMap Entry.item? = i :: body) :
    ∃ es', es = .item i :: es' ∧ es'.filterMap Entry.block? = [] ∧
      es'.filterMap Entry.item? = body ∧ (Entry.item i).Legible rest ∧
        ReadsEntries start u (afterLayout rest) es' := by
  obtain ⟨rfl, -⟩ | ⟨hopen, e, v, es', rfl, he, hrest⟩ := Reader.manyTill_eq_ok h
  · cases hbody
  · obtain ⟨w, hentry, -⟩ := Reader.spaced_eq_ok he
    have hclosed : startsWith ".end method" (afterLayout ((Entry.item i).text ++ rest)) = false := by
      rw [← Bool.not_eq_true, startsWith_iff]
      rintro ⟨t, ht⟩
      rw [ht] at hopen
      exact Reader.not_fails_of_ok (Reader.literal_append ".end method" t) hopen
    obtain ⟨a, rfl⟩ | ⟨i', rfl, hlegible⟩ := Entry.readsItem_of_reader hi hclosed hentry
    · -- A directive can be an annotation when it is read again, but the entries hold none.
      cases hnone
    · obtain ⟨rfl, hbody'⟩ := List.cons.inj hbody
      -- A legible item leaves the reader in front of the next one.
      obtain ⟨-, hplace⟩ := spacedReader_text (hlegible rfl)
      obtain ⟨-, rfl⟩ := Reader.ok_unique he hplace
      exact ⟨es', rfl, hnone, hbody', hlegible rfl, hrest⟩

/-- A body is legible if the items among the entries are the same, and no annotation is among
them. -/
theorem ReadsEntries.body {body : List BodyItem}
    (h : ReadsEntries start u (afterLayout ((body.map Entry.item).flatMap Entry.text ++ rest)) es)
    (hread : ∀ i ∈ body, i.IsRead) (hnone : es.filterMap Entry.block? = [])
    (hbody : es.filterMap Entry.item? = body) :
    EachInPlace Entry.text Entry.Legible rest (body.map Entry.item) := by
  induction body generalizing es with
  | nil => trivial
  | cons i body ih =>
    rw [List.map_cons, List.flatMap_cons, List.append_assoc] at h
    obtain ⟨es', -, hnone', hbody', hi, hbehind⟩ :=
      h.item (hread i List.mem_cons_self) hnone hbody
    exact ⟨hi, ih hbehind (fun j hj => hread j (List.mem_cons_of_mem i hj)) hnone' hbody'⟩

/-- The items among entries that have been read have the form that reading gives them. -/
theorem ReadsEntries.isRead {s : List Char} (h : ReadsEntries start u s es) :
    ∀ i ∈ es.filterMap Entry.item?, i.IsRead := by
  intro i hi
  obtain ⟨e, he, heq⟩ := List.mem_filterMap.mp hi
  obtain ⟨t, v, -, hspaced⟩ := Reader.manyTill_forall Entry.forward_spacedReader h e he
  obtain ⟨w, hentry, -⟩ := Reader.spaced_eq_ok hspaced
  cases e with
  | item j =>
    obtain rfl := Option.some.inj heq
    exact Entry.isRead_of_reader hentry
  | _ => cases heq

/-- The entries of a method are legible if the method that they make up is the same. -/
theorem ReadsEntries.legible
    (h : ReadsEntries start u (afterLayout (m.entries.flatMap Entry.text ++ rest)) es)
    (hconstants : ∀ a ∈ m.annotations, a.ConstantsInLine)
    (hannotations : es.filterMap Entry.block? = m.annotations)
    (hbody : es.filterMap Entry.item? = m.body) :
    EachInPlace Entry.text Entry.Legible rest m.entries := by
  have hread : ∀ i ∈ m.body, i.IsRead := hbody ▸ h.isRead
  rw [entries, List.flatMap_append, List.flatMap_append, List.append_assoc, List.append_assoc] at h
  obtain ⟨es₁, rfl, h₁⟩ := h.locals
  rw [List.filterMap_append, filterMap_map_none (f := Entry.locals) fun _ => rfl, List.nil_append]
    at hannotations hbody
  obtain ⟨has, es₂, rfl, h₂⟩ := h₁.annotations hconstants hannotations
  -- The annotations of the method have all been read by now.
  rw [List.filterMap_append, filterMap_map_some (f := Entry.annotated) fun _ => rfl,
    List.append_right_eq_self] at hannotations
  rw [List.filterMap_append, filterMap_map_none (f := Entry.annotated) fun _ => rfl,
    List.nil_append] at hbody
  refine eachInPlace_append.mpr ⟨eachInPlace_append.mpr ⟨?_, has⟩, h₂.body hread hannotations hbody⟩
  exact eachInPlace_map.mpr (eachInPlace_of_forall fun _ _ _ => trivial)

end Entries

/-! ### Methods that are read back -/

/-- The word for a constructor is only read back off its text where the name begins with neither a
modifier nor that word. -/
theorem constructorReader_eq_ok {name rest : List Char} {x : Option Unit}
    (hname : Stops isSpace (name ++ '(' :: rest))
    (hfree : ¬BeginsWithModifier (constructorText x.isSome ++ (name ++ '(' :: rest)))
    (h : Reader.optional (do Reader.literal "constructor"; Reader.spaces1)
      (constructorText x.isSome ++ (name ++ '(' :: rest)) = .ok (x, t)) :
    (x.isSome = false → ¬BeginsWithModifier name ∧ ¬BeginsWithWord "constructor".toList name) ∧
      t = name ++ '(' :: rest := by
  cases x with
  | some _ =>
    have hnothing : true = false → ¬BeginsWithWord "constructor".toList name := nofun
    obtain ⟨y, hread, -⟩ := constructorReader_append hname hnothing
    obtain ⟨-, rfl⟩ := Reader.ok_unique h hread
    exact ⟨by simp, rfl⟩
  | none =>
    -- Nothing stands between the modifiers and the name, which is the next thing that is read.
    obtain ⟨hfails, rfl⟩ := Reader.optional_eq_ok_none.mp h
    have hmodifier : ¬BeginsWithModifier (name ++ '(' :: rest) := hfree
    rw [beginsWithModifier_append (by decide) fun m => m.not_mem_word.2] at hmodifier
    refine ⟨fun _ => ⟨hmodifier, ?_⟩, rfl⟩
    rintro ⟨c, hc, w, rfl⟩
    have hread : (do Reader.literal "constructor"; Reader.spaces1 : Reader Unit)
        ("constructor".toList ++ (c :: (w ++ '(' :: rest))) =
          .ok ((), (w ++ '(' :: rest).dropWhile isSpace) :=
      Reader.bind_ok (Reader.literal_append "constructor" _) (Reader.spaces1_apply hc _)
    refine Reader.not_fails_of_ok hread ?_
    simpa [constructorText] using hfails

/-- The first line of a method that is read back. -/
theorem header_of_headerReader {rest : List Char}
    (h : headerReader (".method".toList ++ ' ' :: ((Modifier.printList m.modifiers).toList ++
      (constructorText m.isConstructor ++ (m.name.toList ++ (m.proto.descriptor.toList ++
        '\n' :: rest))))) = .ok (m, t)) :
    (m.name.toList ≠ [] ∧ IsTrimmed m.name.toList ∧ (∀ c ∈ m.name.toList, isNameChar c = true) ∧
      (m.isConstructor = false → ¬BeginsWithModifier m.name.toList ∧
        ¬BeginsWithWord "constructor".toList m.name.toList) ∧ m.proto.IsNamed) ∧ t = rest := by
  obtain ⟨s₁, s₂, s₃, s₄, s₅, s₆, name, line, x, hword, hspaces, hmodifiers, hconstructor, hx, hname,
    htrim, hproto, hline⟩ := headerReader_eq_ok h
  -- What holds of the parts because they have been read.
  obtain ⟨htrimmed, hnameChars⟩ := Reader.trim_run1_eq_ok hname
  rw [← htrim] at htrimmed hnameChars
  obtain ⟨hnamed, -⟩ := Prototype.reader_eq_ok hproto
  -- Where they have been read.
  obtain ⟨s, hs⟩ : ∃ s, m.proto.descriptor.toList ++ '\n' :: rest = '(' :: s := by
    rw [Prototype.toList_descriptor]
    exact ⟨_, rfl⟩
  have hprotoRead := Prototype.reader_descriptor hnamed ('\n' :: rest)
  rw [hs] at hword hprotoRead
  have hstop : Stops isSpace (m.name.toList ++ '(' :: s) := htrimmed.stops_isSpace (by decide) s
  have hstopWord : Stops isSpace (constructorText m.isConstructor ++ (m.name.toList ++ '(' :: s)) := by
    cases m.isConstructor with
    | true => exact stops_cons.mpr (by decide)
    | false => exact hstop
  obtain ⟨-, rfl⟩ := Reader.ok_unique hword (Reader.literal_append ".method" _)
  obtain ⟨-, rfl⟩ := Reader.ok_unique hspaces
    (Reader.spaces1_cons (by decide) (Modifier.stops_printList m.modifiers hstopWord))
  obtain ⟨hfree, rfl⟩ := Modifier.listReader_eq_ok hstopWord hmodifiers
  rw [← hx] at hfree hconstructor
  obtain ⟨hnameFree, rfl⟩ := constructorReader_eq_ok hstop hfree hconstructor
  have hne : m.name.toList ≠ [] := by
    intro hnil
    rw [hnil] at hname
    exact Reader.not_fails_of_ok hname (Reader.run1_fails (stops_cons.mpr (by decide)))
  obtain ⟨-, rfl⟩ := Reader.ok_unique hname
    (Reader.run1_append hne hnameChars (stops_cons.mpr (by decide)))
  obtain ⟨-, rfl⟩ := Reader.ok_unique hproto hprotoRead
  obtain ⟨-, rfl⟩ := Reader.ok_unique hline (Reader.restOfLine_append inLine_nil _)
  exact ⟨⟨hne, htrimmed, hnameChars, hx ▸ hnameFree, hnamed⟩, rfl⟩

/-- A method that is read back is legible. -/
theorem legible_of_reader {behind : List Char} (hconstants : ∀ a ∈ m.annotations, a.ConstantsInLine)
    (h : reader (m.print.toList ++ behind) = .ok (m, t)) : m.Legible behind := by
  obtain ⟨header, es, u, v, hheader, hentries, hm⟩ := reader_eq_ok h
  rw [toList_print] at hheader
  subst hm
  obtain ⟨⟨hne, htrimmed, hchars, hfree, hnamed⟩, rfl⟩ := header_of_headerReader (m := header) hheader
  exact ⟨hne, htrimmed, hchars, hfree, hnamed, hentries.legible hconstants rfl rfl⟩

end Method

end GatedCalls
