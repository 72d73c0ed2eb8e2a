import GatedCalls.Proofs.Smali.Array

/-!
# Arrays that are read back are legible

The converse of `ElementValue.manyTill_itemsFrom`: an array can only be read back from its own text
if all its items are legible. An item that breaks over lines comes back with other blanks in it if
it is a literal, and an annotation in front of a comma comes back with the comma.
-/

namespace GatedCalls

open Text

namespace ElementValue

/-! ### Items that have been read -/

/-- A literal that has been read as an item stood first behind the layout. -/
theorem stringItemReader_eq_ok {s v : List Char} {item : String}
    (h : stringItemReader s = .ok (item, v)) :
    IsLiteral item.toList ∧ ∃ w, afterLayout s = item.toList ++ w := by
  obtain ⟨body, t, hread, h⟩ := Reader.bind_eq_ok.mp h
  obtain ⟨rfl, rfl⟩ := Reader.pure_eq_ok.mp h
  obtain ⟨w, hread, -⟩ := Reader.inLayout_eq_ok.mp hread
  obtain ⟨hbody, htext⟩ := StringLiteral.reader_eq_ok hread
  rw [dropWhile_of_stops (stops_afterLayout s).isSpace] at htext
  have hitem : ("\"" ++ String.ofList body ++ "\"").toList = '"' :: (body ++ ['"']) := by simp
  refine ⟨⟨body, hbody, hitem⟩, w, ?_⟩
  rw [htext, hitem]
  simp

/-- Plain text that has been read as an item is trimmed and holds no comma, no brace and no line
feed. -/
theorem plainItemReader_eq_ok {s v : List Char} {item : String}
    (h : plainItemReader s = .ok (item, v)) :
    IsPlain item.toList ∧ ¬Stops isItemChar (afterLayout s) := by
  obtain ⟨text, t, hread, h⟩ := Reader.bind_eq_ok.mp h
  obtain ⟨rfl, rfl⟩ := Reader.pure_eq_ok.mp h
  obtain ⟨w, hread, -⟩ := Reader.inLayout_eq_ok.mp hread
  refine ⟨Reader.trim_run1_eq_ok hread, fun hstop => ?_⟩
  exact Reader.not_fails_of_ok hread (Reader.run1_fails hstop)

/-- An item that has been read is a literal, the lines of an annotation, or plain text. -/
theorem itemReader_eq_ok {s v : List Char} {item : String} (h : itemReader s = .ok (item, v)) :
    (∃ w, stringItemReader s = .ok (item, w)) ∨
    (startsWith ".subannotation" s = true ∧ ∃ w, blockReader ".end subannotation" s = .ok (item, w)) ∨
    (stringItemReader.Fails s ∧ startsWith ".subannotation" s = false ∧
      ∃ w, plainItemReader s = .ok (item, w)) := by
  obtain ⟨text, t, hread, h⟩ := Reader.bind_eq_ok.mp h
  obtain ⟨_, _, -, h⟩ := Reader.bind_eq_ok.mp h
  obtain ⟨rfl, -⟩ := Reader.pure_eq_ok.mp h
  obtain hread | ⟨hfails, hread⟩ := Reader.orElse_eq_ok.mp hread
  · exact .inl ⟨t, hread⟩
  · rw [otherItemReader] at hread
    split at hread
    · next hstart => exact .inr (.inl ⟨hstart, t, hread⟩)
    · next hstart => exact .inr (.inr ⟨hfails, by simpa using hstart, t, hread⟩)

/-- No space stands behind an item. -/
theorem stops_isSpace_itemsBehind (indent : String) (items : List String) (rest : List Char) :
    Stops isSpace (itemsBehind indent items rest) := by
  cases items with
  | nil => exact stops_cons.mpr (by decide)
  | cons item items =>
    rw [itemsBehind_cons]
    exact stops_cons.mpr (by decide)

/-- Where further items stand behind an item, the rest of its line is made of commas. -/
theorem exists_itemsBehind_eq (indent item : String) (items : List String) (rest : List Char) :
    ∃ y z, (∀ c ∈ y, c = ',') ∧ itemsBehind indent (item :: items) rest = ',' :: (y ++ '\n' :: z) := by
  induction items generalizing item with
  | nil =>
    rw [itemsBehind_cons, itemsFrom, itemText]
    cases lines item.toList with
    | nil => exact ⟨[], _, by simp, rfl⟩
    | cons l ls => exact ⟨[], _, by simp, rfl⟩
  | cons next items ih =>
    rw [itemsBehind_cons, itemsFrom, itemText]
    cases lines item.toList with
    | nil =>
      -- An empty item has no lines, so the comma behind it stands on the same line.
      obtain ⟨y, z, hy, hbehind⟩ := ih next
      refine ⟨',' :: y, z, ?_, ?_⟩
      · intro c hc
        obtain rfl | hc := List.mem_cons.mp hc
        · rfl
        · exact hy c hc
      · rw [hbehind]
        rfl
    | cons l ls => exact ⟨[], _, by simp, rfl⟩

/-- The line that closes a block can go on with commas. -/
theorem isBlock_commas {closing : String} {ls : List (List Char)} {last y : List Char}
    (h : IsBlock closing ls last) (hne : last ≠ []) (hy : ∀ c ∈ y, c = ',') :
    IsBlock closing ls (last ++ ',' :: y) := by
  have hcommas : ∀ c ∈ ',' :: y, c = ',' := by
    intro c hc
    obtain rfl | hc := List.mem_cons.mp hc
    · rfl
    · exact hy c hc
  have hend : Stops isBlank (last ++ ',' :: y).reverse := by
    intro c hc
    rw [List.head?_reverse, List.getLast?_append_of_ne_nil _ (by simp)] at hc
    rw [hcommas c (List.mem_of_getLast? hc)]
    rfl
  refine ⟨h.inner, isTrimmed_iff.mpr ⟨h.last_trimmed.stops.append hne _, hend⟩, ?_,
    startsWith_append_of_startsWith h.last_closes _⟩
  refine inLine_append.mpr ⟨h.last_inLine, fun c hc => ?_⟩
  rw [hcommas c hc]
  rfl

section Indented

variable {indent : String} (hindent : ∀ c ∈ indent.toList, c = ' ')
include hindent

/-- Lines that are set in do not begin like the text that they are the lines of: the first one has
more spaces in front. -/
theorem setIn_ne_append {t behind lineBreak : List Char} {c : Char} (hmem : c ∈ t)
    (hc : isSpace c = false) (hbreak : lineBreak = ['\n'] ∨ lineBreak = ['\r', '\n'])
    (hbehind : Stops isSpace behind) (w : List Char) :
    (lines t).flatMap (fun l => '\n' :: (margin indent ++ l)) ++ behind ≠ lineBreak ++ (t ++ w) := by
  intro h
  obtain ⟨l, ls, t', hlines, ht, hstop⟩ := exists_firstLine (List.ne_nil_of_mem hmem)
  have hspaces : margin indent ++ (l ++ (ls.flatMap (fun l => '\n' :: (margin indent ++ l)) ++
      behind)) = t ++ w := by
    rw [hlines] at h
    obtain rfl | rfl := hbreak
    · simpa using h
    · simp at h
  have hfollow : Stops isSpace (ls.flatMap (fun l => '\n' :: (margin indent ++ l)) ++ behind) := by
    cases ls with
    | nil => exact hbehind
    | cons l' ls => exact stops_cons.mpr (by decide)
  have hmargin : ∀ c ∈ margin indent, isSpace c = true := by
    intro c hc
    rw [eq_space_of_mem_margin hindent hc]
    rfl
  have hcount := congrArg (List.takeWhile isSpace) hspaces
  rw [List.takeWhile_append_of_pos hmargin, takeWhile_append_left hfollow,
    takeWhile_append_of_mem hmem hc, ht, takeWhile_append_left hstop] at hcount
  have hlength := congrArg List.length hcount
  have hpos : 0 < (margin indent).length := by simp [margin, inset]
  rw [List.length_append] at hlength
  omega

/-- A literal that is read off its own text is on one line: the margin of its second line would come
back as a part of it. -/
theorem not_mem_of_stringItemReader {item : String} {behind v : List Char}
    (hbehind : Stops isSpace behind)
    (h : stringItemReader (afterLayout (itemText indent item ++ behind)) = .ok (item, v)) :
    '\n' ∉ item.toList := by
  intro hmem
  obtain ⟨⟨body, -, hitem⟩, w, hw⟩ := stringItemReader_eq_ok h
  obtain ⟨l, lineBreak, t, ⟨hbreak, -, -⟩, htext, hlines⟩ := exists_lines_eq_cons hmem
  -- The first line begins with a quote, and the last one ends with a quote.
  have hlast : item.toList.getLast? = some '"' := by
    rw [hitem, ← List.cons_append]
    exact List.getLast?_concat
  have hquote : '"' ∈ t := by
    rw [htext, ← List.append_assoc] at hlast
    cases t with
    | nil =>
      have hne : lineBreak ≠ [] := by obtain rfl | rfl := hbreak <;> simp
      rw [List.append_nil, List.getLast?_append_of_ne_nil _ hne] at hlast
      obtain rfl | rfl := hbreak <;> exact absurd hlast (by decide)
    | cons c t =>
      rw [List.getLast?_append_of_ne_nil _ (by simp)] at hlast
      exact List.mem_of_getLast? hlast
  obtain ⟨l, rfl⟩ : ∃ l', l = '"' :: l' := by
    rw [hitem] at htext
    cases l with
    | nil => obtain rfl | rfl := hbreak <;> simp at htext
    | cons c l =>
      obtain ⟨rfl, -⟩ := List.cons.inj htext
      exact ⟨l, rfl⟩
  have hplace := afterLayout_itemText hindent hlines (by simp) (stops_cons.mpr (by decide)) behind
  rw [afterLayout_afterLayout, hplace, htext, List.append_assoc, List.append_cancel_left_eq,
    List.append_assoc] at hw
  exact setIn_ne_append hindent hquote (by decide) hbreak hbehind w hw

/-- A block whose last line has a comma behind it is read with that comma, so no other item stands
behind an annotation that is read off its own text. -/
theorem items_eq_nil_of_blockReader {first last : List Char} {ls : List (List Char)}
    {items : List String} {rest v : List Char}
    (hblock : IsBlock ".end subannotation" (first :: ls) last)
    (h : blockReader ".end subannotation" (afterLayout (itemText indent
      (blockText (first :: ls) last) ++ itemsBehind indent items rest)) =
        .ok (blockText (first :: ls) last, v)) :
    items = [] := by
  cases items with
  | nil => rfl
  | cons item items =>
    obtain ⟨y, z, hy, hbehind⟩ := exists_itemsBehind_eq indent item items rest
    have hmargin : ∀ c ∈ margin indent, c = ' ' := fun c => eq_space_of_mem_margin hindent
    -- The line that closes the block goes on up to the next line feed.
    have hcommas : IsBlock ".end subannotation" (first :: ls) (last ++ ',' :: y) := by
      refine isBlock_commas hblock ?_ hy
      obtain ⟨t, rfl⟩ := startsWith_iff.mp hblock.last_closes
      simp
    have hread := blockReader_indented hcommas hmargin hmargin z
    rw [afterLayout_blockText hindent hblock, hbehind] at h
    have htext : last ++ ',' :: (y ++ '\n' :: z) = last ++ ',' :: y ++ '\n' :: z := by simp
    rw [htext, hread] at h
    have hsame := congrArg (fun s => lines s.toList) (Prod.mk.inj (Except.ok.inj h)).1
    simp only [lines_blockText hcommas (by decide), lines_blockText hblock (by decide)] at hsame
    simp at hsame

/-- Nothing is read as an item off the text of an empty one. -/
theorem ne_nil_of_plainItemReader {item : String} {items : List String} {rest v : List Char}
    (h : plainItemReader (afterLayout (itemText indent item ++ itemsBehind indent items rest)) =
      .ok (item, v)) :
    item.toList ≠ [] := by
  intro hnil
  obtain ⟨-, hstop⟩ := plainItemReader_eq_ok h
  rw [afterLayout_afterLayout, itemText, hnil, lines_nil, List.flatMap_nil, List.nil_append] at hstop
  apply hstop
  cases items with
  | nil =>
    have hend : afterLayout (itemsBehind indent [] rest) = '\x7d' :: '\n' :: rest :=
      afterLayout_arrayEnd hindent rest
    rw [hend]
    exact stops_cons.mpr (by decide)
  | cons item items =>
    rw [itemsBehind_cons, afterLayout_of_stops (stops_cons.mpr (by decide))]
    exact stops_cons.mpr (by decide)

/-- An item that is read off its own text is legible. -/
theorem itemLegible_of_itemReader {item : String} {items : List String} {rest v : List Char}
    (h : itemReader (afterLayout (itemsFrom indent (item :: items) rest)) = .ok (item, v)) :
    ItemLegible item items (itemsBehind indent items rest) := by
  rw [itemsFrom] at h
  obtain ⟨w, hliteral⟩ | ⟨hstart, w, hblock⟩ | ⟨hfails, hstart, w, hplain⟩ := itemReader_eq_ok h
  · have hmem := not_mem_of_stringItemReader hindent (stops_isSpace_itemsBehind indent items rest)
      hliteral
    exact .inl ⟨(stringItemReader_eq_ok hliteral).1, hmem⟩
  · obtain ⟨ls, last, hlines, rfl, x, u, hline, hfirst⟩ := blockReader_eq_ok hblock
    have hword : startsWith ".subannotation" (trim x) = true :=
      startsWith_trim_line (by decide) (by decide) (by decide) hstart hline
    obtain ⟨t, ht⟩ := startsWith_iff.mp hword
    obtain ⟨ls, rfl⟩ := hfirst (by simp [ht]) (by rw [ht]; rfl)
    exact .inr (.inr ⟨⟨trim x, ls, last, hlines, hword, rfl⟩,
      items_eq_nil_of_blockReader hindent hlines hblock⟩)
  · obtain ⟨hitem, -⟩ := plainItemReader_eq_ok hplain
    have hne := ne_nil_of_plainItemReader hindent hplain
    have hmem : '\n' ∉ item.toList := fun hmem => absurd (hitem.2 _ hmem) (by decide)
    rw [afterLayout_itemText_of_not_mem hindent hmem hne hitem.1.stops.isLayout] at hfails hstart
    exact .inr (.inl ⟨hitem, hne, startsWith_eq_false_of_append hstart, hfails⟩)

/-- The items of an array that are read off their own text are legible. -/
theorem itemsLegible_of_manyTill {items : List String} {rest start u t : List Char}
    (hu : StandsAt indent items rest u)
    (h : Reader.manyTill closingBrace itemReader progresses_itemReader start u =
      .ok ((items, ()), t)) :
    ItemsLegible indent rest items := by
  induction items generalizing u with
  | nil => trivial
  | cons item items ih =>
    obtain ⟨hnil, -⟩ | ⟨-, item', v, items', heq, hread, hrest⟩ := Reader.manyTill_eq_ok h
    · cases hnil
    · obtain ⟨rfl, rfl⟩ := List.cons.inj heq
      have hplace : u = afterLayout (itemsFrom indent (item :: items) rest) := by
        rw [← hu.1, hu.2 (by simp)]
      rw [hplace] at hread
      have hitem := itemLegible_of_itemReader hindent hread
      -- A legible item leaves the reader in front of the next one.
      obtain ⟨c, s, w, htext, -, hsame, hw⟩ := itemReader_itemsFrom hindent hitem
      rw [htext, hsame] at hread
      obtain ⟨-, rfl⟩ := Prod.mk.inj (Except.ok.inj hread)
      exact ⟨hitem, ih hw hrest⟩

end Indented

/-- An item of a legible array is legible in front of the items behind it. -/
theorem itemLegible_of_append {indent item : String} {rest : List Char}
    {before behind : List String} (h : ItemsLegible indent rest (before ++ item :: behind)) :
    ItemLegible item behind (itemsBehind indent behind rest) := by
  induction before with
  | nil => exact h.1
  | cons first before ih => exact ih h.2

end ElementValue

end GatedCalls
