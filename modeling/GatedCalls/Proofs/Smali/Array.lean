import GatedCalls.Proofs.Smali.Block
import GatedCalls.Proofs.Smali.StringLiteral

/-!
# Arrays are read as they are printed

An item of an array is a string literal, plain text or the lines of an annotation, and nothing marks
which of them it is but the text itself. `ItemLegible` says when an item is read as itself in the
place where it is printed: a literal has to be on one line; plain text must not be empty, must not
begin like an annotation, and no literal may begin with it that ends further on; an annotation has
to be the last item, since the comma behind it would be read as a part of its last line.

An array is read back exactly if all its items are legible (`manyTill_itemsFrom` and
`itemsLegible_of_manyTill`).
-/

namespace GatedCalls

open Text

namespace ElementValue

/-! ### Kinds of items -/

/-- Whether an item is a string literal. -/
def IsLiteral (item : List Char) : Prop :=
  ∃ body, StringLiteral.IsBody body ∧ item = '"' :: (body ++ ['"'])

/-- Whether an item is trimmed and holds no comma, no brace and no line feed. -/
def IsPlain (item : List Char) : Prop :=
  IsTrimmed item ∧ ∀ c ∈ item, isItemChar c = true

/-- Whether an item is the lines of an annotation. -/
def IsAnnotationText (item : String) : Prop :=
  ∃ first ls last, IsBlock ".end subannotation" (first :: ls) last ∧
    startsWith ".subannotation" first = true ∧ item = blockText (first :: ls) last

/-! ### Printed items -/

/-- What stands in front of each line of an item. -/
def margin (indent : String) : List Char :=
  (indent ++ inset ++ inset).toList

/-- The lines of an item, each behind a line feed and set in. -/
def itemText (indent item : String) : List Char :=
  (lines item.toList).flatMap fun l => '\n' :: (margin indent ++ l)

/-- The end of an array on a line of its own, and the text behind the array. -/
def arrayEnd (indent : String) (rest : List Char) : List Char :=
  '\n' :: ((indent ++ inset).toList ++ '\x7d' :: '\n' :: rest)

/-- The text behind an item, in front of the other items. -/
def itemsBehind (indent : String) (items : List String) (rest : List Char) : List Char :=
  items.flatMap (fun item => ',' :: itemText indent item) ++ arrayEnd indent rest

/-- The text of the items of an array and of its end. -/
def itemsFrom (indent : String) (items : List String) (rest : List Char) : List Char :=
  match items with
  | [] => arrayEnd indent rest
  | item :: items => itemText indent item ++ itemsBehind indent items rest

/-- Printed items as characters. -/
theorem toList_printItems (indent : String) (items : List String) :
    (printItems indent items).toList = [','].intercalate (items.map (itemText indent)) := by
  have hitem (item : String) :
      (String.join ((linesOf item).map fun line => "\n" ++ indent ++ inset ++ inset ++ line)).toList =
        itemText indent item := by
    simp [String.toList_join, linesOf, itemText, margin, List.flatMap_map]
  simp [printItems, String.toList_intercalate, Function.comp_def, hitem]

/-- A printed array as characters, with the text behind it. -/
theorem toList_print_array (indent : String) (items : List String) (rest : List Char) :
    (print indent (.array items)).toList ++ rest = '\x7b' :: itemsFrom indent items rest := by
  have hprint : (print indent (.array items)).toList =
      '\x7b' :: ([','].intercalate (items.map (itemText indent)) ++
        '\n' :: ((indent ++ inset).toList ++ ['\x7d', '\n'])) := by
    simp [print, toList_printItems]
  rw [hprint]
  cases items with
  | nil => simp [itemsFrom, arrayEnd]
  | cons item items =>
    simp [itemsFrom, itemsBehind, arrayEnd, intercalate_cons, List.flatMap_map]

/-- Behind an item stand a comma and the other items, or the end of the array. -/
theorem itemsBehind_cons (indent item : String) (items : List String) (rest : List Char) :
    itemsBehind indent (item :: items) rest = ',' :: itemsFrom indent (item :: items) rest := by
  simp [itemsBehind, itemsFrom]

/-! ### Reading one item -/

/-- A literal on one line is read as itself. -/
theorem stringItemReader_literal {body : List Char} (hbody : StringLiteral.IsBody body)
    (behind : List Char) :
    stringItemReader ('"' :: (body ++ ['"']) ++ behind) =
      .ok ("\"" ++ String.ofList body ++ "\"", afterLayout behind) := by
  have hstop : Stops isLayout ('"' :: (body ++ '"' :: behind)) := by simp [isLayout]
  have hread : Reader.inLayout StringLiteral.reader ('"' :: (body ++ '"' :: behind)) =
      .ok (body, afterLayout behind) := by
    refine Reader.inLayout_of_ok ?_
    rw [afterLayout_of_stops hstop]
    exact StringLiteral.reader_append hbody behind
  have htext : '"' :: (body ++ ['"']) ++ behind = '"' :: (body ++ '"' :: behind) := by simp
  rw [htext]
  exact Reader.bind_ok hread rfl

/-- Plain text is read as itself in front of a comma or the end of the line. -/
theorem plainItemReader_append {item behind : List Char} (hitem : IsPlain item) (hne : item ≠ [])
    (hbehind : Stops isItemChar behind) :
    plainItemReader (item ++ behind) = .ok (String.ofList item, afterLayout behind) := by
  obtain ⟨htrimmed, hchars⟩ := hitem
  have hstop : Stops isLayout (item ++ behind) := (htrimmed.stops.append hne behind).isLayout
  have hread : Reader.inLayout (Reader.run1 isItemChar) (item ++ behind) =
      .ok (item, afterLayout behind) := by
    refine Reader.inLayout_of_ok ?_
    rw [afterLayout_of_stops hstop]
    exact Reader.run1_append hne hchars hbehind
  refine Reader.bind_ok hread ?_
  rw [htrimmed]
  rfl

/-- Neither a comma nor a line feed belongs to a plain item, and one of them stands behind each
item. -/
theorem stops_itemsBehind (indent : String) (items : List String) (rest : List Char) :
    Stops isItemChar (itemsBehind indent items rest) := by
  cases items with
  | nil => simp [itemsBehind, arrayEnd, isItemChar]
  | cons item items => simp [itemsBehind_cons, isItemChar]

/-- No literal begins with another character than a quote. -/
theorem stringItemReader_fails {c : Char} {s : List Char} (hlayout : isLayout c = false)
    (hquote : c ≠ '"') : stringItemReader.Fails (c :: s) := by
  have hstop : Stops isLayout (c :: s) := stops_cons.mpr hlayout
  refine Reader.Fails.bind (Reader.Fails.inLayout ?_)
  rw [afterLayout_of_stops hstop]
  refine Reader.Fails.bind_of_ok (Reader.spaces_of_stops hstop.isSpace) (Reader.Fails.bind ?_)
  exact Reader.literal_fails (startsWith_eq_false rfl hquote)

/-- The array does not end where something else stands behind the layout. -/
theorem closingBrace_fails {c : Char} {s : List Char} (hlayout : isLayout c = false)
    (hbrace : c ≠ '\x7d') : closingBrace.Fails (c :: s) := by
  refine Reader.Fails.inLayout ?_
  rw [afterLayout_of_stops (stops_cons.mpr hlayout)]
  exact Reader.literal_fails (startsWith_eq_false rfl hbrace)

/-! ### Places of items -/

section Places

variable {indent : String} (hindent : ∀ c ∈ indent.toList, c = ' ')
include hindent

/-- Only blanks stand in front of a line of an item. -/
theorem eq_space_of_mem_margin {c : Char} (h : c ∈ margin indent) : c = ' ' := by
  simp only [margin, inset, String.toList_append, List.mem_append] at h
  obtain (h | h) | h := h
  · exact hindent c h
  · simpa using h
  · simpa using h

/-- At the end of an array stands its closing brace. -/
theorem afterLayout_arrayEnd (rest : List Char) :
    afterLayout (arrayEnd indent rest) = '\x7d' :: '\n' :: rest := by
  have hpad : ∀ c ∈ (indent ++ inset).toList, isLayout c = true := by
    intro c hc
    simp only [inset, String.toList_append, List.mem_append] at hc
    obtain hc | hc := hc
    · rw [hindent c hc]; rfl
    · have : c = ' ' := by simpa using hc
      rw [this]; rfl
  rw [arrayEnd, afterLayout_cons (by decide), afterLayout_append hpad]
  exact afterLayout_of_stops (by simp [isLayout])

/-- The first line of an item that does not begin with layout stands first behind the layout. -/
theorem afterLayout_itemText {item : String} {l : List Char} {ls : List (List Char)}
    (hlines : lines item.toList = l :: ls) (hl : l ≠ []) (hstop : Stops isLayout l)
    (behind : List Char) :
    afterLayout (itemText indent item ++ behind) =
      l ++ (ls.flatMap (fun l => '\n' :: (margin indent ++ l)) ++ behind) := by
  have hmargin : ∀ c ∈ margin indent, isLayout c = true := by
    intro c hc
    rw [eq_space_of_mem_margin hindent hc]
    rfl
  rw [itemText, hlines, List.flatMap_cons, List.cons_append, List.cons_append, List.append_assoc,
    List.append_assoc, afterLayout_cons (by decide), afterLayout_append hmargin]
  exact afterLayout_of_stops (hstop.append hl _)

/-- An item of one line that does not begin with layout stands first behind the layout. -/
theorem afterLayout_itemText_of_not_mem {item : String} (hmem : '\n' ∉ item.toList)
    (hne : item.toList ≠ []) (hstop : Stops isLayout item.toList) (behind : List Char) :
    afterLayout (itemText indent item ++ behind) = item.toList ++ behind := by
  rw [afterLayout_itemText hindent (lines_of_not_mem hmem hne) hne hstop]
  rfl

/-- The comma behind an item is taken with the layout around it; behind the last item stands
none. -/
theorem optional_comma (items : List String) (rest : List Char) :
    ∃ x, Reader.optional (Reader.inLayout (Reader.literal ","))
      (afterLayout (itemsBehind indent items rest)) =
        .ok (x, afterLayout (itemsFrom indent items rest)) := by
  cases items with
  | nil =>
    have hend := afterLayout_arrayEnd hindent rest
    refine ⟨none, Reader.optional_of_fails (Reader.Fails.inLayout ?_)⟩
    rw [afterLayout_afterLayout]
    change (Reader.literal ",").Fails (afterLayout (arrayEnd indent rest))
    rw [hend]
    exact Reader.literal_fails rfl
  | cons item items =>
    have hcomma : Stops isLayout (',' :: itemsFrom indent (item :: items) rest) := by simp [isLayout]
    rw [itemsBehind_cons, afterLayout_of_stops hcomma]
    refine ⟨some (), Reader.optional_of_ok (Reader.inLayout_of_ok ?_)⟩
    rw [afterLayout_of_stops hcomma]
    exact Reader.literal_append "," _

end Places

/-! ### Legible items are read back -/

/-- Whether an item is read as itself in front of the other items and the text behind them. -/
def ItemLegible (item : String) (items : List String) (behind : List Char) : Prop :=
  (IsLiteral item.toList ∧ '\n' ∉ item.toList) ∨
  (IsPlain item.toList ∧ item.toList ≠ [] ∧ startsWith ".subannotation" item.toList = false ∧
    stringItemReader.Fails (item.toList ++ behind)) ∨
  (IsAnnotationText item ∧ items = [])

/-- Whether all items of an array are read as themselves in front of the text behind the array. -/
def ItemsLegible (indent : String) (rest : List Char) : List String → Prop
  | [] => True
  | item :: items =>
    ItemLegible item items (itemsBehind indent items rest) ∧ ItemsLegible indent rest items

/-- Whether the reader of an array stands in front of the items: at the first one, or in front of
the end of the array. -/
def StandsAt (indent : String) (items : List String) (rest u : List Char) : Prop :=
  afterLayout u = afterLayout (itemsFrom indent items rest) ∧ (items ≠ [] → afterLayout u = u)

section Legible

variable {indent : String} (hindent : ∀ c ∈ indent.toList, c = ' ')
include hindent

/-- Behind a literal or plain text the reader passes over the comma, if one stands there, and stands
at the next item. -/
theorem itemReader_of_ok {s : List Char} {item : String} {items : List String} {rest : List Char}
    (h : Reader.orElse stringItemReader otherItemReader s =
      .ok (item, afterLayout (itemsBehind indent items rest))) :
    ∃ u, itemReader s = .ok (item, u) ∧ StandsAt indent items rest u := by
  obtain ⟨x, hcomma⟩ := optional_comma hindent items rest
  refine ⟨_, Reader.bind_ok h (Reader.bind_ok hcomma rfl), afterLayout_afterLayout _, fun _ => ?_⟩
  exact afterLayout_afterLayout _

/-- A literal on one line is read as itself. -/
theorem itemReader_literal {item : String} (items : List String) (rest : List Char)
    (hitem : IsLiteral item.toList) (hmem : '\n' ∉ item.toList) :
    ∃ c s u, afterLayout (itemsFrom indent (item :: items) rest) = c :: s ∧
      closingBrace.Fails (c :: s) ∧ itemReader (c :: s) = .ok (item, u) ∧
      StandsAt indent items rest u := by
  obtain ⟨body, hbody, hbodyItem⟩ := hitem
  have hne : item.toList ≠ [] := by simp [hbodyItem]
  have hstop : Stops isLayout item.toList := by simp [hbodyItem, isLayout]
  have htext := afterLayout_itemText_of_not_mem hindent hmem hne hstop
    (itemsBehind indent items rest)
  have hread := stringItemReader_literal hbody (itemsBehind indent items rest)
  have hquoted : "\"" ++ String.ofList body ++ "\"" = item := by
    rw [← String.toList_inj, hbodyItem]
    simp
  rw [hquoted] at hread
  obtain ⟨u, hu, hstands⟩ := itemReader_of_ok hindent (Reader.orElse_of_ok hread)
  rw [itemsFrom, htext, hbodyItem]
  exact ⟨'"', _, u, rfl, closingBrace_fails (by decide) (by decide), hu, hstands⟩

/-- Plain text is read as itself if it does not begin like an annotation or a literal. -/
theorem itemReader_plain {item : String} (items : List String) (rest : List Char)
    (hplain : IsPlain item.toList) (hne : item.toList ≠ [])
    (hstart : startsWith ".subannotation" item.toList = false)
    (hfails : stringItemReader.Fails (item.toList ++ itemsBehind indent items rest)) :
    ∃ c s u, afterLayout (itemsFrom indent (item :: items) rest) = c :: s ∧
      closingBrace.Fails (c :: s) ∧ itemReader (c :: s) = .ok (item, u) ∧
      StandsAt indent items rest u := by
  have hbehind := stops_itemsBehind indent items rest
  have hmem : '\n' ∉ item.toList := fun h => absurd (hplain.2 _ h) (by decide)
  have htext := afterLayout_itemText_of_not_mem hindent hmem hne hplain.1.stops.isLayout
    (itemsBehind indent items rest)
  have hread := plainItemReader_append hplain hne hbehind
  rw [String.ofList_toList] at hread
  have hother : startsWith ".subannotation" (item.toList ++ itemsBehind indent items rest) = false :=
    startsWith_append_eq_false (List.all_eq_true.mp (by decide)) hstart hbehind
  have hitem : Reader.orElse stringItemReader otherItemReader
      (item.toList ++ itemsBehind indent items rest) =
        .ok (item, afterLayout (itemsBehind indent items rest)) := by
    rw [Reader.orElse_of_fails hfails, otherItemReader, if_neg (by simp [hother]), hread]
  obtain ⟨u, hu, hstands⟩ := itemReader_of_ok hindent hitem
  obtain ⟨c, cs, hcs⟩ := List.exists_cons_of_ne_nil hne
  have hchar : isItemChar c = true := hplain.2 c (by simp [hcs])
  have hlayout : isLayout c = false := by
    have hstop := hplain.1.stops.isLayout
    rwa [hcs, stops_cons] at hstop
  have hbrace : c ≠ '\x7d' := by
    rintro rfl
    exact absurd hchar (by decide)
  rw [itemsFrom, htext]
  rw [hcs] at hu ⊢
  exact ⟨c, _, u, rfl, closingBrace_fails hlayout hbrace, hu, hstands⟩

/-- The lines of an annotation, but for the layout in front of the first one. -/
theorem afterLayout_blockText {first last : List Char} {ls : List (List Char)}
    (h : IsBlock ".end subannotation" (first :: ls) last) (behind : List Char) :
    afterLayout (itemText indent (blockText (first :: ls) last) ++ behind) =
      first ++ '\n' :: ((ls.map (margin indent ++ ·)).flatMap (· ++ ['\n']) ++
        (margin indent ++ (last ++ behind))) := by
  obtain ⟨hne, htrimmed, -, -⟩ := h.inner first List.mem_cons_self
  rw [afterLayout_itemText hindent (lines_blockText h (by decide)) hne htrimmed.stops.isLayout]
  have hlines := flatMap_lineFeed (margin indent ++ ·) ls (margin indent ++ (last ++ behind))
  rw [← hlines]
  simp

/-- The lines of an annotation are read as themselves in front of the end of the array. -/
theorem itemReader_block {item : String} (hitem : IsAnnotationText item) (rest : List Char) :
    ∃ c s u, afterLayout (itemsFrom indent [item] rest) = c :: s ∧
      closingBrace.Fails (c :: s) ∧ itemReader (c :: s) = .ok (item, u) ∧
      StandsAt indent [] rest u := by
  obtain ⟨first, ls, last, hblock, hfirst, rfl⟩ := hitem
  obtain ⟨t, rfl⟩ : ∃ t, first = '.' :: t := exists_cons_of_startsWith rfl hfirst
  have hmargin : ∀ c ∈ margin indent, c = ' ' := fun c => eq_space_of_mem_margin hindent
  have hspaces : ∀ c ∈ (indent ++ inset).toList, c = ' ' := fun c hc =>
    hmargin c (by simp only [margin, String.toList_append, List.mem_append] at hc ⊢; exact .inl hc)
  -- What stands behind the last line of the item.
  let close : List Char := (indent ++ inset).toList ++ '\x7d' :: '\n' :: rest
  have hclose : afterLayout close = '\x7d' :: '\n' :: rest := by
    rw [afterLayout_append fun c hc => by rw [hspaces c hc]; rfl]
    exact afterLayout_of_stops (by simp [isLayout])
  let inner : List Char := t ++ '\n' :: ((ls.map (margin indent ++ ·)).flatMap (· ++ ['\n']) ++
    (margin indent ++ (last ++ '\n' :: close)))
  have htext : afterLayout (itemsFrom indent [blockText (('.' :: t) :: ls) last] rest) =
      '.' :: inner :=
    afterLayout_blockText hindent hblock ('\n' :: close)
  have hread : blockReader ".end subannotation" ('.' :: inner) =
      .ok (blockText (('.' :: t) :: ls) last, close) :=
    blockReader_indented hblock hmargin hmargin close
  have hstart : startsWith ".subannotation" ('.' :: inner) = true :=
    startsWith_append_of_startsWith hfirst _
  have hitem : Reader.orElse stringItemReader otherItemReader ('.' :: inner) =
      .ok (blockText (('.' :: t) :: ls) last, close) := by
    rw [Reader.orElse_of_fails (stringItemReader_fails (by decide) (by decide)), otherItemReader,
      if_pos hstart, hread]
  have hcomma : (Reader.inLayout (Reader.literal ",")).Fails close := by
    refine Reader.Fails.inLayout ?_
    rw [hclose]
    exact Reader.literal_fails rfl
  rw [htext]
  refine ⟨'.', inner, close, rfl, closingBrace_fails (by decide) (by decide),
    Reader.bind_ok hitem (Reader.bind_ok (Reader.optional_of_fails hcomma) rfl), ?_,
    fun h => absurd rfl h⟩
  rw [hclose, itemsFrom, afterLayout_arrayEnd hindent]

/-- A legible item is read as itself, and the reader stands at the next one. -/
theorem itemReader_itemsFrom {item : String} {items : List String} {rest : List Char}
    (h : ItemLegible item items (itemsBehind indent items rest)) :
    ∃ c s u, afterLayout (itemsFrom indent (item :: items) rest) = c :: s ∧
      closingBrace.Fails (c :: s) ∧ itemReader (c :: s) = .ok (item, u) ∧
      StandsAt indent items rest u := by
  obtain ⟨hliteral, hmem⟩ | ⟨hplain, hne, hstart, hfails⟩ | ⟨hblock, rfl⟩ := h
  · exact itemReader_literal hindent items rest hliteral hmem
  · exact itemReader_plain hindent items rest hplain hne hstart hfails
  · exact itemReader_block hindent hblock rest

/-- The items of an array are read as themselves, down to the brace that ends it, if all of them are
legible. -/
theorem manyTill_itemsFrom {items : List String} {rest u : List Char} (start : List Char)
    (hitems : ItemsLegible indent rest items) (hu : StandsAt indent items rest u) :
    Reader.manyTill closingBrace itemReader progresses_itemReader start u =
      .ok ((items, ()), afterLayout ('\n' :: rest)) := by
  induction items generalizing u with
  | nil =>
    refine Reader.manyTill_of_stop (Reader.inLayout_of_ok ?_)
    rw [hu.1, itemsFrom, afterLayout_arrayEnd hindent]
    exact Reader.literal_append "\x7d" _
  | cons item items ih =>
    obtain ⟨hitem, hrest⟩ := hitems
    obtain ⟨c, s, v, htext, hopen, hread, hv⟩ := itemReader_itemsFrom hindent hitem
    rw [← hu.2 (by simp), hu.1, htext]
    exact Reader.manyTill_cons hopen hread (ih hrest hv)

end Legible

end ElementValue

end GatedCalls
