import GatedCalls.Proofs.Text.Line
import GatedCalls.Proofs.Text.Reading
import GatedCalls.Smali.ElementReader

/-!
# Blocks of lines are read as they are printed

A block is its lines down to the first one that closes it. What is read of a block does not depend
on how far its lines are set in, and is a list of trimmed lines that are not blank, of which exactly
the last one closes it.
-/

namespace GatedCalls

open Text

/-- Whether the lines, trimmed and in line, make up a block: the last one begins with `closing`, and
it is the first one that does. -/
structure IsBlock (closing : String) (ls : List (List Char)) (last : List Char) : Prop where
  /-- No line in front of the last one is empty or closes the block. -/
  inner : ∀ l ∈ ls, l ≠ [] ∧ IsTrimmed l ∧ InLine l ∧ startsWith closing l = false
  last_trimmed : IsTrimmed last
  last_inLine : InLine last
  last_closes : startsWith closing last = true

/-- The lines of a block as one text. -/
def blockText (ls : List (List Char)) (last : List Char) : String :=
  joinLines ((ls ++ [last]).map String.ofList)

/-- The text of a block is taken apart into its lines. -/
theorem lines_blockText {closing : String} {ls : List (List Char)} {last : List Char}
    (h : IsBlock closing ls last) (hclosing : closing.toList ≠ []) :
    lines (blockText ls last).toList = ls ++ [last] := by
  rw [blockText, toList_joinLines]
  refine lines_intercalate (fun l hl => ?_) ?_
  · obtain hl | hl := List.mem_append.mp hl
    · exact (h.inner l hl).2.2.1
    · rw [List.mem_singleton.mp hl]
      exact h.last_inLine
  · obtain ⟨t, ht⟩ := startsWith_iff.mp h.last_closes
    simp [ht, hclosing]

namespace blockReader

variable {closing : String} {s t x rest : List Char}

/-- A line that closes the block is taken, trimmed. -/
theorem closingLine_append {lineBreak : List Char} (hx : InLine x) (hbreak : IsLineBreak lineBreak)
    (hcloses : startsWith closing (trim x) = true) (rest : List Char) :
    closingLine closing (x ++ (lineBreak ++ rest)) = .ok (trim x, rest) := by
  refine Reader.bind_ok (Reader.line_append_lineBreak hx hbreak rest) ?_
  rw [if_pos hcloses]
  rfl

/-- Another line does not close the block. -/
theorem closingLine_fails {u : List Char} (hline : Reader.line s = .ok (x, u))
    (hopen : startsWith closing (trim x) = false) : (closingLine closing).Fails s := by
  refine Reader.Fails.bind_of_ok hline ?_
  rw [if_neg (by simp [hopen])]
  exact ⟨_, rfl⟩

/-- The line that closes a block. -/
theorem closingLine_eq_ok {last : List Char} (h : closingLine closing s = .ok (last, t)) :
    ∃ x, Reader.line s = .ok (x, t) ∧ last = trim x ∧ startsWith closing (trim x) = true := by
  obtain ⟨x, u, hline, h⟩ := Reader.bind_eq_ok.mp h
  cases hcloses : startsWith closing (trim x) with
  | false =>
    rw [hcloses] at h
    cases h
  | true =>
    rw [hcloses, if_pos rfl] at h
    obtain ⟨rfl, rfl⟩ := Reader.pure_eq_ok.mp h
    exact ⟨x, hline, rfl, hcloses⟩

/-- Lines that do not close the block are passed, whatever their line breaks, on the way to the one
that does. -/
theorem manyTill_lined {ls : List (List Char)} {last start : List Char} (h : Lined ls s)
    (hls : ∀ l ∈ ls, InLine l ∧ startsWith closing (trim l) = false)
    (hend : closingLine closing t = .ok (last, rest)) :
    Reader.manyTill (closingLine closing) Reader.line Reader.progresses_line start (s ++ t) =
      .ok ((ls, last), rest) := by
  induction h with
  | nil => exact Reader.manyTill_of_stop hend
  | cons hl _ ih =>
    obtain ⟨hin, hopen⟩ := hls _ List.mem_cons_self
    have hline := Reader.line_append_lineBreak hin hl.isLineBreak
    rw [List.append_assoc, List.append_assoc]
    exact Reader.manyTill_cons (closingLine_fails (hline _) hopen) (hline _)
      (ih fun l' hl' => hls l' (List.mem_cons_of_mem _ hl'))

/-- A line with a carriage return in it is not read as a line. -/
theorem line_fails {l lineBreak : List Char} (h : EndsLine lineBreak l) (hl : ¬InLine l)
    (behind : List Char) : Reader.line.Fails (l ++ (lineBreak ++ behind)) := by
  obtain ⟨hbreak, hmem, hlast⟩ := h
  -- The line breaks off in front of its first carriage return, with no line feed behind that.
  obtain ⟨x, y, hin, rfl⟩ := exists_of_not_inLine hmem hl
  have hnext : ∀ z, y ++ (lineBreak ++ behind) ≠ '\n' :: z := by
    intro z hz
    cases y with
    | nil =>
      obtain rfl | rfl := hbreak
      · exact hlast rfl (by simp)
      · simp at hz
    | cons d y =>
      obtain ⟨rfl, -⟩ := List.cons.inj hz
      exact hmem (by simp)
  rw [List.append_assoc, List.cons_append]
  obtain ⟨e, he⟩ : Reader.restOfLine.Fails (x ++ '\r' :: (y ++ (lineBreak ++ behind))) :=
    (Reader.lineText_fails hin hnext).bind
  have hne : (x ++ '\r' :: (y ++ (lineBreak ++ behind))).isEmpty = false := by simp
  exact ⟨e, by rw [Reader.line, hne, if_neg (by decide), he]⟩

/-- Lines that cannot be read are not passed. -/
theorem manyTill_fails {ls : List (List Char)} {start : List Char} (h : Lined ls s)
    (hopen : ∀ l ∈ ls, startsWith closing (trim l) = false) (hbroken : ∃ l ∈ ls, ¬InLine l)
    (t : List Char) :
    ∃ e, Reader.manyTill (closingLine closing) Reader.line Reader.progresses_line start (s ++ t) =
      .error e := by
  induction h with
  | nil =>
    obtain ⟨l, hl, -⟩ := hbroken
    cases hl
  | @cons l lineBreak s ls hl _ ih =>
    rw [List.append_assoc, List.append_assoc]
    by_cases hin : InLine l
    · have hline := Reader.line_append_lineBreak hin hl.isLineBreak (s ++ t)
      obtain ⟨l', hl', hbroken⟩ := hbroken
      obtain rfl | hl' := List.mem_cons.mp hl'
      · exact absurd hin hbroken
      · obtain ⟨e, he⟩ := ih (fun l hl => hopen l (List.mem_cons_of_mem _ hl)) ⟨l', hl', hbroken⟩
        obtain ⟨e', he'⟩ := closingLine_fails hline (hopen l List.mem_cons_self)
        exact ⟨e, by rw [Reader.manyTill_of_ok he' hline, he]⟩
    · obtain ⟨e, he⟩ := line_fails hl hin (s ++ t)
      obtain ⟨e', he'⟩ : (closingLine closing).Fails (l ++ (lineBreak ++ (s ++ t))) :=
        Reader.Fails.bind ⟨e, he⟩
      have hne : l ++ (lineBreak ++ (s ++ t)) ≠ [] := by
        obtain rfl | rfl := hl.isLineBreak <;> simp
      exact ⟨e, Reader.manyTill_of_error he' hne he⟩

/-- The lines that have been passed, and the one that closes the block. -/
theorem manyTill_eq_ok {raws : List (List Char)} {last start : List Char}
    (h : Reader.manyTill (closingLine closing) Reader.line Reader.progresses_line start s =
      .ok ((raws, last), t)) :
    (∀ x ∈ raws, InLine x ∧ startsWith closing (trim x) = false) ∧
      IsTrimmed last ∧ InLine last ∧ startsWith closing last = true := by
  induction raws generalizing s with
  | nil =>
    obtain ⟨-, hstop⟩ | ⟨-, _, _, _, hnil, -⟩ := Reader.manyTill_eq_ok h
    · obtain ⟨x, hline, rfl, hcloses⟩ := closingLine_eq_ok hstop
      exact ⟨nofun, isTrimmed_trim x,
        (Reader.inLine_of_restOfLine (Reader.restOfLine_of_line hline)).trim, hcloses⟩
    · cases hnil
  | cons x raws ih =>
    obtain ⟨hnil, -⟩ | ⟨hfails, x', u, raws', heq, hline, hrest⟩ := Reader.manyTill_eq_ok h
    · cases hnil
    · obtain ⟨rfl, rfl⟩ := List.cons.inj heq
      obtain ⟨hraws, hlast⟩ := ih hrest
      -- A line that closes the block would have ended it.
      have hopen : startsWith closing (trim x) = false := by
        cases hcloses : startsWith closing (trim x) with
        | false => rfl
        | true =>
          have hok : closingLine closing s = .ok (trim x, u) := by
            refine Reader.bind_ok hline ?_
            rw [if_pos hcloses]
            rfl
          exact absurd hfails (Reader.not_fails_of_ok hok)
      refine ⟨fun y hy => ?_, hlast⟩
      obtain rfl | hy := List.mem_cons.mp hy
      · exact ⟨Reader.inLine_of_restOfLine (Reader.restOfLine_of_line hline), hopen⟩
      · exact hraws y hy

end blockReader

/-- A block is read off its lines, whatever their line breaks. Lines that are blank are left out. -/
theorem blockReader_lined {closing : String} {ls : List (List Char)} {s last lineBreak : List Char}
    (h : Lined ls s) (hls : ∀ l ∈ ls, InLine l ∧ startsWith closing (trim l) = false)
    (hlast : InLine last) (hbreak : IsLineBreak lineBreak)
    (hcloses : startsWith closing (trim last) = true) (rest : List Char) :
    blockReader closing (s ++ (last ++ (lineBreak ++ rest))) =
      .ok (blockText ((ls.map trim).filter (! ·.isEmpty)) (trim last), rest) := by
  have hend := blockReader.closingLine_append hlast hbreak hcloses rest
  unfold blockReader
  rw [blockReader.manyTill_lined h hls hend]
  rfl

/-- A block is not read if one of its lines has a carriage return in it. -/
theorem blockReader_fails {closing : String} {ls : List (List Char)} {s : List Char}
    (h : Lined ls s) (hopen : ∀ l ∈ ls, startsWith closing (trim l) = false)
    (hbroken : ∃ l ∈ ls, ¬InLine l) (t : List Char) : (blockReader closing).Fails (s ++ t) := by
  obtain ⟨e, he⟩ : ∃ e, Reader.manyTill (blockReader.closingLine closing) Reader.line
      Reader.progresses_line (s ++ t) (s ++ t) = .error e :=
    blockReader.manyTill_fails h hopen hbroken t
  exact ⟨e, by unfold blockReader; rw [he]⟩

/-- A block is read off its lines, however far they are set in. -/
theorem blockReader_append {closing : String} {raws ls : List (List Char)}
    {lastRaw last : List Char} (h : IsBlock closing ls last) (hraws : raws.map trim = ls)
    (hin : ∀ x ∈ raws, InLine x) (hlast : trim lastRaw = last) (hlastIn : InLine lastRaw)
    (rest : List Char) :
    blockReader closing (raws.flatMap (· ++ ['\n']) ++ (lastRaw ++ '\n' :: rest)) =
      .ok (blockText ls last, rest) := by
  subst hraws hlast
  have hopen : ∀ x ∈ raws, InLine x ∧ startsWith closing (trim x) = false := fun x hx =>
    ⟨hin x hx, (h.inner (trim x) (List.mem_map_of_mem hx)).2.2.2⟩
  have hfilter : (raws.map trim).filter (! ·.isEmpty) = raws.map trim := by
    refine List.filter_eq_self.mpr fun l hl => ?_
    simpa using (h.inner l hl).1
  have hread := blockReader_lined (lined_flatMap hin) hopen hlastIn (.inl rfl) h.last_closes rest
  rwa [hfilter] at hread

/-- Blanks in front of a line do not count. -/
theorem trim_pad {pad l : List Char} (hpad : ∀ c ∈ pad, c = ' ') (hl : IsTrimmed l) :
    trim (pad ++ l) = l := by
  have hblank : ∀ c ∈ pad, isBlank c = true := by
    intro c hc
    rw [hpad c hc]
    rfl
  rw [trim_append hblank, hl]

/-- Blanks in front of a line leave it a line. -/
theorem inLine_pad {pad l : List Char} (hpad : ∀ c ∈ pad, c = ' ') (hl : InLine l) :
    InLine (pad ++ l) := by
  refine inLine_append.mpr ⟨fun c hc => ?_, hl⟩
  rw [hpad c hc]
  rfl

/-- A block is read off its lines with the first one bare and the others set in. -/
theorem blockReader_indented {closing : String} {first last pad padLast : List Char}
    {ls : List (List Char)} (h : IsBlock closing (first :: ls) last) (hpad : ∀ c ∈ pad, c = ' ')
    (hpadLast : ∀ c ∈ padLast, c = ' ') (rest : List Char) :
    blockReader closing (first ++ '\n' :: ((ls.map (pad ++ ·)).flatMap (· ++ ['\n']) ++
      (padLast ++ (last ++ '\n' :: rest)))) = .ok (blockText (first :: ls) last, rest) := by
  obtain ⟨-, hfirst, hfirstIn, -⟩ := h.inner first List.mem_cons_self
  have hraws : (first :: ls.map (pad ++ ·)).map trim = first :: ls := by
    rw [List.map_cons, List.map_map, hfirst]
    have hls : ls.map (trim ∘ (pad ++ ·)) = ls.map id :=
      List.map_congr_left fun l hl =>
        trim_pad hpad (h.inner l (List.mem_cons_of_mem first hl)).2.1
    rw [hls, List.map_id]
  have hin : ∀ x ∈ first :: ls.map (pad ++ ·), InLine x := by
    intro x hx
    obtain rfl | hx := List.mem_cons.mp hx
    · exact hfirstIn
    · obtain ⟨l, hl, rfl⟩ := List.mem_map.mp hx
      exact inLine_pad hpad (h.inner l (List.mem_cons_of_mem first hl)).2.2.1
  have hread := blockReader_append h hraws hin (trim_pad hpadLast h.last_trimmed)
    (inLine_pad hpadLast h.last_inLine) rest
  simpa using hread

/-- What has been read as a block is one. It begins with the first line of the text unless that one
is blank or closes the block. -/
theorem blockReader_eq_ok {closing : String} {s t : List Char} {text : String}
    (h : blockReader closing s = .ok (text, t)) :
    ∃ ls last, IsBlock closing ls last ∧ text = blockText ls last ∧
      ∃ x u, Reader.line s = .ok (x, u) ∧
        (trim x ≠ [] → startsWith closing (trim x) = false → ∃ ls', ls = trim x :: ls') := by
  unfold blockReader at h
  split at h
  · next raws last u hm =>
    obtain ⟨rfl, rfl⟩ := Prod.mk.inj (Except.ok.inj h)
    obtain ⟨hraws, htrimmed, hin, hcloses⟩ := blockReader.manyTill_eq_ok hm
    refine ⟨(raws.map trim).filter (! ·.isEmpty), last, ⟨fun l hl => ?_, htrimmed, hin, hcloses⟩, rfl,
      ?_⟩
    · obtain ⟨hl, hne⟩ := List.mem_filter.mp hl
      obtain ⟨x, hx, rfl⟩ := List.mem_map.mp hl
      exact ⟨by simpa using hne, isTrimmed_trim x, (hraws x hx).1.trim, (hraws x hx).2⟩
    · obtain ⟨-, hstop⟩ | ⟨-, x, v, raws', rfl, hline, -⟩ := Reader.manyTill_eq_ok hm
      · obtain ⟨x, hline, -, hcloses'⟩ := blockReader.closingLine_eq_ok hstop
        exact ⟨x, _, hline, fun _ hopen => absurd hcloses' (by simp [hopen])⟩
      · exact ⟨x, v, hline, fun hne _ => ⟨(raws'.map trim).filter (! ·.isEmpty), by simp [hne]⟩⟩
  · cases h

/-- A word in which no line breaks and at whose ends no blank stands begins the first line, trimmed,
of a text that begins with it. -/
theorem startsWith_trim_line {word : String} {s x u : List Char} (hne : word.toList ≠ [])
    (hword : InLine word.toList) (htrimmed : IsTrimmed word.toList) (hs : startsWith word s = true)
    (hline : Reader.line s = .ok (x, u)) : startsWith word (trim x) = true := by
  obtain ⟨t, rfl⟩ := startsWith_iff.mp hs
  obtain ⟨hstart, hend⟩ := isTrimmed_iff.mp htrimmed
  have hx : x = word.toList ++ t.takeWhile Reader.isInLine := by
    rw [Reader.eq_takeWhile_of_restOfLine (Reader.restOfLine_of_line hline),
      List.takeWhile_append_of_pos hword]
  obtain ⟨z, hz⟩ := exists_trimEnd_append hend (t.takeWhile Reader.isInLine)
  have htrim : trim x = word.toList ++ z := by
    rw [trim, hx, trimStart_of_stops (hstart.append hne _), hz]
  rw [htrim]
  exact startsWith_append word z

/-- Line feeds in front of the lines of a text are line feeds behind them. -/
theorem flatMap_lineFeed (f : List Char → List Char) (ls : List (List Char)) (rest : List Char) :
    ls.flatMap (fun l => '\n' :: f l) ++ '\n' :: rest =
      '\n' :: ((ls.map f).flatMap (· ++ ['\n']) ++ rest) := by
  induction ls with
  | nil => rfl
  | cons l ls ih => simp [ih]

end GatedCalls
