import Mathlib.Data.List.TakeWhile
import GatedCalls.Text.Alphanumeric
import GatedCalls.Text.Reader.Basic

/-!
# Runs, trimmed texts and lines

Where the characters of a run end is told by the character behind them: `Stops` says that a run
cannot go on into a text. A text is trimmed exactly if neither its first nor its last character is
blank, and in line if it holds no line break.
-/

namespace GatedCalls.Text

/-- Whether a run of characters that satisfy the test cannot go on into the text. -/
def Stops (p : Char → Bool) (s : List Char) : Prop :=
  ∀ c ∈ s.head?, p c = false

variable {p : Char → Bool}

/-- Every run ends at the end of the text. -/
@[simp] theorem stops_nil : Stops p [] := by
  simp [Stops]

/-- A run ends at a character that does not satisfy the test. -/
@[simp] theorem stops_cons {c : Char} {s : List Char} : Stops p (c :: s) ↔ p c = false := by
  simp [Stops]

/-- A run cannot go on into a text whose beginning stops it. -/
theorem Stops.append {s : List Char} (hs : s ≠ []) (h : Stops p s) (t : List Char) :
    Stops p (s ++ t) := by
  obtain ⟨c, s, rfl⟩ := List.exists_cons_of_ne_nil hs
  simpa using h

/-- The run in front of a text that stops it. -/
theorem takeWhile_append_of_stops {cs rest : List Char} (h : ∀ c ∈ cs, p c = true)
    (hrest : Stops p rest) : (cs ++ rest).takeWhile p = cs := by
  rw [List.takeWhile_append_of_pos h]
  cases rest with
  | nil => simp
  | cons c rest => simp [stops_cons.mp hrest]

/-- A run does not go on into a text that stops it. -/
theorem takeWhile_append_left {s t : List Char} (h : Stops p t) :
    (s ++ t).takeWhile p = s.takeWhile p := by
  induction s with
  | nil => exact takeWhile_append_of_stops nofun h
  | cons c s ih => rw [List.cons_append, List.takeWhile_cons, List.takeWhile_cons, ih]

/-- A run ends within a text that has a character of another kind. -/
theorem takeWhile_append_of_mem {s : List Char} {c : Char} (hmem : c ∈ s) (hc : p c = false)
    (t : List Char) : (s ++ t).takeWhile p = s.takeWhile p := by
  rw [List.takeWhile_append, if_neg]
  intro hlength
  have hall := List.takeWhile_eq_self_iff.mp ((List.takeWhile_prefix p).eq_of_length hlength)
  rw [hall c hmem] at hc
  cases hc

/-- What is behind a run in front of a text that stops it. -/
theorem dropWhile_append_of_stops {cs rest : List Char} (h : ∀ c ∈ cs, p c = true)
    (hrest : Stops p rest) : (cs ++ rest).dropWhile p = rest := by
  rw [List.dropWhile_append_of_pos h]
  cases rest with
  | nil => simp
  | cons c rest => simp [stops_cons.mp hrest]

/-- No run is taken off a text that stops it. -/
theorem dropWhile_of_stops {s : List Char} (h : Stops p s) : s.dropWhile p = s := by
  have hdrop : ([] ++ s).dropWhile p = s := dropWhile_append_of_stops nofun h
  exact hdrop

/-- What is behind a run stops it. -/
theorem stops_dropWhile (p : Char → Bool) (s : List Char) : Stops p (s.dropWhile p) := by
  induction s with
  | nil => simp
  | cons c s ih =>
    cases hc : p c with
    | true => simpa [hc] using ih
    | false => simp [hc]

/-- No run ends a text that stops it from behind. -/
theorem eq_nil_of_stops_reverse {s cs : List Char} (h : Stops p (s ++ cs).reverse)
    (hcs : ∀ c ∈ cs, p c = true) : cs = [] := by
  obtain rfl | ⟨cs, c, rfl⟩ := List.eq_nil_or_concat cs
  · rfl
  · have hc : p c = false := h c (by simp)
    rw [hcs c (by simp)] at hc
    cases hc

/-! ### Beginnings -/

/-- A text begins with another one if it is that one followed by something. -/
theorem startsWith_iff {beginning : String} {s : List Char} :
    startsWith beginning s = true ↔ ∃ t, s = beginning.toList ++ t := by
  rw [startsWith, List.isPrefixOf_iff_prefix]
  exact exists_congr fun t => eq_comm

/-- A text begins with its beginning. -/
theorem startsWith_append (beginning : String) (t : List Char) :
    startsWith beginning (beginning.toList ++ t) = true :=
  startsWith_iff.mpr ⟨t, rfl⟩

/-- What stands behind a text leaves its beginning as it is. -/
theorem startsWith_append_of_startsWith {word : String} {s : List Char}
    (h : startsWith word s = true) (t : List Char) : startsWith word (s ++ t) = true := by
  obtain ⟨u, rfl⟩ := startsWith_iff.mp h
  rw [List.append_assoc]
  exact startsWith_append word (u ++ t)

/-- What a longer text does not begin with, no beginning of it begins with. -/
theorem startsWith_eq_false_of_append {word : String} {s t : List Char}
    (h : startsWith word (s ++ t) = false) : startsWith word s = false := by
  cases hs : startsWith word s with
  | false => rfl
  | true =>
    rw [startsWith_append_of_startsWith hs] at h
    cases h

/-- A text that begins with a word begins with its first character. -/
theorem exists_cons_of_startsWith {word : String} {w : Char} {ws s : List Char}
    (hword : word.toList = w :: ws) (h : startsWith word s = true) : ∃ t, s = w :: t := by
  obtain ⟨t, rfl⟩ := startsWith_iff.mp h
  exact ⟨ws ++ t, by rw [hword]; rfl⟩

/-- A text that begins with another character does not begin with the word. -/
theorem startsWith_eq_false {word : String} {w c : Char} {ws s : List Char}
    (hword : word.toList = w :: ws) (hne : c ≠ w) : startsWith word (c :: s) = false := by
  simp [startsWith, hword, List.isPrefixOf, hne.symm]

/-- A text that stops the characters of a word does not complete it. -/
theorem startsWith_append_eq_false {word : String} {s t : List Char}
    (hword : ∀ c ∈ word.toList, p c = true) (hs : startsWith word s = false) (ht : Stops p t) :
    startsWith word (s ++ t) = false := by
  cases h : startsWith word (s ++ t) with
  | false => rfl
  | true =>
    have hpre : word.toList <+: s ++ t := List.isPrefixOf_iff_prefix.mp h
    obtain hin | ⟨w, hw⟩ := List.prefix_or_prefix_of_prefix hpre (List.prefix_append s t)
    · rw [startsWith, List.isPrefixOf_iff_prefix.mpr hin] at hs
      cases hs
    · -- The word goes on behind `s`, with a character that cannot stand there.
      rw [← hw, List.prefix_append_right_inj] at hpre
      cases w with
      | nil =>
        rw [List.append_nil] at hw
        rw [startsWith, ← hw, List.isPrefixOf_iff_prefix.mpr List.prefix_rfl] at hs
        cases hs
      | cons c w =>
        obtain ⟨u, rfl⟩ := hpre
        have hc : p c = true := hword c (by rw [← hw]; simp)
        rw [List.cons_append, stops_cons, hc] at ht
        cases ht

/-! ### Layout -/

/-- What is left of a text behind its first spaces, tabs and line breaks. -/
def afterLayout (s : List Char) : List Char :=
  s.dropWhile isLayout

/-- Layout in front does not count. -/
theorem afterLayout_append {ws : List Char} (h : ∀ c ∈ ws, isLayout c = true) (s : List Char) :
    afterLayout (ws ++ s) = afterLayout s :=
  List.dropWhile_append_of_pos h

/-- One character of layout in front does not count. -/
theorem afterLayout_cons {c : Char} (h : isLayout c = true) (s : List Char) :
    afterLayout (c :: s) = afterLayout s := by
  simp [afterLayout, h]

/-- A text that begins with something else has no layout in front. -/
theorem afterLayout_of_stops {s : List Char} (h : Stops isLayout s) : afterLayout s = s :=
  dropWhile_of_stops h

/-- Behind layout there is none. -/
theorem stops_afterLayout (s : List Char) : Stops isLayout (afterLayout s) :=
  stops_dropWhile isLayout s

/-- Behind layout there is none to pass over. -/
@[simp] theorem afterLayout_afterLayout (s : List Char) :
    afterLayout (afterLayout s) = afterLayout s :=
  afterLayout_of_stops (stops_afterLayout s)

/-- A character that is not blank is no layout. -/
theorem isLayout_eq_false {c : Char} (h : isBlank c = false) : isLayout c = false := by
  cases hc : isLayout c with
  | false => rfl
  | true => rw [isBlank_of_isLayout hc] at h; cases h

/-- A character that is no layout is no space. -/
theorem isSpace_eq_false {c : Char} (h : isLayout c = false) : isSpace c = false := by
  cases hc : isSpace c with
  | false => rfl
  | true => rw [isLayout_of_isSpace hc] at h; cases h

/-- What layout does not go on into, spaces do not. -/
theorem Stops.isSpace {s : List Char} (h : Stops isLayout s) : Stops isSpace s :=
  fun c hc => isSpace_eq_false (h c hc)

/-- What blanks do not go on into, layout does not. -/
theorem Stops.isLayout {s : List Char} (h : Stops isBlank s) : Stops isLayout s :=
  fun c hc => isLayout_eq_false (h c hc)

/-! ### Trimmed texts -/

/-- Whether a text has no blank at either end. -/
def IsTrimmed (s : List Char) : Prop :=
  trim s = s

instance (s : List Char) : Decidable (IsTrimmed s) :=
  inferInstanceAs (Decidable (trim s = s))

/-- What begins without a blank is left by trimming in front. -/
theorem trimStart_of_stops {s : List Char} (h : Stops isBlank s) : trimStart s = s :=
  dropWhile_of_stops h

/-- What ends without a blank is left by trimming at the end. -/
theorem trimEnd_of_stops {s : List Char} (h : Stops isBlank s.reverse) : trimEnd s = s := by
  rw [trimEnd, dropWhile_of_stops h, List.reverse_reverse]

/-- Behind trimming at the end no blank ends the text. -/
theorem stops_trimEnd (s : List Char) : Stops isBlank (trimEnd s).reverse := by
  rw [trimEnd, List.reverse_reverse]
  exact stops_dropWhile isBlank s.reverse

/-- Trimming at the end leaves a beginning that is not blank. -/
theorem stops_trimEnd_of_stops {s : List Char} (h : Stops isBlank s) :
    Stops isBlank (trimEnd s) := by
  obtain ⟨t, ht⟩ := trimEnd_isPrefix s
  cases hs : trimEnd s with
  | nil => simp
  | cons c u =>
    rw [hs] at ht
    rw [← ht] at h
    simpa using h

/-- A text is trimmed exactly if it neither begins nor ends with a blank. -/
theorem isTrimmed_iff {s : List Char} :
    IsTrimmed s ↔ Stops isBlank s ∧ Stops isBlank s.reverse := by
  constructor
  · intro h
    have hstart : Stops isBlank (trim s) :=
      stops_trimEnd_of_stops (stops_dropWhile isBlank s)
    have hend : Stops isBlank (trim s).reverse := stops_trimEnd (trimStart s)
    rw [h] at hstart hend
    exact ⟨hstart, hend⟩
  · rintro ⟨hstart, hend⟩
    unfold IsTrimmed trim
    rw [trimStart_of_stops hstart, trimEnd_of_stops hend]

/-- What has been trimmed is trimmed. -/
theorem isTrimmed_trim (s : List Char) : IsTrimmed (trim s) :=
  isTrimmed_iff.mpr ⟨stops_trimEnd_of_stops (stops_dropWhile isBlank s), stops_trimEnd (trimStart s)⟩

/-- A trimmed text begins without a blank. -/
theorem IsTrimmed.stops {s : List Char} (h : IsTrimmed s) : Stops isBlank s :=
  (isTrimmed_iff.mp h).1

/-- A trimmed text begins without a space in front of another character, also if it is empty. -/
theorem IsTrimmed.stops_isSpace {s : List Char} (h : IsTrimmed s) {c : Char} (hc : isSpace c = false)
    (t : List Char) : Stops isSpace (s ++ c :: t) := by
  cases s with
  | nil => exact stops_cons.mpr hc
  | cons d s => exact h.stops.isLayout.isSpace.append (List.cons_ne_nil d s) _

/-- A text without blanks is trimmed. -/
theorem isTrimmed_of_forall {s : List Char} (h : ∀ c ∈ s, isBlank c = false) : IsTrimmed s := by
  refine isTrimmed_iff.mpr ⟨fun c hc => h c (List.mem_of_mem_head? hc), fun c hc => h c ?_⟩
  exact List.mem_reverse.mp (List.mem_of_mem_head? hc)

/-- No spaces end a trimmed text. -/
theorem IsTrimmed.eq_nil_of_isSpace {s u : List Char} (h : IsTrimmed (s ++ u))
    (hu : ∀ c ∈ u, isSpace c = true) : u = [] :=
  eq_nil_of_stops_reverse (isTrimmed_iff.mp h).2 fun c hc =>
    isBlank_of_isLayout (isLayout_of_isSpace (hu c hc))

/-- Blanks in front do not count in trimming. -/
theorem trim_append {ws : List Char} (h : ∀ c ∈ ws, isBlank c = true) (s : List Char) :
    trim (ws ++ s) = trim s := by
  unfold trim trimStart
  rw [List.dropWhile_append_of_pos h]

/-- Trimming at the end leaves a beginning that does not end with a blank. -/
theorem exists_trimEnd_append {s : List Char} (h : Stops isBlank s.reverse) (t : List Char) :
    ∃ z, trimEnd (s ++ t) = s ++ z := by
  rw [trimEnd, List.reverse_append, List.dropWhile_append]
  split
  · exact ⟨[], by rw [dropWhile_of_stops h, List.reverse_reverse, List.append_nil]⟩
  · exact ⟨(t.reverse.dropWhile isBlank).reverse, by rw [List.reverse_append, List.reverse_reverse]⟩

/-- Blanks behind a text do not count in trimming. -/
theorem trim_append_of_isBlank {ws : List Char} (h : ∀ c ∈ ws, isBlank c = true) (s : List Char) :
    trim (s ++ ws) = trim s := by
  have hend (u : List Char) : trimEnd (u ++ ws) = trimEnd u := by
    rw [trimEnd, List.reverse_append, List.dropWhile_append_of_pos
      (fun c hc => h c (List.mem_reverse.mp hc)), trimEnd]
  rw [trim, trimStart, List.dropWhile_append]
  split
  · next hnil =>
    have hs : trimStart s = [] := List.isEmpty_iff.mp hnil
    have hws : ws.dropWhile isBlank = [] := List.dropWhile_eq_nil_iff.mpr h
    rw [hws, trim, hs]
  · rw [hend]
    rfl

/-- A text that begins without a blank is what is left of it by trimming, and blanks. -/
theorem exists_eq_trim_append {s : List Char} (h : Stops isBlank s) :
    ∃ ws, (∀ c ∈ ws, isBlank c = true) ∧ s = trim s ++ ws := by
  refine ⟨(s.reverse.takeWhile isBlank).reverse, fun c hc => ?_, ?_⟩
  · exact List.all_eq_true.mp List.all_takeWhile c (List.mem_reverse.mp hc)
  · rw [trim, trimStart_of_stops h, trimEnd, ← List.reverse_append, List.takeWhile_append_dropWhile,
      List.reverse_reverse]

/-- Trimming leaves a beginning that is trimmed, and some of what stands behind it. -/
theorem exists_trim_append {s : List Char} (hs : IsTrimmed s) (hne : s ≠ []) (t : List Char) :
    ∃ z, z <+: t ∧ trim (s ++ t) = s ++ z := by
  obtain ⟨z, hz⟩ := exists_trimEnd_append (isTrimmed_iff.mp hs).2 t
  have htrim : trim (s ++ t) = s ++ z := by
    rw [trim, trimStart_of_stops (hs.stops.append hne t), hz]
  have hprefix : s ++ z <+: s ++ t := hz ▸ trimEnd_isPrefix (s ++ t)
  exact ⟨z, (List.prefix_append_right_inj s).mp hprefix, htrim⟩

/-- A beginning of a text that stops a run stops it. -/
theorem Stops.of_isPrefix {s t : List Char} (h : Stops p t) (hs : s <+: t) : Stops p s := by
  obtain ⟨u, rfl⟩ := hs
  cases s with
  | nil => exact stops_nil
  | cons c s => exact stops_cons.mpr (stops_cons.mp h)

/-- Blanks behind a text do not complete a word that ends without a blank. -/
theorem startsWith_append_of_isBlank {word : String} (hword : Stops isBlank word.toList.reverse)
    {ws : List Char} (h : ∀ c ∈ ws, isBlank c = true) {s : List Char}
    (hs : startsWith word s = false) : startsWith word (s ++ ws) = false := by
  rw [← Bool.not_eq_true, startsWith_iff] at hs ⊢
  rintro ⟨t, ht⟩
  obtain ⟨u, hu⟩ | ⟨u, hu⟩ := List.prefix_or_prefix_of_prefix ⟨t, ht.symm⟩ (List.prefix_append s ws)
  · exact hs ⟨u, hu.symm⟩
  · -- The word ends among the blanks.
    rw [← hu, List.append_assoc, List.append_cancel_left_eq] at ht
    rw [← hu] at hword
    obtain rfl := eq_nil_of_stops_reverse hword fun c hc =>
      h c (ht ▸ List.mem_append_left t hc)
    exact hs ⟨[], by rw [← hu, List.append_nil, List.append_nil]⟩

/-- A trimmed text is what is left of the text in its middle. -/
theorem trim_isInfix (s : List Char) : trim s <:+: s :=
  (trimEnd_isPrefix (trimStart s)).isInfix.trans (trimStart_suffix s).isInfix

/-- A character of a trimmed text is one of the text. -/
theorem mem_of_mem_trim {s : List Char} {c : Char} (h : c ∈ trim s) : c ∈ s :=
  (trim_isInfix s).subset h

/-! ### Letters and digits -/

/-- The code points of the blank characters. -/
def blankCodes : List Nat :=
  [0x20, 0x9, 0xa, 0xb, 0xc, 0xd, 0x85, 0xa0, 0x1680, 0x2000, 0x2001, 0x2002, 0x2003, 0x2004, 0x2005,
    0x2006, 0x2007, 0x2008, 0x2009, 0x200a, 0x2028, 0x2029, 0x202f, 0x205f, 0x3000]

/-- There are no further blank characters. -/
theorem toNat_mem_blankCodes {c : Char} (h : isBlank c = true) : c.toNat ∈ blankCodes := by
  simp only [isBlank, Bool.or_eq_true, Bool.and_eq_true, beq_iff_eq, decide_eq_true_eq, Char.le_def,
    UInt32.le_iff_toNat_le] at h
  have hval : c.toNat = c.val.toNat := rfl
  have key : ∀ n, (9 ≤ n ∧ n ≤ 13) ∨ (0x2000 ≤ n ∧ n ≤ 0x200a) → n ∈ blankCodes := by
    intro n hn
    simp only [blankCodes, List.mem_cons, List.not_mem_nil, or_false]
    omega
  rcases h with (((((((((rfl | h) | rfl) | rfl) | rfl) | h) | rfl) | rfl) | rfl) | rfl) | rfl
  · decide
  · exact key _ (.inl h)
  · decide
  · decide
  · decide
  · exact key _ (.inr h)
  all_goals decide

/-- No letter and no digit is blank. -/
theorem isBlank_eq_false_of_isAlphanumeric {c : Char} (h : isAlphanumeric c = true) :
    isBlank c = false := by
  cases hc : isBlank c with
  | false => rfl
  | true =>
    have hcodes : ∀ n ∈ blankCodes, isAlphanumeric (Char.ofNat n) = false := by
      decide +kernel
    have hfalse := hcodes c.toNat (toNat_mem_blankCodes hc)
    rw [Char.ofNat_toNat, h] at hfalse
    cases hfalse

/-- The digits of decimal numerals are digits. -/
theorem isAlphanumeric_of_isDigit {c : Char} (h : c.isDigit = true) : isAlphanumeric c = true := by
  have hlt : c.toNat < 128 := by
    simp only [Char.isDigit, Bool.and_eq_true, decide_eq_true_eq] at h
    exact Nat.lt_of_le_of_lt (UInt32.le_iff_toNat_le.mp h.2) (by decide)
  rw [isAlphanumeric_of_lt hlt, Char.isAlphanum, h, Bool.or_true]

/-! ### Texts in line -/

/-- Whether a text holds no line break. -/
def InLine (s : List Char) : Prop :=
  ∀ c ∈ s, Reader.isInLine c = true

instance (s : List Char) : Decidable (InLine s) :=
  decidable_of_iff (s.all Reader.isInLine = true) List.all_eq_true

/-- The empty text is in line. -/
@[simp] theorem inLine_nil : InLine [] := nofun

/-- A text is in line if all its characters are. -/
@[simp] theorem inLine_cons {c : Char} {s : List Char} :
    InLine (c :: s) ↔ Reader.isInLine c = true ∧ InLine s := by
  simp [InLine]

/-- Two texts are in line together if each is. -/
@[simp] theorem inLine_append {s t : List Char} : InLine (s ++ t) ↔ InLine s ∧ InLine t := by
  simp only [InLine, List.mem_append, or_imp, forall_and]

/-- A text that is not in line, but holds no line feed, is in line down to a carriage return. -/
theorem exists_of_not_inLine {s : List Char} (hfeed : '\n' ∉ s) (h : ¬InLine s) :
    ∃ x y, InLine x ∧ s = x ++ '\r' :: y := by
  have hsplit := (List.takeWhile_append_dropWhile (p := Reader.isInLine) (l := s)).symm
  have hstop := stops_dropWhile Reader.isInLine s
  have hin : InLine (s.takeWhile Reader.isInLine) :=
    fun c => List.all_eq_true.mp List.all_takeWhile c
  cases hrest : s.dropWhile Reader.isInLine with
  | nil =>
    rw [hrest, List.append_nil] at hsplit
    exact absurd (hsplit ▸ hin) h
  | cons c y =>
    rw [hrest] at hsplit hstop
    have hc : c ≠ '\n' := by
      rintro rfl
      exact hfeed (hsplit ▸ by simp)
    obtain rfl : c = '\r' := by simpa [Reader.isInLine, hc] using hstop
    exact ⟨_, y, hin, hsplit⟩

/-- A trimmed text in line. -/
theorem InLine.trim {s : List Char} (h : InLine s) : InLine (trim s) :=
  fun c hc => h c (mem_of_mem_trim hc)

/-- A character that is not blank breaks no line. -/
theorem isInLine_of_isBlank_eq_false {c : Char} (h : isBlank c = false) :
    Reader.isInLine c = true := by
  have hr : c ≠ '\r' := by rintro rfl; revert h; decide
  have hn : c ≠ '\n' := by rintro rfl; revert h; decide
  simp [Reader.isInLine, hr, hn]

/-- A word in line that does not begin the text of a line does not begin the line. -/
theorem startsWith_line {word : String} {x : List Char} (hword : InLine word.toList)
    (hx : startsWith word x = false) (rest : List Char) :
    startsWith word (x ++ '\n' :: rest) = false :=
  startsWith_append_eq_false hword hx (stops_cons.mpr (by decide))

/-- Whether a text breaks a line: a line feed, or a carriage return and a line feed. -/
def IsLineBreak (s : List Char) : Prop :=
  s = ['\n'] ∨ s = ['\r', '\n']

/-- A line break is layout. -/
theorem IsLineBreak.isLayout {s : List Char} (h : IsLineBreak s) : ∀ c ∈ s, isLayout c = true := by
  obtain rfl | rfl := h <;> exact List.all_eq_true.mp (by decide)

/-- A line break ends every text in line. -/
theorem IsLineBreak.stops {s : List Char} (h : IsLineBreak s) (t : List Char) :
    Stops Reader.isInLine (s ++ t) := by
  obtain rfl | rfl := h <;> exact stops_cons.mpr (by decide)

/-- A word in line that does not begin the text of a line does not begin the line, whatever its line
break. -/
theorem startsWith_append_lineBreak {word : String} {x lineBreak : List Char}
    (hword : InLine word.toList) (hx : startsWith word x = false) (hbreak : IsLineBreak lineBreak)
    (rest : List Char) : startsWith word (x ++ (lineBreak ++ rest)) = false :=
  startsWith_append_eq_false hword hx (hbreak.stops rest)

/-! ### Separators -/

/-- A list with separators is its first item and the others, each behind a separator. -/
theorem intercalate_cons (sep x : List Char) (xs : List (List Char)) :
    sep.intercalate (x :: xs) = x ++ xs.flatMap (sep ++ ·) := by
  induction xs generalizing x with
  | nil => simp [List.intercalate]
  | cons y xs ih =>
    rw [List.intercalate_cons_cons, ih, List.flatMap_cons, List.append_assoc, List.append_assoc]

end GatedCalls.Text
