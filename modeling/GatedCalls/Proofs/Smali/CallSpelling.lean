import GatedCalls.Proofs.Smali.Instruction
import GatedCalls.Proofs.Text.Separated

/-!
# The spellings of a call

A call may have spaces and tabs behind its mnemonic, within the braces, around the dots of a range
and around commas. `Call.IsSpelled` says which texts spell a call; an instruction is read as a call
exactly off such a text, whatever stands behind it.
-/

namespace GatedCalls

open Text

/-! ### Registers -/

namespace Register

/-- The spellings of a register: a letter and digits, which may begin with zeros. -/
def IsSpelled (r : Register) (x : List Char) : Prop :=
  ∃ ds n, ds ≠ [] ∧ (∀ c ∈ ds, c.isDigit = true) ∧ digits? 10 ds = some n ∧ n < UInt16.size ∧
    (x = 'v' :: ds ∧ r = frame (UInt16.ofNat n) ∨ x = 'p' :: ds ∧ r = param (UInt16.ofNat n))

/-- The name of a register is a spelling of it. -/
theorem isSpelled_text (r : Register) : r.IsSpelled r.text.toList := by
  obtain ⟨c, n, hc, hn, htext, hr⟩ := r.toList_text
  refine ⟨(toString n).toList, n, toList_toString_ne_nil n, fun _ => isDigit_of_mem_toString,
    digits?_toString n, hn, ?_⟩
  obtain rfl | rfl := hc
  · exact .inl ⟨htext, hr⟩
  · exact .inr ⟨htext, hr⟩

/-- A spelling of a register begins without a space. -/
theorem IsSpelled.stops {r : Register} {x : List Char} (h : r.IsSpelled x) :
    x ≠ [] ∧ Stops isSpace x := by
  obtain ⟨ds, n, -, -, -, -, ⟨rfl, -⟩ | ⟨rfl, -⟩⟩ := h <;>
    exact ⟨List.cons_ne_nil _ _, stops_cons.mpr (by decide)⟩

/-- The number of a register is taken exactly off digits that denote it. -/
theorem numberReader_eq_ok {s t : List Char} {k : UInt16} :
    numberReader s = .ok (k, t) ↔ Stops Char.isDigit t ∧ ∃ ds n, ds ≠ [] ∧
      (∀ c ∈ ds, c.isDigit = true) ∧ digits? 10 ds = some n ∧ n < UInt16.size ∧
        k = UInt16.ofNat n ∧ s = ds ++ t := by
  constructor
  · intro h
    unfold numberReader at h
    split at h
    · next ds u hrun =>
      split at h
      · next n hdigits =>
        split at h
        · next hn =>
          obtain ⟨rfl, rfl⟩ := Prod.mk.inj (Except.ok.inj h)
          obtain ⟨hne, hs, hchars, hstop⟩ := Reader.run1_eq_ok' hrun
          exact ⟨hstop, ds, n, hne, hchars, hdigits, hn, rfl, hs⟩
        · cases h
      · cases h
    · cases h
  · rintro ⟨hstop, ds, n, hne, hchars, hdigits, hn, rfl, rfl⟩
    unfold numberReader
    rw [Reader.run1_append hne hchars hstop]
    simp only [hdigits, if_pos hn]

/-- A register is taken exactly off its spellings, in front of anything but a digit. -/
theorem takes_reader : reader.Takes IsSpelled Char.isDigit := by
  intro r s t
  constructor
  · intro h
    obtain ⟨kind, u, hkind, h⟩ := Reader.bind_eq_ok.mp h
    obtain ⟨k, v, hnumber, h⟩ := Reader.bind_eq_ok.mp h
    obtain ⟨hr, rfl⟩ := Reader.pure_eq_ok.mp h
    obtain ⟨rfl, hletter⟩ := Reader.satisfy_eq_ok hkind
    obtain ⟨hstop, ds, n, hne, hchars, hdigits, hn, rfl, rfl⟩ := numberReader_eq_ok.mp hnumber
    refine ⟨hstop, kind :: ds, ⟨ds, n, hne, hchars, hdigits, hn, ?_⟩, rfl⟩
    obtain rfl | rfl : kind = 'v' ∨ kind = 'p' := by simpa using hletter
    · exact .inl ⟨rfl, hr.symm⟩
    · exact .inr ⟨rfl, hr.symm⟩
  · rintro ⟨hstop, x, ⟨ds, n, hne, hchars, hdigits, hn, hx⟩, rfl⟩
    have hnumber : numberReader (ds ++ t) = .ok (UInt16.ofNat n, t) :=
      numberReader_eq_ok.mpr ⟨hstop, ds, n, hne, hchars, hdigits, hn, rfl, rfl⟩
    obtain ⟨rfl, rfl⟩ | ⟨rfl, rfl⟩ := hx
    · exact Reader.bind_ok (a := 'v') rfl (Reader.bind_ok hnumber rfl)
    · exact Reader.bind_ok (a := 'p') rfl (Reader.bind_ok hnumber rfl)

end Register

/-! ### Operands -/

namespace Operands

/-- The spellings of operands: registers in braces, with commas between them or with two dots
between the first and the last one, and gaps in front of and behind each of them. -/
inductive IsSpelled : Operands → List Char → Prop where
  | none {gap : List Char} (hgap : IsGap gap) : IsSpelled (list []) ('\x7b' :: (gap ++ ['\x7d']))
  | list {rs : List Register} {gap x gap' : List Char} (hgap : IsGap gap)
      (hx : Listed Register.IsSpelled rs x) (hgap' : IsGap gap') :
      IsSpelled (list rs) ('\x7b' :: (gap ++ (x ++ (gap' ++ ['\x7d']))))
  | range {first last : Register} {gap x gap₁ gap₂ y gap' : List Char} (hgap : IsGap gap)
      (hx : first.IsSpelled x) (hgap₁ : IsGap gap₁) (hgap₂ : IsGap gap₂) (hy : last.IsSpelled y)
      (hgap' : IsGap gap') :
      IsSpelled (range first last)
        ('\x7b' :: (gap ++ (x ++ (gap₁ ++ ('.' :: '.' :: (gap₂ ++ (y ++ (gap' ++ ['\x7d']))))))))

/-- The brace behind operands, with a gap in front of it. -/
theorem closing_eq_ok {o o' : Operands} {s t : List Char} :
    (do Reader.spaces; Reader.literal "\x7d"; return o : Reader Operands) s = .ok (o', t) ↔
      o = o' ∧ ∃ gap, IsGap gap ∧ s = gap ++ '\x7d' :: t := by
  constructor
  · intro h
    obtain ⟨_, u, hspaces, h⟩ := Reader.bind_eq_ok.mp h
    obtain ⟨_, v, hbrace, h⟩ := Reader.bind_eq_ok.mp h
    obtain ⟨rfl, rfl⟩ := Reader.pure_eq_ok.mp h
    obtain ⟨-, gap, hgap, rfl⟩ := Reader.spaces_eq_ok.mp hspaces
    exact ⟨rfl, gap, hgap, by rw [Reader.literal_eq_ok hbrace]; rfl⟩
  · rintro ⟨rfl, gap, hgap, rfl⟩
    have hspaces : Reader.spaces (gap ++ '\x7d' :: t) = .ok ((), '\x7d' :: t) :=
      Reader.spaces_eq_ok.mpr ⟨stops_cons.mpr (by decide), gap, hgap, rfl⟩
    exact Reader.bind_ok hspaces (Reader.bind_ok (Reader.literal_append "\x7d" t) rfl)

/-- No digit is a space or a comma. -/
theorem isDigit_eq_false (c : Char) (h : isSpace c = true ∨ c = ',') : c.isDigit = false := by
  simp only [isSpace, Bool.or_eq_true, beq_iff_eq] at h
  obtain (rfl | rfl) | rfl := h <;> decide

/-- A gap in front of the brace stops the digits of a register. -/
theorem stops_gap {gap : List Char} (hgap : IsGap gap) {c : Char} (hc : c.isDigit = false)
    (t : List Char) : Stops Char.isDigit (gap ++ c :: t) := by
  cases gap with
  | nil => exact stops_cons.mpr hc
  | cons d gap =>
    exact stops_cons.mpr (isDigit_eq_false d (.inl (hgap d List.mem_cons_self)))

/-- The registers of a list are taken exactly off their spellings. -/
theorem registersReader_eq_ok {s t : List Char} {rs : List Register} :
    Reader.sepBy Register.reader Register.progresses_reader Reader.comma Reader.forward_comma s =
        .ok (rs, t) ↔
      rs = [] ∧ Register.reader.Fails t ∧ s = t ∨
        Stops Char.isDigit t ∧ (Reader.further Register.reader).Fails t ∧
          ∃ x, Listed Register.IsSpelled rs x ∧ s = x ++ t :=
  Reader.sepBy_eq_ok Register.takes_reader (fun _ _ => Register.IsSpelled.stops) isDigit_eq_false

/-- A list of registers is taken exactly off its spellings. -/
theorem listReader_eq_ok {s t : List Char} {o : Operands} :
    listReader s = .ok (o, t) ↔ o.isRange = false ∧ ∃ x, o.IsSpelled x ∧ s = x ++ t := by
  constructor
  · intro h
    obtain ⟨_, s₁, hopen, h⟩ := Reader.bind_eq_ok.mp h
    obtain ⟨_, s₂, hspaces, h⟩ := Reader.bind_eq_ok.mp h
    obtain ⟨rs, s₃, hlist, h⟩ := Reader.bind_eq_ok.mp h
    obtain ⟨rfl, gap', hgap', rfl⟩ := closing_eq_ok.mp h
    obtain ⟨-, gap, hgap, rfl⟩ := Reader.spaces_eq_ok.mp hspaces
    refine ⟨rfl, ?_⟩
    rw [Reader.literal_eq_ok hopen]
    obtain ⟨rfl, -, rfl⟩ | ⟨-, -, x, hx, rfl⟩ := registersReader_eq_ok.mp hlist
    · have hgaps : IsGap (gap ++ gap') := by
        intro c hc
        exact (List.mem_append.mp hc).elim (hgap c) (hgap' c)
      exact ⟨_, .none hgaps, by simp⟩
    · exact ⟨_, .list hgap hx hgap', by simp⟩
  · rintro ⟨hrange, x, hx, rfl⟩
    cases hx with
    | @none gap hgap =>
      have hspaces : Reader.spaces (gap ++ '\x7d' :: t) = .ok ((), '\x7d' :: t) :=
        Reader.spaces_eq_ok.mpr ⟨stops_cons.mpr (by decide), gap, hgap, rfl⟩
      have hnone : Register.reader.Fails ('\x7d' :: t) := ⟨_, rfl⟩
      have hlist := registersReader_eq_ok.mpr (.inl ⟨rfl, hnone, rfl⟩)
      rw [List.cons_append, List.append_assoc, List.singleton_append]
      refine Reader.bind_ok (Reader.literal_append "\x7b" _) (Reader.bind_ok hspaces ?_)
      exact Reader.bind_ok hlist (closing_eq_ok.mpr ⟨rfl, [], isGap_nil, rfl⟩)
    | @list rs gap y gap' hgap hy hgap' =>
      have hstop := hy.stops_append (fun _ _ => Register.IsSpelled.stops) (gap' ++ '\x7d' :: t)
      have hfails : (Reader.further Register.reader).Fails (gap' ++ '\x7d' :: t) :=
        (Reader.comma_fails hgap' rfl).bind
      have hlist := registersReader_eq_ok.mpr
        (.inr ⟨stops_gap hgap' (by decide) t, hfails, y, hy, rfl⟩)
      simp only [List.cons_append, List.append_assoc, List.nil_append]
      refine Reader.bind_ok (Reader.literal_append "\x7b" _) ?_
      refine Reader.bind_ok (Reader.spaces_eq_ok.mpr ⟨hstop, gap, hgap, rfl⟩) ?_
      exact Reader.bind_ok hlist (closing_eq_ok.mpr ⟨rfl, gap', hgap', rfl⟩)
    | range => cases hrange

/-- A range of registers is taken exactly off its spellings. -/
theorem rangeReader_eq_ok {s t : List Char} {o : Operands} :
    rangeReader s = .ok (o, t) ↔ o.isRange = true ∧ ∃ x, o.IsSpelled x ∧ s = x ++ t := by
  constructor
  · intro h
    obtain ⟨_, s₁, hopen, h⟩ := Reader.bind_eq_ok.mp h
    obtain ⟨_, s₂, hspaces, h⟩ := Reader.bind_eq_ok.mp h
    obtain ⟨first, s₃, hfirst, h⟩ := Reader.bind_eq_ok.mp h
    obtain ⟨_, s₄, hspaces₁, h⟩ := Reader.bind_eq_ok.mp h
    obtain ⟨_, s₅, hdots, h⟩ := Reader.bind_eq_ok.mp h
    obtain ⟨_, s₆, hspaces₂, h⟩ := Reader.bind_eq_ok.mp h
    obtain ⟨last, s₇, hlast, h⟩ := Reader.bind_eq_ok.mp h
    obtain ⟨rfl, gap', hgap', rfl⟩ := closing_eq_ok.mp h
    obtain ⟨-, gap, hgap, rfl⟩ := Reader.spaces_eq_ok.mp hspaces
    obtain ⟨-, x, hx, rfl⟩ := (Register.takes_reader _ _ _).mp hfirst
    obtain ⟨-, gap₁, hgap₁, rfl⟩ := Reader.spaces_eq_ok.mp hspaces₁
    obtain ⟨-, gap₂, hgap₂, rfl⟩ := Reader.spaces_eq_ok.mp hspaces₂
    obtain ⟨-, y, hy, rfl⟩ := (Register.takes_reader _ _ _).mp hlast
    refine ⟨rfl, _, .range hgap hx hgap₁ hgap₂ hy hgap', ?_⟩
    rw [Reader.literal_eq_ok hopen, Reader.literal_eq_ok hdots]
    simp
  · rintro ⟨hrange, x, hx, rfl⟩
    cases hx with
    | none => cases hrange
    | list => cases hrange
    | @range first last gap x gap₁ gap₂ y gap' hgap hx hgap₁ hgap₂ hy hgap' =>
      simp only [List.cons_append, List.append_assoc, List.nil_append]
      refine Reader.bind_ok (Reader.literal_append "\x7b" _) ?_
      refine Reader.bind_ok
        (Reader.spaces_eq_ok.mpr ⟨hx.stops.2.append hx.stops.1 _, gap, hgap, rfl⟩) ?_
      refine Reader.bind_ok ((Register.takes_reader _ _ _).mpr
        ⟨stops_gap hgap₁ (by decide) _, x, hx, rfl⟩) ?_
      refine Reader.bind_ok
        (Reader.spaces_eq_ok.mpr ⟨stops_cons.mpr (by decide), gap₁, hgap₁, rfl⟩) ?_
      refine Reader.bind_ok (Reader.literal_append ".." _) ?_
      refine Reader.bind_ok
        (Reader.spaces_eq_ok.mpr ⟨hy.stops.2.append hy.stops.1 _, gap₂, hgap₂, rfl⟩) ?_
      refine Reader.bind_ok ((Register.takes_reader _ _ _).mpr
        ⟨stops_gap hgap' (by decide) _, y, hy, rfl⟩) ?_
      exact closing_eq_ok.mpr ⟨rfl, gap', hgap', rfl⟩

/-- Operands are taken exactly off their spellings by the reader for their kind. -/
theorem reader_eq_ok {isRange : Bool} {s t : List Char} {o : Operands} :
    (if isRange then rangeReader else listReader) s = .ok (o, t) ↔
      o.isRange = isRange ∧ ∃ x, o.IsSpelled x ∧ s = x ++ t := by
  cases isRange with
  | false => exact listReader_eq_ok
  | true => exact rangeReader_eq_ok

/-- A spelling of operands begins with a brace. -/
theorem IsSpelled.exists_eq_cons {o : Operands} {x : List Char} (h : o.IsSpelled x) :
    ∃ y, x = '\x7b' :: y := by
  cases h <;> exact ⟨_, rfl⟩

end Operands

/-! ### Calls -/

/-- No character of a mnemonic is blank. -/
theorem Instruction.isBlank_eq_false {c : Char} (h : isMnemonicChar c = true) : isBlank c = false := by
  simp only [isMnemonicChar, Bool.or_eq_true, beq_iff_eq] at h
  obtain (h | rfl) | rfl := h
  · exact isBlank_eq_false_of_isAlphanumeric h
  · decide
  · decide

namespace Call

/-- The spellings of a call: its mnemonic, its operands behind spaces or tabs, and its callee behind
a comma. -/
def IsSpelled (c : Call) (x : List Char) : Prop :=
  ∃ gap operands comma callee, gap ≠ [] ∧ IsGap gap ∧ c.operands.IsSpelled operands ∧
    IsComma comma ∧ c.callee.IsSpelled callee ∧ Stops isSpace callee ∧
      x = (mnemonic c.dispatch c.operands.isRange).toList ++
        (gap ++ (operands ++ (comma ++ callee)))

/-- What follows the mnemonic of a call is taken part by part, the operands by the reader for their
kind. -/
theorem tailReader_eq (dispatch : Dispatch) (isRange : Bool) :
    tailReader dispatch isRange = (do
      Reader.spaces1
      let operands ← (if isRange then Operands.rangeReader else Operands.listReader : Reader Operands)
      (do
        Reader.comma
        let callee ← MethodRef.reader
        Reader.spaces
        return ⟨dispatch, operands, callee⟩ : Reader Call)) := by
  cases isRange <;> rfl

/-- What follows the mnemonic of a call is taken exactly off the rest of its spellings. -/
theorem tailReader_eq_ok_iff {dispatch : Dispatch} {isRange : Bool} {s t : List Char} {c : Call} :
    tailReader dispatch isRange s = .ok (c, t) ↔
      c.dispatch = dispatch ∧ c.operands.isRange = isRange ∧
        ∃ gap operands comma callee y, gap ≠ [] ∧ IsGap gap ∧ c.operands.IsSpelled operands ∧
          IsComma comma ∧ c.callee.IsSpelled callee ∧ Stops isSpace (callee ++ y) ∧
            s = gap ++ (operands ++ (comma ++ (callee ++ y))) ∧ t = y.dropWhile isSpace := by
  rw [tailReader_eq]
  constructor
  · intro h
    obtain ⟨_, s₁, hspaces, h⟩ := Reader.bind_eq_ok.mp h
    obtain ⟨o, s₂, ho, h⟩ := Reader.bind_eq_ok.mp h
    obtain ⟨_, s₃, hcomma, h⟩ := Reader.bind_eq_ok.mp h
    obtain ⟨m, s₄, hm, h⟩ := Reader.bind_eq_ok.mp h
    obtain ⟨_, s₅, htail, h⟩ := Reader.bind_eq_ok.mp h
    obtain ⟨rfl, rfl⟩ := Reader.pure_eq_ok.mp h
    obtain ⟨gap, hne, rfl, hgap, -⟩ := Reader.spaces1_eq_ok hspaces
    obtain ⟨hrange, operands, hoperands, rfl⟩ := Operands.reader_eq_ok.mp ho
    obtain ⟨hstop, comma, hcomma', rfl⟩ := Reader.comma_eq_ok.mp hcomma
    obtain ⟨callee, hcallee, rfl⟩ := MethodRef.reader_eq_ok_iff.mp hm
    obtain ⟨-, rfl⟩ := Reader.ok_unique htail (Reader.spaces_apply s₄)
    exact ⟨rfl, hrange, gap, operands, comma, callee, s₄, hne, hgap, hoperands, hcomma', hcallee,
      hstop, rfl, rfl⟩
  · rintro ⟨rfl, rfl, gap, operands, comma, callee, y, hne, hgap, hoperands, hcomma, hcallee, hstop,
      rfl, rfl⟩
    obtain ⟨z, hz⟩ := hoperands.exists_eq_cons
    have hspaces : Reader.spaces1 (gap ++ (operands ++ (comma ++ (callee ++ y)))) =
        .ok ((), operands ++ (comma ++ (callee ++ y))) := by
      have hstops : Stops isSpace (operands ++ (comma ++ (callee ++ y))) := by
        rw [hz]
        exact stops_cons.mpr (by decide)
      exact Reader.bind_of_ok (Reader.run1_append hne hgap hstops)
    refine Reader.bind_ok hspaces ?_
    refine Reader.bind_ok (Operands.reader_eq_ok.mpr ⟨rfl, operands, hoperands, rfl⟩) ?_
    refine Reader.bind_ok (Reader.comma_eq_ok.mpr ⟨hstop, comma, hcomma, rfl⟩) ?_
    refine Reader.bind_ok (MethodRef.reader_eq_ok_iff.mpr ⟨callee, hcallee, rfl⟩) ?_
    exact Reader.bind_ok (Reader.spaces_apply y) rfl

/-- A spelling of a call is trimmed, and begins with a character of its mnemonic. -/
theorem IsSpelled.isTrimmed {c : Call} {x : List Char} (h : c.IsSpelled x) :
    IsTrimmed x ∧ ∃ d y, x = d :: y ∧ Instruction.isMnemonicChar d = true := by
  obtain ⟨gap, operands, comma, callee, -, -, -, -, hcallee, -, rfl⟩ := h
  obtain ⟨hne, hchars, -⟩ := mnemonic_spec c.dispatch c.operands.isRange
  obtain ⟨d, word, hword⟩ := List.exists_cons_of_ne_nil hne
  have hd : Instruction.isMnemonicChar d = true := hchars d (by simp [hword])
  refine ⟨isTrimmed_iff.mpr ⟨?_, ?_⟩, d, _, by rw [hword]; rfl, hd⟩
  · rw [hword]
    exact stops_cons.mpr (Instruction.isBlank_eq_false hd)
  · have hend := hcallee.stops_reverse
    rw [List.reverse_append, List.reverse_append, List.reverse_append, List.reverse_append,
      List.append_assoc, List.append_assoc, List.append_assoc]
    exact hend.append (by simpa using hcallee.ne_nil) _

/-- The words that stand for calls are the mnemonics of these. -/
theorem eq_mnemonic_of_lookup {word : String} {dispatch : Dispatch} {isRange : Bool}
    (h : mnemonics.lookup word = some (dispatch, isRange)) : word = mnemonic dispatch isRange := by
  obtain ⟨front, behind, hmnemonics, -⟩ := List.lookup_eq_some_iff.mp h
  have hmem : (word, dispatch, isRange) ∈ mnemonics := by simp [hmnemonics]
  simp only [mnemonics, List.mem_flatMap, List.mem_map, Prod.mk.injEq] at hmem
  obtain ⟨_, -, _, -, rfl, rfl, rfl⟩ := hmem
  rfl

end Call

namespace Instruction

/-- A line is read as a call exactly if it begins with a spelling of it. What stands behind that
does not count, and is left unread but for spaces. -/
theorem reader_eq_ok_call {line t : List Char} {c : Call} :
    reader line = .ok (call c, t) ↔
      ∃ x y, line = x ++ y ∧ c.IsSpelled x ∧ t = y.dropWhile isSpace := by
  constructor
  · intro h
    unfold reader at h
    split at h
    · cases h
    · next word rest hrun =>
      obtain ⟨-, rfl, -, -⟩ := Reader.run1_eq_ok' hrun
      split at h
      · cases h
      · next dispatch isRange hlookup =>
        split at h
        · next c' u htail =>
          obtain ⟨heq, rfl⟩ := Prod.mk.inj (Except.ok.inj h)
          obtain rfl : c' = c := by simpa using heq
          obtain ⟨rfl, rfl, gap, operands, comma, callee, y, hne, hgap, hoperands, hcomma, hcallee,
            hstop, rfl, rfl⟩ := Call.tailReader_eq_ok_iff.mp htail
          have hword := congrArg String.toList (Call.eq_mnemonic_of_lookup hlookup)
          rw [String.toList_ofList] at hword
          refine ⟨_, y, ?_, ⟨gap, operands, comma, callee, hne, hgap, hoperands, hcomma, hcallee,
            ?_, rfl⟩, rfl⟩
          · simp [hword]
          · obtain ⟨d, callee, rfl⟩ := List.exists_cons_of_ne_nil hcallee.ne_nil
            exact stops_cons.mpr (stops_cons.mp hstop)
        · cases h
  · rintro ⟨_, y, rfl, ⟨gap, operands, comma, callee, hne, hgap, hoperands, hcomma, hcallee, hstop,
      rfl⟩, rfl⟩
    obtain ⟨hword, hchars, hlookup⟩ := Call.mnemonic_spec c.dispatch c.operands.isRange
    obtain ⟨d, gap, rfl⟩ := List.exists_cons_of_ne_nil hne
    have hd : isMnemonicChar d = false := by
      have hspace := hgap d List.mem_cons_self
      simp only [isSpace, Bool.or_eq_true, beq_iff_eq] at hspace
      obtain rfl | rfl := hspace <;> decide
    have hstops : Stops isMnemonicChar (d :: gap ++ (operands ++ (comma ++ (callee ++ y)))) :=
      stops_cons.mpr hd
    have hrun := Reader.run1_append hword hchars hstops
    have htail := Call.tailReader_eq_ok_iff.mpr ⟨rfl, rfl, d :: gap, operands, comma, callee, y,
      List.cons_ne_nil d gap, hgap, hoperands, hcomma, hcallee, hstop.append hcallee.ne_nil y, rfl, rfl⟩
    have hline : (Call.mnemonic c.dispatch c.operands.isRange).toList ++
        (d :: gap ++ (operands ++ (comma ++ callee))) ++ y =
          (Call.mnemonic c.dispatch c.operands.isRange).toList ++
            (d :: gap ++ (operands ++ (comma ++ (callee ++ y)))) := by
      simp only [List.append_assoc]
    unfold reader
    rw [hline, hrun]
    simp only [String.ofList_toList, hlookup, htail]

end Instruction

end GatedCalls
