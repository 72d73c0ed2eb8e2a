import GatedCalls.Proofs.Descriptor.MethodRef
import GatedCalls.Proofs.Text.Numeral
import GatedCalls.Smali.Instruction

/-!
# Instructions are read as they are printed

The line of a call is read back into the call if the parts of its callee can be told; the line of
another instruction is read back if it is trimmed and its first word is the mnemonic of no call.
This is `Instruction.IsReadable`, and only such instructions are ever read.
-/

namespace GatedCalls

open Text

/-! ### Registers -/

namespace Register

/-- The name of a register as characters: a letter and digits. -/
theorem toList_text (r : Register) :
    ∃ c n, (c = 'v' ∨ c = 'p') ∧ n < UInt16.size ∧ r.text.toList = c :: (toString n).toList ∧
      r = if c = 'p' then param (UInt16.ofNat n) else frame (UInt16.ofNat n) := by
  cases r with
  | frame n => exact ⟨'v', n.toNat, .inl rfl, n.toNat_lt, by simp [text], by simp⟩
  | param n => exact ⟨'p', n.toNat, .inr rfl, n.toNat_lt, by simp [text], by simp⟩

/-- The name of a register is taken off in front of anything but a digit. -/
theorem reader_text (r : Register) {rest : List Char} (hrest : Stops Char.isDigit rest) :
    reader (r.text.toList ++ rest) = .ok (r, rest) := by
  obtain ⟨c, n, hc, hn, htext, hr⟩ := r.toList_text
  have hletter : (c == 'v' || c == 'p') = true := by simpa using hc
  have hrun : Reader.run1 Char.isDigit ((toString n).toList ++ rest) =
      .ok ((toString n).toList, rest) :=
    Reader.run1_append (toList_toString_ne_nil n) (fun _ => isDigit_of_mem_toString) hrest
  have hnumber : numberReader ((toString n).toList ++ rest) = .ok (UInt16.ofNat n, rest) := by
    unfold numberReader
    rw [hrun]
    simp only [digits?_toString, if_pos hn]
  rw [htext, List.cons_append]
  refine Reader.bind_ok (if_pos hletter) ?_
  refine Reader.bind_ok hnumber ?_
  rw [hr]
  rfl

/-- The name of a register begins with no space. -/
theorem stops_text (r : Register) (rest : List Char) : Stops isSpace (r.text.toList ++ rest) := by
  obtain ⟨c, n, rfl | rfl, -, htext, -⟩ := r.toList_text <;> rw [htext] <;> simp [isSpace]

end Register

/-! ### Operands -/

namespace Operands

/-- A comma with a blank behind it is taken off in front of something else. -/
theorem comma_append {rest : List Char} (h : Stops isSpace rest) :
    Reader.comma (", ".toList ++ rest) = .ok ((), rest) := by
  refine Reader.bind_ok (Reader.spaces_of_stops (by simp [isSpace])) ?_
  refine Reader.bind_ok (Reader.literal_append "," _) ?_
  exact Reader.spaces_cons (by decide) h

/-- No comma is taken off the closing brace. -/
theorem comma_fails (rest : List Char) : Reader.comma.Fails ('\x7d' :: rest) :=
  Reader.Fails.bind_of_ok (Reader.spaces_of_stops (by simp [isSpace]))
    (Reader.literal_fails rfl).bind

/-- A list of registers is taken off with its braces. -/
theorem listReader_text (rs : List Register) (rest : List Char) :
    listReader ((list rs).text.toList ++ rest) = .ok (list rs, rest) := by
  have htext : (list rs).text.toList ++ rest =
      "\x7b".toList ++ ((", ".toList).intercalate (rs.map fun r => r.text.toList) ++
        ("\x7d".toList ++ rest)) := by
    simp [text, String.toList_intercalate, Function.comp_def]
  rw [htext]
  refine Reader.bind_ok (Reader.literal_append "\x7b" _) ?_
  cases rs with
  | nil =>
    refine Reader.bind_ok (Reader.spaces_of_stops (by simp [isSpace])) ?_
    refine Reader.bind_ok (a := []) (t := "\x7d".toList ++ rest) ?_ ?_
    · exact Reader.bind_ok (Reader.optional_of_fails ⟨_, rfl⟩) rfl
    · refine Reader.bind_ok (Reader.spaces_of_stops (by simp [isSpace])) ?_
      exact Reader.bind_ok (Reader.literal_append "\x7d" _) rfl
  | cons r rs =>
    rw [List.map_cons, intercalate_cons, List.append_assoc, List.flatMap_map]
    refine Reader.bind_ok (Reader.spaces_of_stops (r.stops_text _)) ?_
    refine Reader.bind_ok (a := r :: rs) (t := "\x7d".toList ++ rest) ?_ ?_
    · -- Behind each register a comma or the brace stops the digits.
      have hmany : Reader.takeMany (Reader.comma >>= fun _ => Register.reader)
          (Reader.Progresses.bind_right Reader.forward_comma fun _ => Register.progresses_reader)
          (rs.flatMap (fun r => ", ".toList ++ r.text.toList) ++ ("\x7d".toList ++ rest)) =
            (rs, "\x7d".toList ++ rest) := by
        refine Reader.takeMany_flatMap _ (Stops Char.isDigit) (fun r _ rest hrest => ?_)
          (fun _ _ _ => by simp) (by simp) (comma_fails rest).bind
        rw [List.append_assoc]
        exact Reader.bind_ok (comma_append (r.stops_text rest)) (r.reader_text hrest)
      have hstop : Stops Char.isDigit
          (rs.flatMap (fun r => ", ".toList ++ r.text.toList) ++ ("\x7d".toList ++ rest)) := by
        cases rs <;> simp
      refine Reader.bind_ok (Reader.optional_of_ok (r.reader_text hstop)) ?_
      exact Reader.bind_ok (congrArg Except.ok hmany) rfl
    · refine Reader.bind_ok (Reader.spaces_of_stops (by simp [isSpace])) ?_
      exact Reader.bind_ok (Reader.literal_append "\x7d" _) rfl

/-- A range of registers is taken off with its braces. -/
theorem rangeReader_text (first last : Register) (rest : List Char) :
    rangeReader ((range first last).text.toList ++ rest) = .ok (range first last, rest) := by
  have htext : (range first last).text.toList ++ rest =
      "\x7b".toList ++ (first.text.toList ++ (' ' :: ("..".toList ++
        (' ' :: (last.text.toList ++ ("\x7d".toList ++ rest)))))) := by
    simp [text]
  rw [htext]
  refine Reader.bind_ok (Reader.literal_append "\x7b" _) ?_
  refine Reader.bind_ok (Reader.spaces_of_stops (first.stops_text _)) ?_
  refine Reader.bind_ok (first.reader_text (by simp)) ?_
  refine Reader.bind_ok (Reader.spaces_cons (by decide) (by simp [isSpace])) ?_
  refine Reader.bind_ok (Reader.literal_append ".." _) ?_
  refine Reader.bind_ok (Reader.spaces_cons (by decide) (last.stops_text _)) ?_
  refine Reader.bind_ok (last.reader_text (by simp)) ?_
  refine Reader.bind_ok (Reader.spaces_of_stops (by simp [isSpace])) ?_
  exact Reader.bind_ok (Reader.literal_append "\x7d" _) rfl

/-- What has been read as a list is one. -/
theorem isRange_of_listReader {s rest : List Char} {o : Operands}
    (h : listReader s = .ok (o, rest)) : o.isRange = false := by
  obtain ⟨_, _, -, h⟩ := Reader.bind_eq_ok.mp h
  obtain ⟨_, _, -, h⟩ := Reader.bind_eq_ok.mp h
  obtain ⟨_, _, -, h⟩ := Reader.bind_eq_ok.mp h
  obtain ⟨_, _, -, h⟩ := Reader.bind_eq_ok.mp h
  obtain ⟨_, _, -, h⟩ := Reader.bind_eq_ok.mp h
  obtain ⟨rfl, -⟩ := Reader.pure_eq_ok.mp h
  rfl

/-- What has been read as a range is one. -/
theorem isRange_of_rangeReader {s rest : List Char} {o : Operands}
    (h : rangeReader s = .ok (o, rest)) : o.isRange = true := by
  obtain ⟨_, _, -, h⟩ := Reader.bind_eq_ok.mp h
  obtain ⟨_, _, -, h⟩ := Reader.bind_eq_ok.mp h
  obtain ⟨_, _, -, h⟩ := Reader.bind_eq_ok.mp h
  obtain ⟨_, _, -, h⟩ := Reader.bind_eq_ok.mp h
  obtain ⟨_, _, -, h⟩ := Reader.bind_eq_ok.mp h
  obtain ⟨_, _, -, h⟩ := Reader.bind_eq_ok.mp h
  obtain ⟨_, _, -, h⟩ := Reader.bind_eq_ok.mp h
  obtain ⟨_, _, -, h⟩ := Reader.bind_eq_ok.mp h
  obtain ⟨_, _, -, h⟩ := Reader.bind_eq_ok.mp h
  obtain ⟨rfl, -⟩ := Reader.pure_eq_ok.mp h
  rfl

/-- Every character of operands can stand in a line. -/
theorem inLine_text (o : Operands) : InLine o.text.toList := by
  have hregister (r : Register) : InLine r.text.toList := by
    obtain ⟨c, n, hc, -, htext, -⟩ := r.toList_text
    have hletter : Reader.isInLine c = true := by rcases hc with rfl | rfl <;> decide
    rw [htext, inLine_cons]
    refine ⟨hletter, fun d hd => ?_⟩
    have hdigit : d.isDigit = true := isDigit_of_mem_toString hd
    have hr : d ≠ '\r' := by rintro rfl; revert hdigit; decide
    have hn : d ≠ '\n' := by rintro rfl; revert hdigit; decide
    simp [Reader.isInLine, hr, hn]
  cases o with
  | list rs =>
    have hrs : InLine ((", ".toList).intercalate (rs.map fun r => r.text.toList)) := by
      cases rs with
      | nil => simp [List.intercalate]
      | cons r rs =>
        rw [List.map_cons, intercalate_cons, inLine_append]
        refine ⟨hregister r, fun c hc => ?_⟩
        obtain ⟨x, hx, hc⟩ := List.mem_flatMap.mp hc
        obtain ⟨r', -, rfl⟩ := List.mem_map.mp hx
        have hpart : InLine (", ".toList ++ r'.text.toList) := by
          rw [inLine_append]
          exact ⟨by simp [Reader.isInLine], hregister r'⟩
        exact hpart c hc
    have htext : (list rs).text.toList =
        '\x7b' :: ((", ".toList).intercalate (rs.map fun r => r.text.toList) ++ ['\x7d']) := by
      simp [text, String.toList_intercalate, Function.comp_def]
    rw [htext]
    simpa [Reader.isInLine] using hrs
  | range first last => simp [text, Reader.isInLine, hregister first, hregister last]

end Operands

/-! ### Calls -/

namespace Call

/-- The ten mnemonics are words, and each stands for its own kind of call. -/
theorem mnemonic_spec (dispatch : Dispatch) (isRange : Bool) :
    (mnemonic dispatch isRange).toList ≠ [] ∧
      (∀ c ∈ (mnemonic dispatch isRange).toList, Instruction.isMnemonicChar c = true) ∧
      mnemonics.lookup (mnemonic dispatch isRange) = some (dispatch, isRange) := by
  cases dispatch <;> cases isRange <;>
    exact ⟨by decide, List.all_eq_true.mp (by decide), by decide +kernel⟩

/-- What follows the mnemonic of a call is taken off as a whole. -/
theorem tailReader_text {c : Call} (h : c.callee.IsNamed) :
    tailReader c.dispatch c.operands.isRange
      (' ' :: (c.operands.text.toList ++ (", ".toList ++ c.callee.text.toList))) = .ok (c, []) := by
  have hoperands : ∀ rest, Stops isSpace (c.operands.text.toList ++ rest) := by
    intro rest
    cases c.operands <;> simp [Operands.text, isSpace]
  have hcallee : Stops isSpace c.callee.text.toList := by
    rw [MethodRef.toList_text]
    cases howner : c.callee.owner.toList with
    | nil => simp [isSpace]
    | cons x owner =>
      have hx : Stops isBlank (x :: owner) := howner ▸ h.owner_trimmed.stops
      simpa using isSpace_eq_false (isLayout_eq_false (stops_cons.mp hx))
  have hread : MethodRef.reader c.callee.text.toList = .ok (c.callee, []) := by
    simpa using MethodRef.reader_text h []
  have htail : (do
      Reader.comma
      let callee ← MethodRef.reader
      Reader.spaces
      return ⟨c.dispatch, c.operands, callee⟩ : Reader Call)
        (", ".toList ++ c.callee.text.toList) = .ok (c, []) := by
    refine Reader.bind_ok (Operands.comma_append hcallee) ?_
    refine Reader.bind_ok hread ?_
    exact Reader.bind_ok (Reader.spaces_of_stops (by simp)) rfl
  obtain ⟨dispatch, operands, callee⟩ := c
  refine Reader.bind_ok (Reader.spaces1_cons (by decide) (hoperands _)) ?_
  cases operands with
  | list rs => exact Reader.bind_ok (Operands.listReader_text rs _) htail
  | range first last => exact Reader.bind_ok (Operands.rangeReader_text first last _) htail

/-- A call as characters. -/
theorem toList_text (c : Call) :
    c.text.toList = (mnemonic c.dispatch c.operands.isRange).toList ++
      (' ' :: (c.operands.text.toList ++ (", ".toList ++ c.callee.text.toList))) := by
  simp [text]

end Call

namespace Call

/-- A call that has been read has the dispatch and the kind of operands of its mnemonic; the parts
of its callee can be told, and they stood in the text. -/
theorem tailReader_eq_ok {dispatch : Dispatch} {isRange : Bool} {s rest : List Char} {c : Call}
    (h : tailReader dispatch isRange s = .ok (c, rest)) :
    c.dispatch = dispatch ∧ c.operands.isRange = isRange ∧ c.callee.IsNamed ∧
      ∀ x ∈ c.callee.text.toList, x ∈ s := by
  have htail {o : Operands} {u v : List Char} (hv : v <:+ s) (hrange : o.isRange = isRange)
      (h : (do
        Reader.comma
        let callee ← MethodRef.reader
        Reader.spaces
        return ⟨dispatch, o, callee⟩ : Reader Call) v = .ok (c, u)) :
      c.dispatch = dispatch ∧ c.operands.isRange = isRange ∧ c.callee.IsNamed ∧
        ∀ x ∈ c.callee.text.toList, x ∈ s := by
    obtain ⟨_, v₁, hcomma, h⟩ := Reader.bind_eq_ok.mp h
    obtain ⟨callee, v₂, hcallee, h⟩ := Reader.bind_eq_ok.mp h
    obtain ⟨_, v₃, -, h⟩ := Reader.bind_eq_ok.mp h
    obtain ⟨rfl, -⟩ := Reader.pure_eq_ok.mp h
    have hv₁ : v₁ <:+ s := (Reader.forward_comma.ok hcomma).trans hv
    exact ⟨rfl, hrange, (MethodRef.reader_eq_ok hcallee).1,
      fun x hx => hv₁.subset (MethodRef.mem_of_mem_text hcallee hx)⟩
  obtain ⟨_, s₁, hspaces, h⟩ := Reader.bind_eq_ok.mp h
  have hs₁ : s₁ <:+ s := Reader.forward_spaces1.ok hspaces
  cases isRange with
  | false =>
    obtain ⟨o, s₂, ho, h⟩ := Reader.bind_eq_ok.mp h
    exact htail ((Operands.forward_listReader.ok ho).trans hs₁) (Operands.isRange_of_listReader ho) h
  | true =>
    obtain ⟨o, s₂, ho, h⟩ := Reader.bind_eq_ok.mp h
    exact htail ((Operands.forward_rangeReader.ok ho).trans hs₁) (Operands.isRange_of_rangeReader ho)
      h

end Call

/-! ### Instructions -/

namespace Instruction

/-- Whether a line is an instruction that is no call: it has a first word, and that word is the
mnemonic of no call. -/
def IsOther (line : List Char) : Prop :=
  line.takeWhile isMnemonicChar ≠ [] ∧
    Call.mnemonics.lookup (String.ofList (line.takeWhile isMnemonicChar)) = none

/-- Whether the instruction can be told from its line. -/
def IsReadable : Instruction → Prop
  | call c => c.callee.IsNamed
  | other text => IsTrimmed text.toList ∧ IsOther text.toList

/-- The line of a call is trimmed. -/
theorem isTrimmed_call (c : Call) : IsTrimmed c.text.toList := by
  refine isTrimmed_iff.mpr ⟨?_, ?_⟩
  · rw [Call.toList_text]
    cases c.dispatch <;> cases c.operands.isRange <;> simp [Call.mnemonic] <;> decide
  · have hcallee := c.callee.stops_reverse_text
    rw [Call.toList_text, List.reverse_append, List.reverse_cons, List.reverse_append,
      List.reverse_append, List.append_assoc, List.append_assoc, List.append_assoc]
    exact hcallee.append (by simp [MethodRef.text]) _

/-- A readable instruction is read off its line. -/
theorem reader_text {i : Instruction} (h : i.IsReadable) : reader i.text.toList = .ok (i, []) := by
  cases i with
  | call c =>
    obtain ⟨hne, hchars, hlookup⟩ := Call.mnemonic_spec c.dispatch c.operands.isRange
    have hstop : Stops isMnemonicChar
        (' ' :: (c.operands.text.toList ++ (", ".toList ++ c.callee.text.toList))) := by
      rw [stops_cons]
      decide
    have hrun := Reader.run1_append hne hchars hstop
    rw [← Call.toList_text] at hrun
    unfold reader
    simp only [text, hrun, String.ofList_toList, hlookup, Call.tailReader_text h]
  | other t =>
    obtain ⟨-, hne, hlookup⟩ := h
    have hrun : Reader.run1 isMnemonicChar t.toList =
        .ok (t.toList.takeWhile isMnemonicChar, t.toList.dropWhile isMnemonicChar) := by
      unfold Reader.run1
      split
      · next heq => exact absurd heq hne
      · rfl
    unfold reader
    simp only [text, hrun, hlookup, String.ofList_toList]

/-- The line of a readable instruction is trimmed. -/
theorem isTrimmed_text {i : Instruction} (h : i.IsReadable) : IsTrimmed i.text.toList := by
  cases i with
  | call c => exact isTrimmed_call c
  | other t => exact h.1

/-- An instruction that has been read off a trimmed line is readable; a call has its mnemonic on the
line, and anything else is the line. -/
theorem reader_eq_ok {line rest : List Char} {i : Instruction} (hline : IsTrimmed line)
    (h : reader line = .ok (i, rest)) :
    i.IsReadable ∧ (InLine line → InLine i.text.toList) := by
  unfold reader at h
  cases hrun : Reader.run1 isMnemonicChar line with
  | error e => simp [hrun] at h
  | ok x =>
    obtain ⟨word, s⟩ := x
    obtain ⟨hne, hword, -⟩ := Reader.run1_eq_ok hrun
    obtain ⟨-, hs, -⟩ := Reader.run1_eq_ok' hrun
    simp only [hrun] at h
    cases hlookup : Call.mnemonics.lookup (String.ofList word) with
    | none =>
      simp only [hlookup] at h
      obtain ⟨rfl, -⟩ := Prod.mk.inj (Except.ok.inj h)
      refine ⟨⟨by simpa using hline, ?_⟩, fun hin => by simpa [text] using hin⟩
      rw [String.toList_ofList]
      exact ⟨hword ▸ hne, hword ▸ hlookup⟩
    | some kind =>
      obtain ⟨dispatch, isRange⟩ := kind
      simp only [hlookup] at h
      cases htail : Call.tailReader dispatch isRange s with
      | error e => simp [htail] at h
      | ok y =>
        obtain ⟨c, t⟩ := y
        simp only [htail] at h
        obtain ⟨rfl, -⟩ := Prod.mk.inj (Except.ok.inj h)
        obtain ⟨-, -, hnamed, hmem⟩ := Call.tailReader_eq_ok htail
        refine ⟨hnamed, fun hin => ?_⟩
        have hmnemonic : InLine (Call.mnemonic c.dispatch c.operands.isRange).toList := by
          cases c.dispatch <;> cases c.operands.isRange <;> decide +kernel
        have hcallee : InLine c.callee.text.toList := fun x hx =>
          hin x (hs ▸ List.mem_append_right word (hmem x hx))
        rw [text, Call.toList_text, inLine_append, inLine_cons, inLine_append, inLine_append]
        exact ⟨hmnemonic, by decide, c.operands.inLine_text, by simp [Reader.isInLine], hcallee⟩

end Instruction

end GatedCalls
