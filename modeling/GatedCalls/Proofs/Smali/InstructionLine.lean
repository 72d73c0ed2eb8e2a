import GatedCalls.Descriptor.Reading
import GatedCalls.Proofs.Smali.Instruction

/-!
# Lines of instructions

An instruction that is readable is the one that its line is read as, and what is read off a line is
readable. Which of the two kinds of instruction comes out is told by the first word of the line: a
line that begins with the mnemonic of a call is read as a call or not at all.
-/

namespace GatedCalls

open Text

namespace MethodRef

/-- The text of a method reference is trimmed if its owner is. -/
theorem isTrimmed_text {m : MethodRef} (h : IsTrimmed m.owner.toList) : IsTrimmed m.text.toList := by
  refine isTrimmed_iff.mpr ⟨?_, m.stops_reverse_text⟩
  rw [toList_text]
  cases howner : m.owner.toList with
  | nil => exact stops_cons.mpr (by decide)
  | cons c s => exact (howner ▸ h).stops.append (by simp) _

/-- A method reference whose parts can be told is read as a whole. -/
theorem read_text {m : MethodRef} (h : m.IsNamed) : read m.text = .ok m := by
  have htrim : trim m.text.toList = m.text.toList := isTrimmed_text h.owner_trimmed
  have hwhole : ofText? m.text = some m := by
    rw [ofText?, htrim, Reader.whole?_eq_some]
    simpa using reader_text h []
  rw [read, hwhole]

/-- The parts of a method reference that has been read as a whole can be told. -/
theorem isNamed_of_read {s : String} {m : MethodRef} (h : read s = .ok m) : m.IsNamed := by
  unfold read at h
  split at h
  · next m' hwhole =>
    obtain rfl := Except.ok.inj h
    exact (reader_eq_ok (Reader.whole?_eq_some.mp hwhole)).1
  · cases h

end MethodRef

namespace Instruction

/-- A readable instruction is read off its line, and nothing is left. -/
theorem readLine_text {i : Instruction} (h : i.IsReadable) : readLine i.text.toList = .ok (i, []) := by
  rw [readLine, show trim i.text.toList = i.text.toList from isTrimmed_text h, reader_text h]

/-- The word with which a line begins, blanks apart. -/
def firstWord (line : List Char) : String :=
  String.ofList ((trim line).takeWhile isMnemonicChar)

/-- A line is read as no call exactly if its first word is the mnemonic of none. -/
theorem isOther_iff_firstWord {line rest : List Char} {i : Instruction}
    (h : readLine line = .ok (i, rest)) :
    (∃ t, i = other t) ↔ firstWord line ∉ Call.mnemonics.map (·.1) := by
  have hlookup : firstWord line ∉ Call.mnemonics.map (·.1) ↔
      Call.mnemonics.lookup (firstWord line) = none := by
    rw [List.lookup_eq_none_iff]
    constructor
    · intro hword kind hkind
      exact bne_iff_ne.mpr fun heq => hword (List.mem_map.mpr ⟨kind, hkind, heq.symm⟩)
    · intro hword hmem
      obtain ⟨kind, hkind, heq⟩ := List.mem_map.mp hmem
      exact bne_iff_ne.mp (hword kind hkind) heq.symm
  -- The lookup of the first word is all that tells the two kinds apart.
  rw [hlookup]
  unfold readLine reader at h
  cases hrun : Reader.run1 isMnemonicChar (trim line) with
  | error e => simp [hrun] at h
  | ok x =>
    obtain ⟨word, s⟩ := x
    obtain ⟨-, hword, -⟩ := Reader.run1_eq_ok hrun
    simp only [hrun] at h
    rw [firstWord, ← hword]
    cases hkind : Call.mnemonics.lookup (String.ofList word) with
    | none =>
      simp only [hkind] at h
      obtain ⟨rfl, -⟩ := Prod.mk.inj (Except.ok.inj h)
      simp
    | some kind =>
      obtain ⟨dispatch, isRange⟩ := kind
      simp only [hkind] at h
      split at h
      · obtain ⟨rfl, -⟩ := Prod.mk.inj (Except.ok.inj h)
        simp
      · cases h

/-- Instructions and their lines. A call whose callee has parts that can be told is read off its
line, and so is the callee off its text. Whatever is read off a line is read again off its own line,
and it is no call exactly if the first word of the line is none of the ten mnemonics. And the parts
of every method reference that is read can be told. -/
theorem readLine_roundTrip :
    (∀ c : Call, c.callee.IsNamed →
      readLine c.text.toList = .ok (call c, []) ∧ MethodRef.read c.callee.text = .ok c.callee) ∧
    (∀ line i rest, readLine line = .ok (i, rest) →
      readLine i.text.toList = .ok (i, []) ∧
        ((∃ t, i = other t) ↔ firstWord line ∉ Call.mnemonics.map (·.1))) ∧
    ∀ s m, MethodRef.read s = .ok m → m.IsNamed := by
  refine ⟨fun c hc => ⟨readLine_text (i := call c) hc, MethodRef.read_text hc⟩, ?_,
    fun s m => MethodRef.isNamed_of_read⟩
  intro line i rest h
  have hreadable : i.IsReadable := (reader_eq_ok (isTrimmed_trim line) h).1
  exact ⟨readLine_text hreadable, isOther_iff_firstWord h⟩

/-- A call with two registers and an array among its parameters. -/
def sampleCall : Call :=
  ⟨.virtual, .list [.param 0, .frame 3], ⟨"La/B;", "run", ⟨[.array (.object ⟨"a/C"⟩)], .void⟩⟩⟩

/-- A line of that call with more blanks in it than its own line has, and with something behind
it. -/
def sampleLine : String := " invoke-virtual \x7bp0 ,\tv3\x7d,La/B; -> run ([La/C;)V # "

/-- The sample is read off its line, and its callee off its text; the line with more blanks is read
as the sample too, and its first word is the mnemonic of a call. -/
theorem readLine_roundTrip_sample :
    sampleCall.callee.IsNamed ∧
    readLine sampleCall.text.toList = .ok (call sampleCall, []) ∧
    MethodRef.read sampleCall.callee.text = .ok sampleCall.callee ∧
    readLine sampleLine.toList = .ok (call sampleCall, "#".toList) ∧
    ((∃ t, call sampleCall = other t) ↔ firstWord sampleLine.toList ∉ Call.mnemonics.map (·.1)) := by
  have hproto : sampleCall.callee.proto.IsNamed := by
    simp [sampleCall, Prototype.IsNamed, JavaType.IsNamed]
    decide
  have hnamed : sampleCall.callee.IsNamed := ⟨by decide, by decide, by decide, by decide, hproto⟩
  have hread : readLine sampleLine.toList = .ok (call sampleCall, "#".toList) := by decide +kernel
  obtain ⟨hline, hcallee⟩ := readLine_roundTrip.1 sampleCall hnamed
  exact ⟨hnamed, hline, hcallee, hread, (readLine_roundTrip.2.1 _ _ _ hread).2⟩

end Instruction

end GatedCalls
