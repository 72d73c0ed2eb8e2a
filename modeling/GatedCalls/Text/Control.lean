/-!
# Control sequences

A terminal takes some characters of a text as orders: control characters, and the sequences that
begin with an escape character. `withoutControls` keeps what a terminal would only show. Tabs, line
feeds, form feeds and carriage returns are shown, as blank space.

A sequence ends with its last character. Blank space can interrupt some sequences: then it is shown,
and so is what follows it, up to the next control character that is not blank, where the sequence is
taken up again.

What is shown has only shown characters, and a text that has no others is shown as it is.
-/

namespace GatedCalls.Text

/-- Whether a control character is shown as blank space. -/
def isBlankControl (c : Char) : Bool :=
  c == '\t' || c == '\n' || c == '\x0c' || c == '\r'

/-- Whether the character is shown where no sequence has begun. -/
def isShown (c : Char) : Bool :=
  (' ' ≤ c && c != '\x7f') || isBlankControl c

/-- A sequence of characters that is an order to a terminal, as far as it has been read. -/
inductive ControlSequence where
  /-- The escape character alone. -/
  | escape
  /-- An escape character and at least one character that announces a last one. -/
  | announced
  /-- A sequence with parameters, as for colours. -/
  | parameters
  /-- The beginning of an order to a device. -/
  | device
  /-- An order to a device with parameters. -/
  | deviceParameters
  /-- An order to a device, with a character that announces its text. -/
  | deviceAnnounced
  /-- A text that goes to a terminator. -/
  | string
  /-- A text that goes to a bell, as for the title of a window. -/
  | command
  deriving DecidableEq, Repr

namespace ControlSequence

/-- Whether the sequence can be interrupted by blank controls. -/
def isInterruptible : ControlSequence → Bool
  | escape | announced | parameters => true
  | _ => false

/-- Whether the character ends texts. The terminator is a single byte, and is also found in the
encoding of other characters. -/
def isTerminator (c : Char) : Bool :=
  (String.utf8EncodeChar c).contains 0x9c

/-- The sequence with one more character, or nothing if the character is the last one. A character
that has no place in the sequence is passed over. -/
def next? (q : ControlSequence) (c : Char) : Option ControlSequence :=
  match q with
  | escape =>
    if c < ' ' || '\x7f' ≤ c then some escape
    else if c ≤ '/' then some announced
    else if c == '[' then some parameters
    else if c == ']' then some command
    else if c == 'P' then some device
    else if c == 'X' || c == '^' || c == '_' then some string
    else none
  | announced => if '0' ≤ c && c ≤ '~' then none else some announced
  | parameters => if '@' ≤ c && c ≤ '~' then none else some parameters
  | device =>
    if '@' ≤ c && c ≤ '~' then some string
    else if '0' ≤ c && c ≤ '?' then some deviceParameters
    else if ' ' ≤ c && c ≤ '/' then some deviceAnnounced
    else some device
  | deviceParameters =>
    if '<' ≤ c && c ≤ '~' then some string
    else if ' ' ≤ c && c ≤ '/' then some deviceAnnounced
    else some deviceParameters
  | deviceAnnounced => if '0' ≤ c && c ≤ '~' then some string else some deviceAnnounced
  | string => if isTerminator c then none else some string
  | command => if c == '\x07' then none else some command

end ControlSequence

/-- What a text has come to. -/
inductive Passage where
  /-- No sequence has begun. -/
  | plain
  /-- A sequence is not at its end. -/
  | within (q : ControlSequence)
  /-- A sequence has been interrupted. -/
  | interrupted (q : ControlSequence)
  deriving DecidableEq, Repr

namespace Passage

/-- Reads one more character, and tells whether it is shown. -/
def step (p : Passage) (c : Char) : Passage × Bool :=
  -- An escape character begins a sequence anywhere, and two others break one off.
  if c == '\x1b' then (within .escape, false)
  else if c == '\x18' || c == '\x1a' then (plain, false)
  else
    match p with
    | plain => (plain, isShown c)
    | within q =>
      if q.isInterruptible && isBlankControl c then (interrupted q, true)
      else
        match q.next? c with
        | some q => (within q, false)
        | none => (plain, false)
    | interrupted q =>
      -- A character outside of ASCII makes an interrupted sequence forgotten.
      if '\x7f' < c then (plain, true)
      else if isShown c then (interrupted q, true)
      else (within q, false)

/-- What is shown of the rest of a text. -/
def shown (p : Passage) : List Char → List Char
  | [] => []
  | c :: s => if (p.step c).2 then c :: (p.step c).1.shown s else (p.step c).1.shown s

end Passage

/-- What is shown of a text. -/
def withoutControls (s : List Char) : List Char :=
  Passage.plain.shown s

/-- A shown character leaves plain text plain. -/
theorem step_plain {c : Char} (h : isShown c) : Passage.plain.step c = (.plain, true) := by
  have hc : c ≠ '\x1b' ∧ c ≠ '\x18' ∧ c ≠ '\x1a' := by
    refine ⟨?_, ?_, ?_⟩ <;> rintro rfl <;> revert h <;> decide
  simp [Passage.step, hc, h]

/-- A text of shown characters is shown as it is. -/
theorem withoutControls_of_isShown {s : List Char} (h : ∀ c ∈ s, isShown c) :
    withoutControls s = s := by
  induction s with
  | nil => rfl
  | cons c s ih =>
    have hc := step_plain (h c List.mem_cons_self)
    have hs : Passage.plain.shown s = s := ih fun d hd => h d (List.mem_cons_of_mem c hd)
    simp [withoutControls, Passage.shown, hc, hs]

/-- No character is shown that would not be shown in plain text. -/
theorem isShown_of_step {p : Passage} {c : Char} (h : (p.step c).2) : isShown c := by
  have blank (hb : isBlankControl c) : isShown c := by simp [isShown, hb]
  have wide (hw : '\x7f' < c) : isShown c := by
    have hlt : '\x7f'.val < c.val := hw
    have hle : ' ' ≤ c := by
      show ' '.val ≤ c.val
      have : ' '.val ≤ '\x7f'.val := by decide
      exact UInt32.le_trans this (UInt32.le_of_lt hlt)
    have hne : c ≠ '\x7f' := by
      rintro rfl
      exact UInt32.lt_irrefl _ hlt
    simp [isShown, hle, hne]
  unfold Passage.step at h
  grind

/-- What is shown has only shown characters. -/
theorem isShown_of_mem_shown {p : Passage} {s : List Char} {c : Char} (h : c ∈ p.shown s) :
    isShown c := by
  induction s generalizing p with
  | nil => simp [Passage.shown] at h
  | cons d s ih =>
    unfold Passage.shown at h
    split at h
    · next hd =>
      rcases List.mem_cons.1 h with rfl | h
      · exact isShown_of_step hd
      · exact ih h
    · exact ih h

end GatedCalls.Text
