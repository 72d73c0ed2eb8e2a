import Mathlib.Tactic.Push
import GatedCalls.Permission.Table
import GatedCalls.Proofs.Descriptor.MethodRef
import GatedCalls.Proofs.Text.Separated

/-!
# Which texts are permission tables, and what they say

`IsEntry` says which texts are entries. A text is read exactly if the content of each of its lines
is empty or an entry; what has been read unites the entries of the lines, so that it depends on
nothing but which lines there are. Otherwise the failure names the first line of another form.
-/

namespace GatedCalls

open Text

namespace PermissionTable

/-! ### The content of a line -/

/-- The content of a line is trimmed. -/
theorem isTrimmed_content (line : List Char) : IsTrimmed (content line) :=
  isTrimmed_trim _

/-- The content of a line without a comment is all of it but the blanks around it. -/
theorem content_of_not_mem {line : List Char} (h : '#' ∉ line) : content line = trim line := by
  have hline : line.takeWhile (· != '#') = line :=
    List.takeWhile_eq_self_iff.mpr fun c hc => bne_iff_ne.mpr fun heq => h (heq ▸ hc)
  rw [content, hline]

/-- The content of a line with a comment is that of what stands in front of the comment. -/
theorem content_append_comment (front comment : List Char) :
    content (front ++ '#' :: comment) = content front := by
  rw [content, takeWhile_append_left (by simp), content]

/-- No comment is left in the content of a line. -/
theorem not_mem_content (line : List Char) : '#' ∉ content line := by
  intro h
  have hchar := List.mem_takeWhile_imp (mem_of_mem_trim h)
  simp at hchar

/-! ### Entries -/

/-- Whether a text is the name of a permission. -/
def IsPermission (permission : String) (x : List Char) : Prop :=
  x ≠ [] ∧ (∀ c ∈ x, isPermissionChar c = true) ∧ permission = String.ofList x

/-- Whether a text is an entry: a method reference, spaces or tabs, and one or more permissions with
commas between them. -/
def IsEntry (m : MethodRef) (permissions : List String) (x : List Char) : Prop :=
  ∃ ref gap list, m.IsSpelled ref ∧ gap ≠ [] ∧ IsGap gap ∧ Listed IsPermission permissions list ∧
    x = ref ++ (gap ++ list)

/-- A line that says nothing or one thing. -/
def IsLine (line : List Char) : Prop :=
  content line = [] ∨ ∃ m permissions, IsEntry m permissions (content line)

/-- Neither spaces nor commas stand in the name of a permission. -/
theorem isPermissionChar_eq_false (c : Char) (h : isSpace c = true ∨ c = ',') :
    isPermissionChar c = false := by
  obtain h | rfl := h
  · simp [isPermissionChar, isBlank_of_isLayout (isLayout_of_isSpace h)]
  · decide

/-- The name of a permission begins without a space. -/
theorem IsPermission.stops {permission : String} {x : List Char} (h : IsPermission permission x) :
    x ≠ [] ∧ Stops isSpace x := by
  obtain ⟨hne, hchars, -⟩ := h
  refine ⟨hne, fun c hc => ?_⟩
  cases hspace : isSpace c with
  | false => rfl
  | true =>
    rw [← hchars c (List.mem_of_mem_head? hc), isPermissionChar_eq_false c (.inl hspace)]

/-- The name of a permission is taken up to a character that cannot stand in it. -/
theorem takes_permissionReader : permissionReader.Takes IsPermission isPermissionChar := by
  intro permission s t
  constructor
  · intro h
    obtain ⟨name, u, hrun, h⟩ := Reader.bind_eq_ok.mp h
    obtain ⟨rfl, rfl⟩ := Reader.pure_eq_ok.mp h
    obtain ⟨hne, hs, hchars, ht⟩ := Reader.run1_eq_ok' hrun
    exact ⟨ht, name, ⟨hne, hchars, rfl⟩, hs⟩
  · rintro ⟨ht, x, ⟨hne, hchars, rfl⟩, rfl⟩
    exact Reader.bind_ok (Reader.run1_append hne hchars ht) rfl

/-- A permission is not behind a text in which it can go on. -/
theorem further_fails_nil : (Reader.further permissionReader).Fails [] :=
  ⟨[], rfl⟩

/-- The whole of a trimmed text is taken as an entry exactly if it is one. -/
theorem whole?_entryReader {x : List Char} (hx : IsTrimmed x) {m : MethodRef}
    {permissions : List String} :
    entryReader.whole? x = some (m, permissions) ↔ IsEntry m permissions x := by
  rw [Reader.whole?_eq_some]
  constructor
  · intro h
    obtain ⟨m, s, hm, h⟩ := Reader.bind_eq_ok.mp h
    obtain ⟨_, t, hspaces1, h⟩ := Reader.bind_eq_ok.mp h
    obtain ⟨permissions, u, hps, h⟩ := Reader.bind_eq_ok.mp h
    obtain ⟨_, v, hspaces, h⟩ := Reader.bind_eq_ok.mp h
    obtain ⟨heq, rfl⟩ := Reader.pure_eq_ok.mp h
    obtain ⟨rfl, rfl⟩ := Prod.mk.inj heq
    obtain ⟨ref, href, rfl⟩ := MethodRef.reader_eq_ok_iff.mp hm
    obtain ⟨gap, hne, rfl, hgap, -⟩ := Reader.spaces1_eq_ok hspaces1
    obtain ⟨-, -, list, hlist, rfl⟩ := (Reader.sepBy1_eq_ok takes_permissionReader
      (fun _ _ => IsPermission.stops) isPermissionChar_eq_false).mp hps
    -- Spaces at the end would be blanks at the end of the text.
    have hdrop : u.dropWhile isSpace = [] := (Prod.mk.inj (Except.ok.inj hspaces)).2
    have htext : ref ++ (gap ++ (list ++ u)) = ref ++ (gap ++ list) ++ u := by simp
    rw [htext] at hx ⊢
    obtain rfl := hx.eq_nil_of_isSpace (List.dropWhile_eq_nil_iff.mp hdrop)
    exact ⟨ref, gap, list, href, hne, hgap, hlist, by simp⟩
  · rintro ⟨ref, gap, list, href, hne, hgap, hlist, rfl⟩
    have hlist' : Reader.sepBy1 permissionReader progresses_permissionReader Reader.comma
        Reader.forward_comma list = .ok (permissions, []) :=
      (Reader.sepBy1_eq_ok takes_permissionReader (fun _ _ => IsPermission.stops)
        isPermissionChar_eq_false).mpr
        ⟨stops_nil, further_fails_nil, list, hlist, (List.append_nil list).symm⟩
    have hstop := hlist.stops_append (fun _ _ => IsPermission.stops) []
    rw [List.append_nil] at hstop
    have hspaces : Reader.spaces1 (gap ++ list) = .ok ((), list) :=
      Reader.bind_of_ok (Reader.run1_append hne hgap hstop)
    refine Reader.bind_ok (MethodRef.reader_eq_ok_iff.mpr ⟨ref, href, rfl⟩) ?_
    exact Reader.bind_ok hspaces (Reader.bind_ok hlist' rfl)

/-- A text is an entry in one way. -/
theorem IsEntry.unique {x : List Char} (hx : IsTrimmed x) {m m' : MethodRef} {ps ps' : List String}
    (h : IsEntry m ps x) (h' : IsEntry m' ps' x) : m = m' ∧ ps = ps' := by
  have heq := ((whole?_entryReader hx).mpr h).symm.trans ((whole?_entryReader hx).mpr h')
  exact Prod.mk.inj (Option.some.inj heq)

/-- An entry names a permission. -/
theorem IsEntry.permissions_ne_nil {m : MethodRef} {ps : List String} {x : List Char}
    (h : IsEntry m ps x) : ps ≠ [] := by
  obtain ⟨_, _, _, -, -, -, hlist, -⟩ := h
  exact hlist.ne_nil

/-- An entry is not empty. -/
theorem IsEntry.ne_nil {m : MethodRef} {ps : List String} {x : List Char} (h : IsEntry m ps x) :
    x ≠ [] := by
  obtain ⟨ref, gap, list, -, hne, -, -, rfl⟩ := h
  simp [hne]

/-! ### One line -/

/-- What a line does to a table: nothing if it has no content, and otherwise its entry is entered;
a line of another form is refused under its number. -/
theorem addLine_eq (t : PermissionTable) (line : List Char) (number : Nat) :
    (content line = [] ∧ t.addLine line number = .ok t) ∨
      (∃ m ps, IsEntry m ps (content line) ∧ t.addLine line number =
        .ok ⟨t.apis.alter m fun known => some (known.getD ∅ ∪ .ofList ps)⟩) ∨
      (¬IsLine line ∧ t.addLine line number =
        .error (Cause.tableLine number (String.ofList (content line))).failure) := by
  by_cases hnil : content line = []
  · exact .inl ⟨hnil, by simp [addLine, hnil]⟩
  · refine .inr ?_
    have hempty : (content line).isEmpty = false := by simpa using hnil
    cases hentry : entryReader.whole? (content line) with
    | some entry =>
      obtain ⟨m, ps⟩ := entry
      have hentry' := (whole?_entryReader (isTrimmed_content line)).mp hentry
      have hne : ps ≠ [] := hentry'.permissions_ne_nil
      have hps : (Std.ExtTreeSet.ofList ps : PermissionSet).isEmpty = false := by
        simpa using hne
      exact .inl ⟨m, ps, hentry', by simp [addLine, hempty, hentry, insert, hps]⟩
    | none =>
      refine .inr ⟨?_, by simp [addLine, hempty, hentry]⟩
      rintro (h | ⟨m, ps, h⟩)
      · exact hnil h
      · rw [(whole?_entryReader (isTrimmed_content line)).mpr h] at hentry
        cases hentry

/-! ### All lines -/

/-- Whether a table unites the entries of the lines: a method without entries is not in it, and one
with entries has the permissions of all of them. -/
structure Unites (t : PermissionTable) (ls : List (List Char)) : Prop where
  /-- A method is not in the table exactly if no line has an entry for it. -/
  get?_eq_none : ∀ m, t.get? m = none ↔ ∀ l ∈ ls, ∀ ps, ¬IsEntry m ps (content l)
  /-- The permissions of a method are those of all entries for it. -/
  mem_get? : ∀ {m set}, t.get? m = some set →
    ∀ p, p ∈ set ↔ ∃ l ∈ ls, ∃ ps, IsEntry m ps (content l) ∧ p ∈ ps

/-- The table without entries unites those of no lines. -/
theorem unites_empty : empty.Unites [] where
  get?_eq_none m := by simp [get?, empty]
  mem_get? h := by simp [get?, empty] at h

/-- The permissions of a table that unites lines, also where there are none. -/
theorem Unites.mem_getD {t : PermissionTable} {ls : List (List Char)} (h : t.Unites ls)
    (m : MethodRef) (p : String) :
    p ∈ (t.get? m).getD ∅ ↔ ∃ l ∈ ls, ∃ ps, IsEntry m ps (content l) ∧ p ∈ ps := by
  cases hm : t.get? m with
  | none =>
    have hno := (h.get?_eq_none m).mp hm
    simp only [Option.getD_none, Std.ExtTreeSet.not_mem_empty, false_iff]
    rintro ⟨l, hl, ps, hentry, -⟩
    exact hno l hl ps hentry
  | some set => exact h.mem_get? hm p

/-- A table that unites lines unites them together with one that says nothing. -/
theorem Unites.append_empty {t : PermissionTable} {ls : List (List Char)} (h : t.Unites ls)
    {line : List Char} (hline : content line = []) : t.Unites (ls ++ [line]) := by
  have hno : ∀ m ps, ¬IsEntry m ps (content line) := fun m ps hentry => hentry.ne_nil hline
  constructor
  · intro m
    simp [h.get?_eq_none m, or_imp, forall_and, hno]
  · intro m set hm p
    simp [h.mem_get? hm p, or_and_right, exists_or, hno]

/-- A table that unites lines unites them together with one whose entry is entered. -/
theorem Unites.append_entry {t : PermissionTable} {ls : List (List Char)} (h : t.Unites ls)
    {line : List Char} {m : MethodRef} {ps : List String} (hline : IsEntry m ps (content line)) :
    Unites ⟨t.apis.alter m fun known => some (known.getD ∅ ∪ .ofList ps)⟩ (ls ++ [line]) := by
  have hunique : ∀ m' ps', IsEntry m' ps' (content line) ↔ m = m' ∧ ps = ps' := by
    intro m' ps'
    constructor
    · exact fun hentry => hline.unique (isTrimmed_content line) hentry
    · rintro ⟨rfl, rfl⟩
      exact hline
  have hget : ∀ m', get? ⟨t.apis.alter m fun known => some (known.getD ∅ ∪ .ofList ps)⟩ m' =
      if m = m' then some ((t.get? m).getD ∅ ∪ .ofList ps) else t.get? m' := by
    intro m'
    simp [get?, Std.ExtTreeMap.getElem?_alter]
  constructor
  · intro m'
    rw [hget]
    split
    · next heq => simp [heq, hunique, or_imp, forall_and]
    · next hne => simp [h.get?_eq_none m', or_imp, forall_and, hunique, hne]
  · intro m' set hm p
    rw [hget] at hm
    split at hm
    · next heq =>
      subst heq
      obtain rfl := Option.some.inj hm
      simp [h.mem_getD m p, or_and_right, exists_or, hunique]
    · next hne => simp [h.mem_get? hm p, or_and_right, exists_or, hunique, hne]

/-- Adding a line to a table that unites others. -/
theorem Unites.addLine {t t' : PermissionTable} {ls : List (List Char)} (h : t.Unites ls)
    {line : List Char} {number : Nat} (hadd : t.addLine line number = .ok t') :
    t'.Unites (ls ++ [line]) := by
  obtain ⟨hnil, heq⟩ | ⟨m, ps, hentry, heq⟩ | ⟨-, heq⟩ := t.addLine_eq line number
  · obtain rfl := Except.ok.inj (hadd.symm.trans heq)
    exact h.append_empty hnil
  · obtain rfl := Except.ok.inj (hadd.symm.trans heq)
    exact h.append_entry hentry
  · rw [hadd] at heq
    cases heq

/-- Adding a line succeeds if it says nothing or one thing, and otherwise fails under its number. -/
theorem addLine_of_isLine (t : PermissionTable) {line : List Char} (h : IsLine line) (number : Nat) :
    ∃ t', t.addLine line number = .ok t' := by
  obtain ⟨-, heq⟩ | ⟨m, ps, -, heq⟩ | ⟨hno, -⟩ := t.addLine_eq line number
  · exact ⟨_, heq⟩
  · exact ⟨_, heq⟩
  · exact absurd h hno

/-- Two tables that unite lines which are the same but for their order and number are equal. -/
theorem Unites.eq {t t' : PermissionTable} {ls ls' : List (List Char)} (h : t.Unites ls)
    (h' : t'.Unites ls') (hls : ∀ l, l ∈ ls ↔ l ∈ ls') : t = t' := by
  have hget : ∀ m, t.get? m = t'.get? m := by
    intro m
    have hnone : t.get? m = none ↔ t'.get? m = none := by
      simp only [h.get?_eq_none, h'.get?_eq_none, hls]
    cases hm : t.get? m with
    | none => exact (hnone.mp hm).symm
    | some set =>
      cases hm' : t'.get? m with
      | none => rw [hnone.mpr hm'] at hm; cases hm
      | some set' =>
        congr 1
        ext p
        simp only [h.mem_get? hm, h'.mem_get? hm', hls]
  obtain ⟨apis⟩ := t
  obtain ⟨apis'⟩ := t'
  congr 1
  exact Std.ExtTreeMap.ext_getElem? fun {m} => hget m

/-- No set in a table that unites lines is empty. -/
theorem Unites.get?_ne_empty {t : PermissionTable} {ls : List (List Char)} (h : t.Unites ls)
    (m : MethodRef) : t.get? m ≠ some ∅ := by
  intro hm
  have hne : t.get? m ≠ none := by simp [hm]
  rw [ne_eq, h.get?_eq_none] at hne
  push Not at hne
  obtain ⟨l, hl, ps, hentry⟩ := hne
  obtain ⟨p, hp⟩ := List.exists_mem_of_ne_nil ps hentry.permissions_ne_nil
  have hmem := (h.mem_get? hm p).mpr ⟨l, hl, ps, hentry, hp⟩
  simp at hmem

/-- Adds the entries on lines, the first of which has the given number. -/
def addLines (t : PermissionTable) (ls : List (List Char)) (number : Nat) :
    Except Failure PermissionTable :=
  (ls.zipIdx number).foldlM (fun t (line, number) => t.addLine line number) t

/-- What comes of adding lines to a table that unites others: a table that unites all of them if
each says nothing or one thing, and otherwise the failure of the first one that does not. -/
theorem Unites.addLines {t : PermissionTable} {done : List (List Char)} (h : t.Unites done)
    (ls : List (List Char)) (number : Nat) :
    (∃ t', t.addLines ls number = .ok t' ∧ t'.Unites (done ++ ls) ∧ ∀ l ∈ ls, IsLine l) ∨
      ∃ front bad behind, ls = front ++ bad :: behind ∧ (∀ l ∈ front, IsLine l) ∧ ¬IsLine bad ∧
        t.addLines ls number =
          .error (Cause.tableLine (number + front.length) (String.ofList (content bad))).failure := by
  induction ls generalizing t done number with
  | nil => exact .inl ⟨t, rfl, by simpa using h, nofun⟩
  | cons l ls ih =>
    have hstep : t.addLines (l :: ls) number =
        t.addLine l number >>= fun t' => t'.addLines ls (number + 1) := rfl
    by_cases hl : IsLine l
    · obtain ⟨t₁, hadd⟩ := t.addLine_of_isLine hl number
      have hrest : t.addLines (l :: ls) number = t₁.addLines ls (number + 1) := by
        rw [hstep, hadd]
        rfl
      obtain ⟨t', hok, hunites, hall⟩ | ⟨front, bad, behind, rfl, hfront, hbad, herror⟩ :=
        ih (h.addLine hadd) (number + 1)
      · refine .inl ⟨t', hrest.trans hok, by simpa using hunites, ?_⟩
        simpa using ⟨hl, hall⟩
      · refine .inr ⟨l :: front, bad, behind, rfl, by simpa using ⟨hl, hfront⟩, hbad, ?_⟩
        rw [hrest, herror, List.length_cons, Nat.add_right_comm, Nat.add_assoc]
    · obtain ⟨hnil, -⟩ | ⟨m, ps, hentry, -⟩ | ⟨-, herror⟩ := t.addLine_eq l number
      · exact absurd (.inl hnil) hl
      · exact absurd (.inr ⟨m, ps, hentry⟩) hl
      · refine .inr ⟨[], l, ls, rfl, nofun, hl, ?_⟩
        rw [hstep, herror]
        rfl

/-- A text is read exactly if each of its lines says nothing or one thing. What is read unites the
entries of the lines and has no empty sets; it is the same for any text with the same lines,
whatever their order and number. The failure for any other text names the first line of another
form. -/
theorem ofText_exact (text : String) :
    ((∃ t, ofText text = .ok t) ↔ ∀ l ∈ lines text.toList, IsLine l) ∧
      (∀ t, ofText text = .ok t → t.Unites (lines text.toList) ∧ (∀ m, t.get? m ≠ some ∅) ∧
        ∀ other : String, (∀ l, l ∈ lines text.toList ↔ l ∈ lines other.toList) →
          ofText other = .ok t) ∧
      ∀ f, ofText text = .error f → ∃ front bad behind,
        lines text.toList = front ++ bad :: behind ∧ (∀ l ∈ front, IsLine l) ∧ ¬IsLine bad ∧
          f = (Cause.tableLine (front.length + 1) (String.ofList (content bad))).failure := by
  have hread : ∀ text : String, ofText text = empty.addLines (lines text.toList) 1 := fun _ => rfl
  obtain ⟨t, hok, hunites, hall⟩ | ⟨front, bad, behind, hlines, hfront, hbad, herror⟩ :=
    unites_empty.addLines (lines text.toList) 1
  · rw [← hread] at hok
    refine ⟨⟨fun _ => hall, fun _ => ⟨t, hok⟩⟩, ?_, ?_⟩
    · intro t' ht'
      obtain rfl := Except.ok.inj (hok.symm.trans ht')
      refine ⟨hunites, hunites.get?_ne_empty, fun other hsame => ?_⟩
      obtain ⟨t', hok', hunites', -⟩ | ⟨front, bad, behind, hlines, -, hbad, -⟩ :=
        unites_empty.addLines (lines other.toList) 1
      · rw [hread other, hok', hunites.eq hunites' hsame]
      · have hmem : bad ∈ lines other.toList := by simp [hlines]
        exact absurd (hall bad ((hsame bad).mpr hmem)) hbad
    · intro f hf
      rw [hok] at hf
      cases hf
  · rw [← hread] at herror
    refine ⟨⟨?_, ?_⟩, ?_, ?_⟩
    · rintro ⟨t, ht⟩
      rw [ht] at herror
      cases herror
    · intro hall
      exact absurd (hall bad (by simp [hlines])) hbad
    · intro t ht
      rw [ht] at herror
      cases herror
    · intro f hf
      obtain rfl := Except.error.inj (herror.symm.trans hf)
      exact ⟨front, bad, behind, hlines, hfront, hbad, by rw [Nat.add_comm]⟩

/-- The permissions of both lines with the method are those that a call of it needs. -/
example :
    (ofText "LSensor;->start()V SENSE, LOG # two\n\nLSensor;->start()V\tCALL\r\n").toOption.map
      (fun t => (t.get? ⟨"LSensor;", "start", ⟨[], .void⟩⟩).map (·.toList)) =
    some (some ["CALL", "LOG", "SENSE"]) := by
  cbv

/-- A line without a blank behind the method is refused; empty lines and comments count. -/
example : ofText "# calls\nLSensor;->start()V SENSE\n\nLSensor;->stop()V, CALL # none\n" =
    .error (Cause.tableLine 4 "LSensor;->stop()V, CALL").failure := by
  cbv

end PermissionTable

end GatedCalls
