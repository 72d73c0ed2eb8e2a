import GatedCalls.Proofs.Text.Trim
import GatedCalls.Text.Reader.Repetition

/-!
# What readers take

For each reader of the library two facts: what it takes off a text that is put together of the right
parts, and which parts a text has off which it has taken something. The first kind evaluates a
reader from left to right along a printed text; the second kind takes a reading apart.
-/

namespace GatedCalls.Text.Reader

variable {α β : Type} {r : Reader α} {f : α → Reader β} {s t : List Char}

/-- Whether the reader fails on the text. -/
def Fails (r : Reader α) (s : List Char) : Prop :=
  ∃ e, r s = .error e

/-- A reader that takes nothing fails. -/
theorem fails_of_ne_ok (h : ∀ a t, r s ≠ .ok (a, t)) : r.Fails s := by
  cases hr : r s with
  | error e => exact ⟨e, hr⟩
  | ok x => exact absurd hr (h x.1 x.2)

/-- A reader does not fail where it takes something. -/
theorem not_fails_of_ok {a : α} (h : r s = .ok (a, t)) : ¬r.Fails s := by
  rintro ⟨e, he⟩
  rw [h] at he
  cases he

/-- A reader takes one thing off a text. -/
theorem ok_unique {a b : α} {u : List Char} (h₁ : r s = .ok (a, t)) (h₂ : r s = .ok (b, u)) :
    a = b ∧ t = u := by
  rw [h₁] at h₂
  exact Prod.mk.inj (Except.ok.inj h₂)

/-! ### Sequences and choices -/

/-- A sequence goes on behind what its first part takes. -/
theorem bind_of_ok {a : α} (h : r s = .ok (a, t)) : (r >>= f) s = f a t := by
  rw [bind_apply, h]

/-- A sequence takes what its parts take one after the other. -/
theorem bind_ok {a : α} {b : β} {u : List Char} (h : r s = .ok (a, t)) (hf : f a t = .ok (b, u)) :
    (r >>= f) s = .ok (b, u) := by
  rw [bind_of_ok h, hf]

/-- A sequence fails where its first part does. -/
theorem Fails.bind (h : r.Fails s) : (r >>= f).Fails s := by
  obtain ⟨e, he⟩ := h
  exact ⟨e, by rw [bind_apply, he]⟩

/-- A sequence fails if what is behind its first part does. -/
theorem Fails.bind_of_ok {a : α} (h : r s = .ok (a, t)) (hf : (f a).Fails t) :
    (r >>= f).Fails s := by
  obtain ⟨e, he⟩ := hf
  exact ⟨e, by rw [Reader.bind_of_ok h, he]⟩

/-- What a sequence takes, its parts take one after the other. -/
theorem bind_eq_ok {b : β} {u : List Char} :
    (r >>= f) s = .ok (b, u) ↔ ∃ a t, r s = .ok (a, t) ∧ f a t = .ok (b, u) := by
  rw [bind_apply]
  constructor
  · intro h
    split at h
    · exact ⟨_, _, by assumption, h⟩
    · cases h
  · rintro ⟨a, t, hr, hf⟩
    rw [hr]
    exact hf

/-- A constant reader takes nothing and yields its value. -/
theorem pure_eq_ok {a b : α} : (pure a : Reader α) s = .ok (b, t) ↔ a = b ∧ s = t := by
  simp

/-- A choice takes what its first side takes. -/
theorem orElse_of_ok {r' : Reader α} {x : α × List Char} (h : r s = .ok x) :
    orElse r r' s = .ok x := by
  rw [orElse, h]

/-- A choice takes what its second side takes where the first one fails. -/
theorem orElse_of_fails {r' : Reader α} (h : r.Fails s) : orElse r r' s = r' s := by
  obtain ⟨e, he⟩ := h
  rw [orElse, he]

/-- What a choice takes, one of its sides takes. -/
theorem orElse_eq_ok {r' : Reader α} {x : α × List Char} :
    orElse r r' s = .ok x ↔ r s = .ok x ∨ r.Fails s ∧ r' s = .ok x := by
  unfold orElse Fails
  cases r s <;> simp

/-- What may be left out is taken where it can be. -/
theorem optional_of_ok {a : α} (h : r s = .ok (a, t)) : optional r s = .ok (some a, t) := by
  rw [optional, h]

/-- What may be left out is left out where it cannot be taken. -/
theorem optional_of_fails (h : r.Fails s) : optional r s = .ok (none, s) := by
  obtain ⟨e, he⟩ := h
  rw [optional, he]

/-- What may be left out has been taken. -/
theorem optional_eq_ok_some {a : α} : optional r s = .ok (some a, t) ↔ r s = .ok (a, t) := by
  unfold optional
  cases r s <;> simp [Prod.ext_iff]

/-- What may be left out has been left out. -/
theorem optional_eq_ok_none : optional r s = .ok (none, t) ↔ r.Fails s ∧ s = t := by
  unfold optional Fails
  cases r s <;> simp

/-! ### Literals and runs -/

/-- A text in front is taken off. -/
theorem isPrefixOf?_append (p t : List Char) : p.isPrefixOf? (p ++ t) = some t := by
  induction p with
  | nil => rfl
  | cons c p ih =>
    change (if c == c then p.isPrefixOf? (p ++ t) else none) = some t
    rw [if_pos (beq_self_eq_true c), ih]

/-- A literal is taken off a text that begins with it. -/
theorem literal_append (text : String) (rest : List Char) :
    literal text (text.toList ++ rest) = .ok ((), rest) := by
  rw [literal, isPrefixOf?_append]

/-- A literal is taken exactly off a text that begins with it. -/
theorem literal_eq_ok_iff {text : String} {u : Unit} :
    literal text s = .ok (u, t) ↔ s = text.toList ++ t := by
  constructor
  · exact literal_eq_ok
  · rintro rfl
    exact literal_append text t

/-- A literal cannot be taken off a text that does not begin with it. -/
theorem literal_fails {text : String} (h : startsWith text s = false) : (literal text).Fails s := by
  cases hs : literal text s with
  | error e => exact ⟨e, hs⟩
  | ok x =>
    rw [startsWith_iff.mpr ⟨x.2, literal_eq_ok hs⟩] at h
    cases h

/-- A run is taken off in front of a text that stops it. -/
theorem run_append {p : Char → Bool} {cs rest : List Char} (h : ∀ c ∈ cs, p c = true)
    (hrest : Stops p rest) : run p (cs ++ rest) = .ok (cs, rest) := by
  rw [run, takeWhile_append_of_stops h hrest, dropWhile_append_of_stops h hrest]

/-- A run that has been taken, with the text behind it. -/
theorem run_eq_ok {p : Char → Bool} {cs : List Char} (h : run p s = .ok (cs, t)) :
    s = cs ++ t ∧ (∀ c ∈ cs, p c = true) ∧ Stops p t := by
  have h' : (s.takeWhile p, s.dropWhile p) = (cs, t) := Except.ok.inj h
  obtain ⟨rfl, rfl⟩ := Prod.mk.inj h'
  exact ⟨List.takeWhile_append_dropWhile.symm, fun c => List.all_eq_true.mp List.all_takeWhile c,
    stops_dropWhile p s⟩

/-- A run of at least one character is taken off in front of a text that stops it. -/
theorem run1_append {p : Char → Bool} {cs rest : List Char} (hne : cs ≠ [])
    (h : ∀ c ∈ cs, p c = true) (hrest : Stops p rest) : run1 p (cs ++ rest) = .ok (cs, rest) := by
  rw [run1, takeWhile_append_of_stops h hrest, dropWhile_append_of_stops h hrest]
  obtain ⟨c, cs, rfl⟩ := List.exists_cons_of_ne_nil hne
  rfl

/-- A run of at least one character that has been taken, with the text behind it. -/
theorem run1_eq_ok' {p : Char → Bool} {cs : List Char} (h : run1 p s = .ok (cs, t)) :
    cs ≠ [] ∧ s = cs ++ t ∧ (∀ c ∈ cs, p c = true) ∧ Stops p t := by
  obtain ⟨hne, rfl, rfl⟩ := run1_eq_ok h
  exact ⟨hne, List.takeWhile_append_dropWhile.symm, fun c => List.all_eq_true.mp List.all_takeWhile c,
    stops_dropWhile p s⟩

/-- What is kept of a run of which the blanks around it are left out. -/
theorem trim_run1_eq_ok {p : Char → Bool} {cs : List Char} (h : run1 p s = .ok (cs, t)) :
    IsTrimmed (String.ofList (trim cs)).toList ∧
      ∀ c ∈ (String.ofList (trim cs)).toList, p c = true := by
  obtain ⟨-, -, hchars, -⟩ := run1_eq_ok' h
  rw [String.toList_ofList]
  exact ⟨isTrimmed_trim cs, fun c hc => hchars c (mem_of_mem_trim hc)⟩

/-- A run of at least one character cannot be taken off a text that stops it. -/
theorem run1_fails {p : Char → Bool} (h : Stops p s) : (run1 p).Fails s := by
  refine ⟨s, ?_⟩
  cases s with
  | nil => rfl
  | cons c s => simp [run1, stops_cons.mp h]

/-- Spaces are taken off up to the first other character. -/
theorem spaces_apply (s : List Char) : spaces s = .ok ((), s.dropWhile isSpace) := rfl

/-- No spaces are taken where there are none. -/
theorem spaces_of_stops (h : Stops isSpace s) : spaces s = .ok ((), s) := by
  rw [spaces_apply, dropWhile_of_stops h]

/-- One space is taken off in front of something else. -/
theorem spaces_cons {c : Char} (hc : isSpace c = true) (h : Stops isSpace s) :
    spaces (c :: s) = .ok ((), s) := by
  rw [spaces_apply, List.dropWhile_cons_of_pos hc, dropWhile_of_stops h]

/-- Spaces are taken off where there are some. -/
theorem spaces1_apply {c : Char} (hc : isSpace c = true) (s : List Char) :
    spaces1 (c :: s) = .ok ((), s.dropWhile isSpace) := by
  have hrun : run1 isSpace (c :: s) = .ok (c :: s.takeWhile isSpace, s.dropWhile isSpace) := by
    simp [run1, hc]
  exact bind_of_ok hrun

/-- One space is taken off in front of something else. -/
theorem spaces1_cons {c : Char} (hc : isSpace c = true) (h : Stops isSpace s) :
    spaces1 (c :: s) = .ok ((), s) := by
  rw [spaces1_apply hc, dropWhile_of_stops h]

/-- Spaces that have been taken, with the text behind them. -/
theorem spaces1_eq_ok {u : Unit} (h : spaces1 s = .ok (u, t)) :
    ∃ cs, cs ≠ [] ∧ s = cs ++ t ∧ (∀ c ∈ cs, isSpace c = true) ∧ Stops isSpace t := by
  obtain ⟨cs, t', hrun, hpure⟩ := bind_eq_ok.mp h
  obtain ⟨-, rfl⟩ := pure_eq_ok.mp hpure
  exact ⟨cs, run1_eq_ok' hrun⟩

/-- Layout is taken off up to the first other character. -/
theorem layout_apply (s : List Char) : layout s = .ok ((), afterLayout s) := rfl

/-- What stands in layout is taken with the layout around it. -/
theorem inLayout_of_ok {a : α} (h : r (afterLayout s) = .ok (a, t)) :
    inLayout r s = .ok (a, afterLayout t) := by
  rw [inLayout, bind_of_ok (layout_apply s), bind_of_ok h, bind_of_ok (layout_apply t)]
  rfl

/-- What has been taken with the layout around it. -/
theorem inLayout_eq_ok {a : α} {u : List Char} :
    inLayout r s = .ok (a, u) ↔ ∃ t, r (afterLayout s) = .ok (a, t) ∧ u = afterLayout t := by
  constructor
  · intro h
    rw [inLayout, bind_of_ok (layout_apply s)] at h
    obtain ⟨b, t, hr, h⟩ := bind_eq_ok.mp h
    rw [bind_of_ok (layout_apply t)] at h
    obtain ⟨rfl, rfl⟩ := pure_eq_ok.mp h
    exact ⟨t, hr, rfl⟩
  · rintro ⟨t, hr, rfl⟩
    exact inLayout_of_ok hr

/-- What cannot be taken behind the layout cannot be taken with it. -/
theorem Fails.inLayout (h : r.Fails (afterLayout s)) : (inLayout r).Fails s :=
  Fails.bind_of_ok (layout_apply s) h.bind

/-! ### Words -/

/-- The text before the first occurrence of a word, where the word does not begin earlier. -/
theorem breakAt_append {stop b rest : List Char} (hstop : stop ≠ [])
    (h : ∀ b₁ b₂, b = b₁ ++ b₂ → b₂ ≠ [] → ¬stop <+: b₂ ++ (stop ++ rest)) :
    breakAt stop (b ++ (stop ++ rest)) = some (b, stop ++ rest) := by
  induction b with
  | nil =>
    obtain ⟨c, stop, rfl⟩ := List.exists_cons_of_ne_nil hstop
    have hpre : (c :: stop).isPrefixOf (c :: (stop ++ rest)) = true :=
      List.isPrefixOf_iff_prefix.mpr ⟨rest, rfl⟩
    rw [List.nil_append, List.cons_append, breakAt, if_pos hpre]
  | cons c b ih =>
    have hpre : ¬stop.isPrefixOf (c :: (b ++ (stop ++ rest))) = true := by
      rw [List.isPrefixOf_iff_prefix]
      exact h [] (c :: b) rfl (by simp)
    rw [List.cons_append, breakAt, if_neg hpre,
      ih fun b₁ b₂ hb hne => h (c :: b₁) b₂ (by rw [hb, List.cons_append]) hne]
    rfl

/-- What stands before the first occurrence of a word does not hold the word. -/
theorem not_infix_of_breakAt {stop s b t : List Char} (hstop : stop ≠ [])
    (h : breakAt stop s = some (b, t)) : ¬stop <:+: b := by
  induction s generalizing b with
  | nil =>
    simp only [breakAt, List.isEmpty_iff, hstop, if_false] at h
    cases h
  | cons c s ih =>
    simp only [breakAt] at h
    split at h
    · obtain ⟨rfl, -⟩ := Prod.mk.inj (Option.some.inj h)
      rwa [List.infix_nil]
    · next hpre =>
      obtain ⟨⟨b', t'⟩, hb, he⟩ := Option.map_eq_some_iff.mp h
      obtain ⟨rfl, rfl⟩ := Prod.mk.inj he
      rw [List.infix_cons_iff, not_or]
      refine ⟨fun hprefix => hpre ?_, ih hb⟩
      rw [List.isPrefixOf_iff_prefix, eq_append_of_breakAt hb]
      exact hprefix.trans (List.prefix_append (c :: b') t')

/-- What has been taken before a word stands before its first occurrence. -/
theorem breakAt_of_before {stop : String} {b : List Char} (h : before stop s = .ok (b, t)) :
    breakAt stop.toList s = some (b, t) := by
  unfold before at h
  split at h
  · next hfound => rw [hfound, Except.ok.inj h]
  · cases h

/-! ### Lines -/

/-- The text of a line is taken off in front of the line feed. -/
theorem lineText_append {cs : List Char} (h : InLine cs) (rest : List Char) :
    lineText (cs ++ '\n' :: rest) = .ok (cs, '\n' :: rest) := by
  have hstop : Stops isInLine ('\n' :: rest) := by simp [isInLine]
  rw [lineText, dropWhile_append_of_stops h hstop, takeWhile_append_of_stops h hstop]
  rfl

/-- A carriage return with no line feed behind it is not read as the text of a line. -/
theorem lineText_fails {x y : List Char} (hx : InLine x) (hy : ∀ z, y ≠ '\n' :: z) :
    lineText.Fails (x ++ '\r' :: y) := by
  have hdrop : (x ++ '\r' :: y).dropWhile isInLine = '\r' :: y :=
    dropWhile_append_of_stops hx (stops_cons.mpr (by decide))
  refine ⟨x ++ '\r' :: y, ?_⟩
  unfold lineText
  rw [hdrop]
  split
  · next heq => exact absurd (List.cons.inj heq).2 (hy _)
  · rfl
  · next hreturn => exact absurd rfl (hreturn _)

/-- A line is taken off with its line feed. -/
theorem restOfLine_append {cs : List Char} (h : InLine cs) (rest : List Char) :
    restOfLine (cs ++ '\n' :: rest) = .ok (cs, rest) := by
  rw [restOfLine, bind_of_ok (lineText_append h rest)]
  rfl

/-- A line is taken off with its line feed. -/
theorem line_append {cs : List Char} (h : InLine cs) (rest : List Char) :
    line (cs ++ '\n' :: rest) = .ok (cs, rest) := by
  rw [line, if_neg (by simp), restOfLine_append h]

/-- A line is taken off with its line break. -/
theorem line_append_lineBreak {x lineBreak : List Char} (hx : InLine x)
    (hbreak : IsLineBreak lineBreak) (rest : List Char) :
    line (x ++ (lineBreak ++ rest)) = .ok (x, rest) := by
  obtain rfl | rfl := hbreak
  · exact line_append hx rest
  · have hstop : Stops isInLine ('\r' :: '\n' :: rest) := stops_cons.mpr (by decide)
    have htext : lineText (x ++ '\r' :: '\n' :: rest) = .ok (x, '\r' :: '\n' :: rest) := by
      rw [lineText, dropWhile_append_of_stops hx hstop, takeWhile_append_of_stops hx hstop]
      rfl
    have hline : restOfLine (x ++ '\r' :: '\n' :: rest) = .ok (x, rest) := bind_ok htext rfl
    have hne : (x ++ '\r' :: '\n' :: rest).isEmpty = false := by simp
    rw [line, List.cons_append, List.cons_append, List.nil_append, hne, if_neg (by decide), hline]

/-- The text of a line that has been taken is in line. -/
theorem lineText_eq_ok {x : List Char} (h : lineText s = .ok (x, t)) : s = x ++ t ∧ InLine x := by
  have hx : ∀ c ∈ s.takeWhile isInLine, isInLine c = true :=
    fun c => List.all_eq_true.mp List.all_takeWhile c
  have hs : s = s.takeWhile isInLine ++ s.dropWhile isInLine :=
    List.takeWhile_append_dropWhile.symm
  unfold lineText at h
  split at h
  · next hdrop =>
    obtain ⟨rfl, rfl⟩ := Prod.mk.inj (Except.ok.inj h)
    exact ⟨hdrop ▸ hs, hx⟩
  · cases h
  · obtain ⟨rfl, rfl⟩ := Prod.mk.inj (Except.ok.inj h)
    exact ⟨hs, hx⟩

/-- A line that has been taken is all that stood in front of the line break. -/
theorem eq_takeWhile_of_restOfLine {x : List Char} (h : restOfLine s = .ok (x, t)) :
    x = s.takeWhile isInLine := by
  obtain ⟨y, u, htext, h⟩ := bind_eq_ok.mp h
  obtain ⟨-, v, -, h⟩ := bind_eq_ok.mp h
  obtain ⟨rfl, -⟩ := pure_eq_ok.mp h
  unfold lineText at htext
  split at htext
  · exact (Prod.mk.inj (Except.ok.inj htext)).1.symm
  · cases htext
  · exact (Prod.mk.inj (Except.ok.inj htext)).1.symm

/-- A line that has been taken is in line. -/
theorem inLine_of_restOfLine {x : List Char} (h : restOfLine s = .ok (x, t)) : InLine x := by
  rw [eq_takeWhile_of_restOfLine h]
  exact fun c => List.all_eq_true.mp List.all_takeWhile c

/-- A line that has been taken is the rest of the line. -/
theorem restOfLine_of_line {x : List Char} (h : line s = .ok (x, t)) : restOfLine s = .ok (x, t) := by
  unfold line at h
  split at h
  · cases h
  · exact h

/-- Only the end of the text is taken for it. -/
theorem endOfText_eq_ok {u : Unit} (h : endOfText s = .ok (u, t)) : s = [] := by
  unfold endOfText at h
  split at h
  · next hs => exact List.isEmpty_iff.mp hs
  · cases h

/-- A whole text has been taken. -/
theorem whole?_eq_some {a : α} : whole? r s = some a ↔ r s = .ok (a, []) := by
  unfold whole?
  split
  · next h => simp [h]
  · next h =>
    constructor
    · intro ha
      cases ha
    · intro ha
      exact absurd ha (h a)

/-! ### Repetitions -/

/-- A repetition takes values that stand one behind another and goes on behind them. What may follow
a value is the same for all of them. -/
theorem takeMany_append {hr : r.Progresses} (print : α → List Char) (Q : List Char → Prop)
    {as : List α} (hprint : ∀ a ∈ as, ∀ rest, Q rest → r (print a ++ rest) = .ok (a, rest))
    (hfollow : ∀ a ∈ as, ∀ rest, Q (print a ++ rest)) (ht : Q t) :
    takeMany r hr (as.flatMap print ++ t) =
      (as ++ (takeMany r hr t).1, (takeMany r hr t).2) := by
  induction as with
  | nil => rfl
  | cons a as ih =>
    have hQ : Q (as.flatMap print ++ t) := by
      cases as with
      | nil => exact ht
      | cons b as =>
        rw [List.flatMap_cons, List.append_assoc]
        exact hfollow b (by simp) _
    rw [List.flatMap_cons, List.append_assoc,
      takeMany_of_ok (hprint a List.mem_cons_self _ hQ),
      ih (fun b hb => hprint b (List.mem_cons_of_mem a hb))
        (fun b hb => hfollow b (List.mem_cons_of_mem a hb))]
    rfl

/-- A repetition ends where no further value can be taken. -/
theorem takeMany_of_fails {hr : r.Progresses} (h : r.Fails s) : takeMany r hr s = ([], s) := by
  obtain ⟨e, he⟩ := h
  exact takeMany_of_error he

/-- The first of the values that a repetition has taken. -/
theorem takeMany_eq_cons {hr : r.Progresses} {a : α} {as : List α}
    (h : takeMany r hr s = (a :: as, t)) :
    ∃ u, r s = .ok (a, u) ∧ takeMany r hr u = (as, t) := by
  cases hs : r s with
  | error e =>
    rw [takeMany_of_error hs] at h
    cases h
  | ok x =>
    obtain ⟨b, u⟩ := x
    rw [takeMany_of_ok hs] at h
    obtain ⟨hcons, ht⟩ := Prod.mk.inj h
    obtain ⟨rfl, has⟩ := List.cons.inj hcons
    exact ⟨u, rfl, Prod.ext has ht⟩

/-- A repetition that has taken nothing stands where its reader fails. -/
theorem takeMany_eq_nil {hr : r.Progresses} (h : takeMany r hr s = ([], t)) : r.Fails s ∧ s = t := by
  cases hs : r s with
  | error e =>
    rw [takeMany_of_error hs] at h
    exact ⟨⟨e, hs⟩, (Prod.mk.inj h).2⟩
  | ok x =>
    rw [takeMany_of_ok hs] at h
    cases h

/-- A repetition takes values that stand one behind another, up to where no further one can be
taken. -/
theorem takeMany_flatMap {hr : r.Progresses} (print : α → List Char) (Q : List Char → Prop)
    {as : List α} (hprint : ∀ a ∈ as, ∀ rest, Q rest → r (print a ++ rest) = .ok (a, rest))
    (hfollow : ∀ a ∈ as, ∀ rest, Q (print a ++ rest)) (ht : Q t) (hstop : r.Fails t) :
    takeMany r hr (as.flatMap print ++ t) = (as, t) := by
  rw [takeMany_append print Q hprint hfollow ht, takeMany_of_fails hstop, List.append_nil]

/-- What a repetition has taken, its reader has taken piece by piece, and it stands where its reader
fails. -/
theorem takeMany_eq {hr : r.Progresses} {P : α → Prop} (print : α → List Char)
    (hread : ∀ {s a t}, r s = .ok (a, t) → P a ∧ s = print a ++ t) {as : List α}
    (h : takeMany r hr s = (as, t)) : (∀ a ∈ as, P a) ∧ s = as.flatMap print ++ t := by
  induction hn : s.length using Nat.strongRecOn generalizing s as with
  | _ n ih =>
    cases hs : r s with
    | error e =>
      rw [takeMany_of_error hs] at h
      obtain ⟨rfl, rfl⟩ := Prod.mk.inj h
      exact ⟨nofun, rfl⟩
    | ok x =>
      obtain ⟨a, u⟩ := x
      rw [takeMany_of_ok hs] at h
      obtain ⟨rfl, hu⟩ := Prod.mk.inj h
      obtain ⟨ha, rfl⟩ := hread hs
      obtain ⟨has, hrest⟩ := ih u.length (hn ▸ hr.lt hs) (Prod.ext rfl hu) rfl
      refine ⟨fun b hb => ?_, ?_⟩
      · obtain rfl | hb := List.mem_cons.mp hb
        · exact ha
        · exact has b hb
      · rw [List.flatMap_cons, List.append_assoc, ← hrest]

/-- A repetition with an end goes on behind an item. -/
theorem manyTill_cons {stop : Reader β} {hr : r.Progresses} {start u : List Char} {a : α}
    {as : List α} {b : β} (hstop : stop.Fails s) (ha : r s = .ok (a, t))
    (h : manyTill stop r hr start t = .ok ((as, b), u)) :
    manyTill stop r hr start s = .ok ((a :: as, b), u) := by
  obtain ⟨e, he⟩ := hstop
  rw [manyTill_of_ok he ha, h]

/-- A repetition with an end that has been taken is at its end or goes on behind an item. -/
theorem manyTill_eq_ok {stop : Reader β} {hr : r.Progresses} {start u : List Char}
    {as : List α} {b : β} (h : manyTill stop r hr start s = .ok ((as, b), u)) :
    (as = [] ∧ stop s = .ok (b, u)) ∨
      stop.Fails s ∧ ∃ a t as', as = a :: as' ∧ r s = .ok (a, t) ∧
        manyTill stop r hr start t = .ok ((as', b), u) := by
  cases hs : stop s with
  | ok x =>
    obtain ⟨b', t⟩ := x
    rw [manyTill_of_stop hs] at h
    obtain ⟨h₁, rfl⟩ := Prod.mk.inj (Except.ok.inj h)
    obtain ⟨rfl, rfl⟩ := Prod.mk.inj h₁
    exact .inl ⟨rfl, rfl⟩
  | error e =>
    refine .inr ⟨⟨e, hs⟩, ?_⟩
    cases ha : r s with
    | error e' =>
      by_cases hnil : s = []
      · subst hnil
        rw [manyTill_nil hs] at h
        cases h
      · rw [manyTill_of_error hs hnil ha] at h
        cases h
    | ok x =>
      obtain ⟨a, t⟩ := x
      rw [manyTill_of_ok hs ha] at h
      cases hm : manyTill stop r hr start t with
      | error e' => simp [hm] at h
      | ok y =>
        obtain ⟨⟨as', b'⟩, u'⟩ := y
        simp only [hm] at h
        obtain ⟨h₁, rfl⟩ := Prod.mk.inj (Except.ok.inj h)
        obtain ⟨rfl, rfl⟩ := Prod.mk.inj h₁
        exact ⟨a, t, as', rfl, rfl, hm⟩

/-- What a repetition with an end has taken where its item stands. -/
theorem manyTill_eq_cons {stop : Reader β} {hr : r.Progresses} {start u : List Char} {a : α}
    {as : List α} {b : β} (hstop : stop.Fails s) (ha : r s = .ok (a, t))
    (h : manyTill stop r hr start s = .ok ((as, b), u)) :
    ∃ as', as = a :: as' ∧ manyTill stop r hr start t = .ok ((as', b), u) := by
  obtain ⟨-, hend⟩ | ⟨-, a', t', as', rfl, ha', h⟩ := manyTill_eq_ok h
  · exact absurd hstop (not_fails_of_ok hend)
  · obtain ⟨rfl, rfl⟩ := ok_unique ha ha'
    exact ⟨as', rfl, h⟩

/-- Each item of a repetition with an end has been taken off a suffix of the text. -/
theorem manyTill_forall {stop : Reader β} {hr : r.Progresses} (hf : r.Forward)
    {start u : List Char} {as : List α} {b : β} (h : manyTill stop r hr start s = .ok ((as, b), u)) :
    ∀ a ∈ as, ∃ t v, t <:+ s ∧ r t = .ok (a, v) := by
  induction as generalizing s with
  | nil => exact nofun
  | cons a as ih =>
    obtain ⟨hnil, -⟩ | ⟨-, a', t, as', heq, ha, h⟩ := manyTill_eq_ok h
    · cases hnil
    · obtain ⟨rfl, rfl⟩ := List.cons.inj heq
      intro b hb
      obtain rfl | hb := List.mem_cons.mp hb
      · exact ⟨s, t, List.suffix_refl s, ha⟩
      · obtain ⟨t', v, hsuffix, hread⟩ := ih h b hb
        exact ⟨t', v, hsuffix.trans (hf.ok ha), hread⟩

end GatedCalls.Text.Reader
