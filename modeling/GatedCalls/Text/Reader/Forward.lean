import GatedCalls.Text.Reader.Basic

/-!
# Moving forward

`Forward` says that what a reader leaves, and where it fails, is a suffix of the text that it was
given; `Progresses` says that it leaves a shorter text. Both hold of a sequence as soon as they hold
of its parts, so they are shown once for each reader.
-/

namespace GatedCalls.Text.Reader

variable {α β : Type}

/-- The suffixes of a text. -/
abbrev Within (s : List Char) : Type :=
  { t : List Char // t <:+ s }

/-- The suffixes of a text that are shorter than it. -/
abbrev Beyond (s : List Char) : Type :=
  { t : List Char // t <:+ s ∧ t.length < s.length }

/-- What the reader leaves, and where it fails, is a suffix of what it was given. -/
structure Forward (r : Reader α) : Prop where
  ok : ∀ {s a t}, r s = .ok (a, t) → t <:+ s
  error : ∀ {s e}, r s = .error e → e <:+ s

/-- What the reader leaves is shorter than what it was given. -/
structure Progresses (r : Reader α) : Prop where
  lt : ∀ {s a t}, r s = .ok (a, t) → t.length < s.length

/-- A reader that moves forward leaves a text that is no longer. -/
theorem Forward.length_le {r : Reader α} (h : r.Forward) {s t : List Char} {a : α}
    (hr : r s = .ok (a, t)) : t.length ≤ s.length :=
  (h.ok hr).length_le

/-- A constant reader moves forward, as it takes nothing. -/
theorem forward_pure (a : α) : (pure a : Reader α).Forward where
  ok h := by
    cases h
    exact List.suffix_refl _
  error h := by injection h

/-- A sequence moves forward if its parts do. -/
theorem Forward.bind {r : Reader α} {f : α → Reader β} (hr : r.Forward) (hf : ∀ a, (f a).Forward) :
    (r >>= f).Forward where
  ok {s b t} h := by
    rw [bind_apply] at h
    split at h
    · next a u hu => exact ((hf a).ok h).trans (hr.ok hu)
    · contradiction
  error {s e} h := by
    rw [bind_apply] at h
    split at h
    · next a u hu => exact ((hf a).error h).trans (hr.ok hu)
    · next e' he =>
      cases h
      exact hr.error he

/-- A sequence progresses if its first part does and the others move forward. -/
theorem Progresses.bind {r : Reader α} {f : α → Reader β} (hr : r.Progresses)
    (hf : ∀ a, (f a).Forward) : (r >>= f).Progresses where
  lt {s b t} h := by
    rw [bind_apply] at h
    split at h
    · next a u hu => exact Nat.lt_of_le_of_lt ((hf a).length_le h) (hr.lt hu)
    · contradiction

/-- A sequence progresses if the others do and its first part moves forward. -/
theorem Progresses.bind_right {r : Reader α} {f : α → Reader β} (hr : r.Forward)
    (hf : ∀ a, (f a).Progresses) : (r >>= f).Progresses where
  lt {s b t} h := by
    rw [bind_apply] at h
    split at h
    · next a u hu => exact Nat.lt_of_lt_of_le ((hf a).lt h) (hr.length_le hu)
    · contradiction

/-- A failing reader fails where it stands. -/
theorem forward_fail : (fail : Reader α).Forward where
  ok h := by injection h
  error h := by
    cases h
    exact List.suffix_refl _

/-- A choice moves forward if both of its sides do. -/
theorem Forward.orElse {r₁ r₂ : Reader α} (h₁ : r₁.Forward) (h₂ : r₂.Forward) :
    (orElse r₁ r₂).Forward where
  ok {s a t} h := by
    unfold Reader.orElse at h
    split at h
    · next he =>
      injection h with h
      exact h₁.ok (h ▸ he)
    · exact h₂.ok h
  error {s e} h := by
    unfold Reader.orElse at h
    split at h
    · contradiction
    · exact h₂.error h

/-- A choice progresses if both of its sides do. -/
theorem Progresses.orElse {r₁ r₂ : Reader α} (h₁ : r₁.Progresses) (h₂ : r₂.Progresses) :
    (orElse r₁ r₂).Progresses where
  lt {s a t} h := by
    unfold Reader.orElse at h
    split at h
    · next he =>
      injection h with h
      exact h₁.lt (h ▸ he)
    · exact h₂.lt h

/-- Where a test on the text tells which of two readers is used, reading moves forward if both
do. -/
theorem Forward.ite {r₁ r₂ : Reader α} (h₁ : r₁.Forward) (h₂ : r₂.Forward)
    (p : List Char → Bool) : Forward fun s => if p s then r₁ s else r₂ s where
  ok {s a t} h := by
    split at h
    · exact h₁.ok h
    · exact h₂.ok h
  error {s e} h := by
    split at h
    · exact h₁.error h
    · exact h₂.error h

/-- Where a test on the text tells which of two readers is used, reading progresses if both do. -/
theorem Progresses.ite {r₁ r₂ : Reader α} (h₁ : r₁.Progresses) (h₂ : r₂.Progresses)
    (p : List Char → Bool) : Progresses fun s => if p s then r₁ s else r₂ s where
  lt {s a t} h := by
    split at h
    · exact h₁.lt h
    · exact h₂.lt h

/-- What moves forward may also be left out. -/
theorem Forward.optional {r : Reader α} (hr : r.Forward) : (optional r).Forward where
  ok {s a t} h := by
    unfold Reader.optional at h
    split at h
    · next he =>
      cases h
      exact hr.ok he
    · cases h
      exact List.suffix_refl _
  error {s e} h := by
    unfold Reader.optional at h
    split at h <;> contradiction

/-- A text that begins with another one is that text followed by the rest. -/
theorem eq_append_of_isPrefixOf? {p s t : List Char} (h : p.isPrefixOf? s = some t) :
    s = p ++ t := by
  induction p generalizing s with
  | nil => exact Option.some.inj h
  | cons c p ih =>
    cases s with
    | nil => exact nomatch (show none = some t from h)
    | cons d s =>
      change (if c == d then p.isPrefixOf? s else none) = some t at h
      split at h
      · next hcd => rw [ih h, eq_of_beq hcd]; rfl
      · contradiction

/-- A literal is taken only off a text that begins with it. -/
theorem literal_eq_ok {text : String} {s t : List Char} (h : literal text s = .ok ((), t)) :
    s = text.toList ++ t := by
  unfold literal at h
  split at h
  · next he =>
    cases h
    exact eq_append_of_isPrefixOf? he
  · contradiction

/-- Taking a literal moves forward. -/
theorem forward_literal (text : String) : (literal text).Forward where
  ok {s a t} h := ⟨text.toList, (literal_eq_ok h).symm⟩
  error {s e} h := by
    unfold literal at h
    split at h
    · contradiction
    · cases h
      exact List.suffix_refl _

/-- Taking a literal progresses if the literal is not empty. -/
theorem progresses_literal {text : String} (h : text.toList ≠ []) : (literal text).Progresses where
  lt {s a t} hs := by
    rw [literal_eq_ok hs, List.length_append]
    exact Nat.lt_add_of_pos_left (List.length_pos_iff.2 h)

/-- A character is taken only if it satisfies the condition. -/
theorem satisfy_eq_ok {p : Char → Bool} {s t : List Char} {c : Char}
    (h : satisfy p s = .ok (c, t)) : s = c :: t ∧ p c := by
  unfold satisfy at h
  split at h
  · split at h
    · next hp =>
      injection h with h
      injection h with h₁ h₂
      subst h₁ h₂
      exact ⟨rfl, hp⟩
    · contradiction
  · contradiction

/-- Taking a character moves forward. -/
theorem forward_satisfy (p : Char → Bool) : (satisfy p).Forward where
  ok {s c t} h := ⟨[c], (satisfy_eq_ok h).1.symm⟩
  error {s e} h := by
    unfold satisfy at h
    split at h
    · split at h
      · contradiction
      · cases h
        exact List.suffix_refl _
    · cases h
      exact List.suffix_refl _

/-- Taking a character progresses. -/
theorem progresses_satisfy (p : Char → Bool) : (satisfy p).Progresses where
  lt {s c t} h := by
    rw [(satisfy_eq_ok h).1]
    exact Nat.lt_succ_self _

/-- Taking a run of characters moves forward. -/
theorem forward_run (p : Char → Bool) : (run p).Forward where
  ok h := by
    cases h
    exact List.dropWhile_suffix p
  error h := by injection h

/-- A run that is taken is not empty and the longest possible. -/
theorem run1_eq_ok {p : Char → Bool} {s cs t : List Char} (h : run1 p s = .ok (cs, t)) :
    cs ≠ [] ∧ cs = s.takeWhile p ∧ t = s.dropWhile p := by
  unfold run1 at h
  split at h
  · contradiction
  · next hne =>
    injection h with h
    injection h with h₁ h₂
    subst h₁ h₂
    exact ⟨fun h => hne h, rfl, rfl⟩

/-- Taking a run of at least one character moves forward. -/
theorem forward_run1 (p : Char → Bool) : (run1 p).Forward where
  ok {s a t} h := (run1_eq_ok h).2.2 ▸ List.dropWhile_suffix p
  error {s e} h := by
    unfold run1 at h
    split at h
    · cases h
      exact List.suffix_refl _
    · contradiction

/-- Taking a run of at least one character progresses. -/
theorem progresses_run1 (p : Char → Bool) : (run1 p).Progresses where
  lt {s cs t} h := by
    obtain ⟨hne, hcs, ht⟩ := run1_eq_ok h
    have hlen : s.length = cs.length + t.length := by
      rw [hcs, ht, ← List.length_append, List.takeWhile_append_dropWhile]
    have := List.length_pos_iff.2 hne
    omega

/-- Taking spaces moves forward. -/
theorem forward_spaces : spaces.Forward :=
  (forward_run _).bind fun _ => forward_pure _

/-- Taking at least one space moves forward. -/
theorem forward_spaces1 : spaces1.Forward :=
  (forward_run1 _).bind fun _ => forward_pure _

/-- Taking a comma and the spaces around it moves forward. -/
theorem forward_comma : comma.Forward :=
  forward_spaces.bind fun _ => (forward_literal _).bind fun _ => forward_spaces

/-- Taking layout moves forward. -/
theorem forward_layout : layout.Forward :=
  (forward_run _).bind fun _ => forward_pure _

/-- Layout on both sides changes nothing in moving forward. -/
theorem Forward.inLayout {r : Reader α} (h : r.Forward) : (inLayout r).Forward :=
  forward_layout.bind fun _ => h.bind fun _ => forward_layout.bind fun _ => forward_pure _

/-- Layout on both sides changes nothing in progressing. -/
theorem Progresses.inLayout {r : Reader α} (h : r.Progresses) : (inLayout r).Progresses :=
  Progresses.bind_right forward_layout fun _ =>
    h.bind fun _ => forward_layout.bind fun _ => forward_pure _

/-- The parts before and from the searched word on make up the text. -/
theorem eq_append_of_breakAt {stop s b t : List Char} (h : breakAt stop s = some (b, t)) :
    s = b ++ t := by
  induction s generalizing b with
  | nil =>
    simp only [breakAt] at h
    split at h
    · injection h with h
      injection h with h₁ h₂
      subst h₁ h₂
      rfl
    · contradiction
  | cons c s ih =>
    simp only [breakAt] at h
    split at h
    · injection h with h
      injection h with h₁ h₂
      subst h₁ h₂
      rfl
    · obtain ⟨⟨b', t'⟩, hb, he⟩ := Option.map_eq_some_iff.1 h
      injection he with h₁ h₂
      subst h₁ h₂
      rw [ih hb]
      rfl

/-- Taking the text of a line moves forward. -/
theorem forward_lineText : lineText.Forward where
  ok {s a t} h := by
    unfold lineText at h
    split at h
    · next he =>
      cases h
      exact he ▸ List.dropWhile_suffix _
    · contradiction
    · cases h
      exact List.dropWhile_suffix _
  error {s e} h := by
    unfold lineText at h
    split at h
    · contradiction
    · cases h
      exact List.suffix_refl _
    · contradiction

/-- Taking the end of a line moves forward. -/
theorem forward_lineBreak : lineBreak.Forward where
  ok {s a t} h := by
    unfold lineBreak at h
    split at h <;> (injection h with h; injection h with _ h; subst h)
    · exact List.suffix_cons _ _
    · exact (List.suffix_cons _ _).trans (List.suffix_cons _ _)
    · exact List.suffix_refl _
  error {s e} h := by
    unfold lineBreak at h
    split at h <;> contradiction

/-- Taking the rest of a line moves forward. -/
theorem forward_restOfLine : restOfLine.Forward :=
  forward_lineText.bind fun _ => forward_lineBreak.bind fun _ => forward_pure _

/-- Taking a line moves forward. -/
theorem forward_line : line.Forward where
  ok {s a t} h := by
    unfold line at h
    split at h
    · contradiction
    · exact forward_restOfLine.ok h
  error {s e} h := by
    unfold line at h
    split at h
    · cases h
      exact List.suffix_refl _
    · exact forward_restOfLine.error h

/-- A line that begins with a character of its own leaves no more than what stands behind that. -/
theorem length_lineText_le {c : Char} {s x u : List Char} (hc : isInLine c)
    (h : lineText (c :: s) = .ok (x, u)) : u.length ≤ s.length := by
  have hdrop : (c :: s).dropWhile isInLine = s.dropWhile isInLine := by simp [hc]
  have hs := (List.dropWhile_suffix isInLine (l := s)).length_le
  unfold lineText at h
  rw [hdrop] at h
  split at h
  · next he =>
    cases h
    exact he ▸ hs
  · contradiction
  · cases h
    exact hs

/-- Where a line break stands, the line is empty and the break is left. -/
theorem lineBreak_of_lineText {c : Char} {s x u : List Char} (hc : ¬isInLine c)
    (h : lineText (c :: s) = .ok (x, u)) :
    u = c :: s ∧ ((∃ t, c :: s = '\r' :: '\n' :: t) ∨ c = '\n') := by
  have hdrop : (c :: s).dropWhile isInLine = c :: s := by simp [hc]
  unfold lineText at h
  rw [hdrop] at h
  split at h
  · next t he =>
    injection h with h
    injection h with _ h
    exact ⟨h ▸ he.symm, .inl ⟨t, he⟩⟩
  · contradiction
  · next hr =>
    injection h with h
    injection h with _ h
    refine ⟨h.symm, .inr ?_⟩
    have : c = '\r' ∨ c = '\n' := by simpa [isInLine, Decidable.or_iff_not_imp_left] using hc
    -- A carriage return that no line feed follows would have been refused.
    rcases this with rfl | rfl
    · exact absurd rfl (hr s)
    · rfl

/-- A line that is there is not empty with its line break. -/
theorem progresses_line : line.Progresses where
  lt {s a t} h := by
    unfold line at h
    split at h
    · contradiction
    · next hne =>
      obtain ⟨x, u, hu, ht⟩ : ∃ x u, lineText s = .ok (x, u) ∧ lineBreak u = .ok ((), t) := by
        unfold restOfLine at h
        rw [bind_apply] at h
        split at h
        · next x u hu =>
          rw [bind_apply] at h
          split at h
          · next b v hv =>
            injection h with h
            injection h with _ h
            exact ⟨x, u, hu, h ▸ hv⟩
          · contradiction
        · contradiction
      obtain ⟨c, s, rfl⟩ := List.exists_cons_of_ne_nil (by simpa using hne : s ≠ [])
      by_cases hc : isInLine c
      · have hle := (forward_lineBreak.ok ht).length_le
        exact Nat.lt_succ_of_le (Nat.le_trans hle (length_lineText_le hc hu))
      · obtain ⟨rfl, ⟨r, hr⟩ | rfl⟩ := lineBreak_of_lineText hc hu
        · rw [hr] at ht ⊢
          injection ht with ht
          injection ht with _ ht
          exact ht ▸ Nat.lt_succ_of_lt (Nat.lt_succ_self _)
        · injection ht with ht
          injection ht with _ ht
          exact ht ▸ Nat.lt_succ_self _

end GatedCalls.Text.Reader
