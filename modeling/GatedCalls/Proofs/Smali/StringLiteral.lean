import GatedCalls.Proofs.Text.Reading
import GatedCalls.Smali.StringLiteral

/-!
# String literals are read as they are printed

The body of a literal holds no quote, and each backslash in it has one of the escapable characters
behind it: `IsBody`. Between quotes such a body is read back, whatever follows, and every body that
is read is one.
-/

namespace GatedCalls.StringLiteral

open Text

/-- Whether the text can stand between the quotes of a literal: no quote stands in it, and behind
each backslash a character that may. -/
def IsBody : List Char → Prop
  | [] => True
  | ['\\'] => False
  | '\\' :: c :: s => isEscapable c = true ∧ IsBody s
  | c :: s => c ≠ '"' ∧ IsBody s

/-- A body ends at the quote behind it. -/
theorem bodyEnd_append {body : List Char} (h : IsBody body) (rest : List Char) :
    bodyEnd (body ++ '"' :: rest) = some (body, '"' :: rest) := by
  induction body using IsBody.induct with
  | case1 => simp [bodyEnd]
  | case2 => simp [IsBody] at h
  | case3 c s ih =>
    obtain ⟨hc, hs⟩ : isEscapable c = true ∧ IsBody s := by simpa [IsBody] using h
    simp only [List.cons_append, bodyEnd, hc, if_true, ih hs, Option.map_some]
  | case4 c s hlast hescape ih =>
    obtain ⟨hc, hs⟩ : c ≠ '"' ∧ IsBody s := by
      rw [IsBody] at h
      · exact h
      · exact hlast
      · exact hescape
    -- The character is no backslash, as it would have another one behind it.
    have hbackslash : c ≠ '\\' := by
      rintro rfl
      cases s with
      | nil => exact hlast rfl rfl
      | cons d s => exact hescape d s rfl rfl
    rw [List.cons_append, bodyEnd]
    · simp only [hc, if_false, ih hs, Option.map_some]
    · intro heq
      exact absurd heq hbackslash
    · intro d t heq
      exact absurd heq hbackslash

/-- What is found in front of a quote or the end of the text is a body. -/
theorem isBody_of_bodyEnd {s body rest : List Char} (h : bodyEnd s = some (body, rest)) :
    IsBody body := by
  induction s using bodyEnd.induct generalizing body rest with
  | case1 =>
    obtain ⟨rfl, -⟩ : [] = body ∧ [] = rest := by simpa [bodyEnd] using h
    trivial
  | case2 => simp [bodyEnd] at h
  | case3 c s hc ih =>
    simp only [bodyEnd, hc, if_true, Option.map_eq_some_iff] at h
    obtain ⟨⟨b, r⟩, hb, he⟩ := h
    obtain ⟨rfl, rfl⟩ := Prod.mk.inj he
    exact ⟨hc, ih hb⟩
  | case4 c s hc => simp [bodyEnd, hc] at h
  | case5 s h₁ h₂ =>
    rw [bodyEnd] at h
    · obtain ⟨rfl, -⟩ : [] = body ∧ _ := by simpa using h
      trivial
    · exact h₁
    · exact h₂
  | case6 c s h₁ h₂ hc ih =>
    rw [bodyEnd] at h
    · simp only [hc, if_false, Option.map_eq_some_iff] at h
      obtain ⟨⟨b, r⟩, hb, he⟩ := h
      obtain ⟨rfl, rfl⟩ := Prod.mk.inj he
      have hbackslash : c ≠ '\\' := by
        rintro rfl
        cases s with
        | nil => exact h₁ rfl rfl
        | cons d s => exact h₂ d s rfl rfl
      rw [IsBody]
      · exact ⟨hc, ih hb⟩
      · intro heq
        exact absurd heq hbackslash
      · intro d t heq
        exact absurd heq hbackslash
    · exact h₁
    · exact h₂

/-- Whether a text is a body can be found out by reading one off it. -/
instance (s : List Char) : Decidable (IsBody s) :=
  decidable_of_iff (bodyEnd (s ++ ['"']) = some (s, ['"']))
    ⟨isBody_of_bodyEnd, fun h => bodyEnd_append h []⟩

/-- A literal is taken off the text in front of which it stands. -/
theorem reader_append {body : List Char} (h : IsBody body) (rest : List Char) :
    reader ('"' :: (body ++ '"' :: rest)) = .ok (body, rest) := by
  have hbody : bodyReader (body ++ '"' :: rest) = .ok (body, '"' :: rest) := by
    rw [bodyReader, bodyEnd_append h]
    rfl
  refine Reader.bind_ok (Reader.spaces_of_stops (by simp [isSpace])) ?_
  refine Reader.bind_ok (Reader.literal_append "\"" _) ?_
  refine Reader.bind_ok hbody ?_
  exact Reader.bind_ok (Reader.literal_append "\"" rest) rfl

/-- A space in front of a literal does not count. -/
theorem reader_cons {c : Char} {s : List Char} (hc : isSpace c = true) (hs : Stops isSpace s) :
    reader (c :: s) = reader s := by
  rw [reader, Reader.bind_of_ok (Reader.spaces_cons hc hs),
    Reader.bind_of_ok (Reader.spaces_of_stops hs)]

/-- A literal that has been read: the body between its quotes. -/
theorem reader_eq_ok {s body rest : List Char} (h : reader s = .ok (body, rest)) :
    IsBody body ∧ s.dropWhile isSpace = '"' :: (body ++ '"' :: rest) := by
  obtain ⟨_, s₁, hspaces, h⟩ := Reader.bind_eq_ok.mp h
  obtain ⟨_, s₂, hopen, h⟩ := Reader.bind_eq_ok.mp h
  obtain ⟨b, s₃, hbody, h⟩ := Reader.bind_eq_ok.mp h
  obtain ⟨_, s₄, hclose, h⟩ := Reader.bind_eq_ok.mp h
  obtain ⟨rfl, rfl⟩ := Reader.pure_eq_ok.mp h
  have hs₁ : s.dropWhile isSpace = s₁ := (Prod.mk.inj (Except.ok.inj hspaces)).2
  have hs₁' : s₁ = '"' :: s₂ := by simpa using Reader.literal_eq_ok hopen
  have hs₃ : s₃ = '"' :: s₄ := by simpa using Reader.literal_eq_ok hclose
  have hget : (bodyEnd s₂).getD ([], s₂) = (b, s₃) := Except.ok.inj hbody
  rw [hs₁, hs₁', ← hs₃]
  cases hend : bodyEnd s₂ with
  | none =>
    -- No body ends anywhere, so it was left empty.
    rw [hend] at hget
    obtain ⟨rfl, rfl⟩ := Prod.mk.inj hget
    exact ⟨trivial, rfl⟩
  | some x =>
    rw [hend] at hget
    obtain rfl : x = (b, s₃) := hget
    exact ⟨isBody_of_bodyEnd hend, by rw [eq_append_of_bodyEnd hend]⟩

end GatedCalls.StringLiteral
