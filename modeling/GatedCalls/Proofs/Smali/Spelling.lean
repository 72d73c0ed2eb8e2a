import GatedCalls.Proofs.Smali.StringLiteral
import GatedCalls.Proofs.Text.Numeral
import GatedCalls.Smali.AnnotationBlock

/-!
# String literals are decoded as they are spelled, but for two escapes

A character can be spelled in several ways: as it is, by a letter behind a backslash, or by its
code. The body of a literal is any sequence of such spellings, and the letters are those that the
reader of literals lets stand behind a backslash. Decoding goes from spelling to spelling, whatever
stands behind, so it is enough to look at one spelling of each kind.

The reader has an escape for the backspace and one for the form feed, which decoding does not know:
it takes both for their letters. A body denotes what it is decoded to exactly if it has neither.
-/

namespace GatedCalls.StringLiteral

open Text

/-! ### Spellings -/

/-- The escapes that consist of a letter behind a backslash, by the characters that they denote. -/
inductive Escape where
  | apostrophe
  | quote
  | backslash
  | tab
  | backspace
  | lineFeed
  | carriageReturn
  | formFeed
  deriving DecidableEq, Repr

namespace Escape

/-- The letter of an escape. -/
def letter : Escape → Char
  | apostrophe => '\''
  | quote => '"'
  | backslash => '\\'
  | tab => 't'
  | backspace => 'b'
  | lineFeed => 'n'
  | carriageReturn => 'r'
  | formFeed => 'f'

/-- The character that an escape denotes. -/
def meant : Escape → Char
  | apostrophe => '\''
  | quote => '"'
  | backslash => '\\'
  | tab => '\x09'
  | backspace => '\x08'
  | lineFeed => '\x0a'
  | carriageReturn => '\x0d'
  | formFeed => '\x0c'

/-- Whether decoding takes the escape for its letter, which it does not denote. -/
def IsMisread (e : Escape) : Prop :=
  e = backspace ∨ e = formFeed

instance (e : Escape) : Decidable e.IsMisread :=
  inferInstanceAs (Decidable (_ ∨ _))

/-- The character that an escape is decoded to. -/
def decoded (e : Escape) : Char :=
  if e.IsMisread then e.letter else e.meant

/-- An escape is decoded to what it denotes unless it is misread. -/
theorem decoded_eq_meant_iff (e : Escape) : e.decoded = e.meant ↔ ¬ e.IsMisread := by
  cases e <;> decide

end Escape

/-- The characters that may stand behind a backslash are the letters of the escapes, and the one
that begins a code. -/
theorem isEscapable_iff {c : Char} :
    isEscapable c = true ↔ c = 'u' ∨ ∃ e : Escape, e.letter = c := by
  constructor
  · intro h
    simp only [isEscapable, Bool.or_eq_true, beq_iff_eq] at h
    obtain (((((((rfl | rfl) | rfl) | rfl) | rfl) | rfl) | rfl) | rfl) | rfl := h
    · exact .inr ⟨.apostrophe, rfl⟩
    · exact .inr ⟨.quote, rfl⟩
    · exact .inr ⟨.tab, rfl⟩
    · exact .inr ⟨.backspace, rfl⟩
    · exact .inr ⟨.lineFeed, rfl⟩
    · exact .inr ⟨.carriageReturn, rfl⟩
    · exact .inr ⟨.formFeed, rfl⟩
    · exact .inl rfl
    · exact .inr ⟨.backslash, rfl⟩
  · rintro (rfl | ⟨e, rfl⟩)
    · rfl
    · cases e <;> rfl

/-- A hexadecimal digit, of either case, and its value. -/
structure HexDigit where
  char : Char
  value : Nat
  digitValue_eq : digitValue char = some value

/-- What is no digit is not the character of one. -/
theorem HexDigit.char_ne (d : HexDigit) {c : Char} (h : digitValue c = none) : d.char ≠ c := by
  rintro rfl
  rw [d.digitValue_eq] at h
  cases h

/-- A spelling of one character: as it is, by an escape, or by the four digits of its code. -/
inductive Spelling where
  | plain (c : Char) (hquote : c ≠ '"') (hbackslash : c ≠ '\\')
  | escape (e : Escape)
  | code (c : Char) (d₃ d₂ d₁ d₀ : HexDigit)
      (h : c.toNat = 4096 * d₃.value + 256 * d₂.value + 16 * d₁.value + d₀.value)

namespace Spelling

/-- What stands in the literal. -/
def text : Spelling → List Char
  | plain c _ _ => [c]
  | escape e => ['\\', e.letter]
  | code _ d₃ d₂ d₁ d₀ _ => ['\\', 'u', d₃.char, d₂.char, d₁.char, d₀.char]

/-- The character that is spelled. -/
def meant : Spelling → Char
  | plain c _ _ => c
  | escape e => e.meant
  | code c _ _ _ _ _ => c

/-- The character that the spelling is decoded to. -/
def decoded : Spelling → Char
  | plain c _ _ => c
  | escape e => e.decoded
  | code c _ _ _ _ _ => c

/-- Whether the spelling is an escape that decoding takes for its letter. -/
def IsMisread : Spelling → Prop
  | escape e => e.IsMisread
  | _ => False

/-- A spelling that is misread is one of the two escapes. -/
theorem exists_of_isMisread {s : Spelling} (h : s.IsMisread) :
    ∃ e, s = escape e ∧ (e = .backspace ∨ e = .formFeed) := by
  cases s with
  | plain c hquote hbackslash => cases h
  | escape e => exact ⟨e, rfl, h⟩
  | code c d₃ d₂ d₁ d₀ h' => cases h

/-- A spelling is decoded to what it spells unless it is misread. -/
theorem decoded_eq_meant_iff (s : Spelling) : s.decoded = s.meant ↔ ¬ s.IsMisread := by
  cases s with
  | plain c hquote hbackslash => simp [decoded, meant, IsMisread]
  | escape e => exact e.decoded_eq_meant_iff
  | code c d₃ d₂ d₁ d₀ h => simp [decoded, meant, IsMisread]

end Spelling

/-! ### One spelling -/

/-- The code of a character denotes it. -/
theorem codePoint?_digits {c : Char} {d₃ d₂ d₁ d₀ : HexDigit}
    (h : c.toNat = 4096 * d₃.value + 256 * d₂.value + 16 * d₁.value + d₀.value) :
    codePoint? [d₃.char, d₂.char, d₁.char, d₀.char] = some c := by
  have hnumber : unsigned? 16 [d₃.char, d₂.char, d₁.char, d₀.char] = some c.toNat := by
    rw [unsigned?]
    · simp only [digits?, digitsFrom, HexDigit.digitValue_eq,
        digitValue_lt (HexDigit.digitValue_eq _), if_true, h]
      congr 1
      omega
    · intro cs heq
      exact d₃.char_ne (by decide) (List.cons.inj heq).1
  have hvalid : c.toNat.isValidChar := c.valid
  rw [codePoint?, hnumber]
  simp [hvalid]

/-- Decoding a spelling goes on behind it. -/
theorem unescape_append (s : Spelling) (rest : List Char) :
    unescape (s.text ++ rest) = s.decoded :: unescape rest := by
  cases s with
  | plain c hquote hbackslash =>
    simp [Spelling.text, Spelling.decoded, unescape, hbackslash]
  | escape e =>
    cases e <;> simp [Spelling.text, Spelling.decoded, Escape.letter, Escape.meant, Escape.decoded,
      Escape.IsMisread, unescape]
  | code c d₃ d₂ d₁ d₀ h =>
    simp [Spelling.text, Spelling.decoded, unescape, codePoint?_digits h]

/-- A body that begins with a character other than a quote or a backslash goes on behind it. -/
theorem isBody_cons {c : Char} (hquote : c ≠ '"') (hbackslash : c ≠ '\\') (rest : List Char) :
    IsBody (c :: rest) ↔ IsBody rest := by
  rw [IsBody]
  · exact and_iff_right hquote
  · intro heq
    exact absurd heq hbackslash
  · intro d t heq
    exact absurd heq hbackslash

/-- Behind a spelling a body goes on. -/
theorem isBody_append (s : Spelling) (rest : List Char) :
    IsBody (s.text ++ rest) ↔ IsBody rest := by
  cases s with
  | plain c hquote hbackslash => exact isBody_cons hquote hbackslash rest
  | escape e =>
    have hletter : isEscapable e.letter = true := isEscapable_iff.mpr (.inr ⟨e, rfl⟩)
    exact and_iff_right hletter
  | code c d₃ d₂ d₁ d₀ h =>
    have hdigit (d : HexDigit) (rest : List Char) : IsBody (d.char :: rest) ↔ IsBody rest :=
      isBody_cons (d.char_ne (by decide)) (d.char_ne (by decide)) rest
    have hdigits : IsBody (d₃.char :: d₂.char :: d₁.char :: d₀.char :: rest) ↔ IsBody rest := by
      rw [hdigit, hdigit, hdigit, hdigit]
    exact (and_iff_right (by decide)).trans hdigits

/-! ### Bodies -/

/-- The body of a literal that is spelled character by character. -/
def bodyOf (ss : List Spelling) : String :=
  String.ofList (ss.flatMap Spelling.text)

/-- What is spelled character by character is a body. -/
theorem isBody_bodyOf (ss : List Spelling) : IsBody (bodyOf ss).toList := by
  rw [bodyOf, String.toList_ofList]
  induction ss with
  | nil => trivial
  | cons s ss ih => exact (isBody_append s _).mpr ih

/-- A body is decoded spelling by spelling. -/
theorem unescape_bodyOf (ss : List Spelling) :
    unescape (bodyOf ss).toList = ss.map Spelling.decoded := by
  rw [bodyOf, String.toList_ofList]
  induction ss with
  | nil => simp [unescape]
  | cons s ss ih => rw [List.flatMap_cons, unescape_append, ih, List.map_cons]

/-- Between quotes a body is decoded. -/
theorem value?_quoted (body : String) :
    value? ("\"" ++ body ++ "\"") = some (String.ofList (unescape body.toList)) := by
  have hlist : ("\"" ++ body ++ "\"").toList = '"' :: (body.toList ++ ['"']) := by
    simp
  have htrim : IsTrimmed ('"' :: (body.toList ++ ['"'])) :=
    isTrimmed_iff.mpr ⟨stops_cons.mpr (by decide), by simp; decide⟩
  rw [value?, hlist, htrim]
  simp

/-- String literals are decoded as they are spelled, but for two escapes. Every sequence of
spellings is the body of a literal, in which the letters behind a backslash are those that literals
may have. The value made of it between quotes has a text, which is what each of the spellings is
decoded to; and it is the text that is spelled exactly if neither the backspace nor the form feed is
spelled by its letter. -/
theorem asString?_eq_meant_iff (ss : List Spelling) :
    IsBody (bodyOf ss).toList ∧
    (∀ c, isEscapable c = true ↔ c = 'u' ∨ ∃ e : Escape, e.letter = c) ∧
    (ElementValue.single ("\"" ++ bodyOf ss ++ "\"")).asString? =
      some (String.ofList (ss.map Spelling.decoded)) ∧
    ((ElementValue.single ("\"" ++ bodyOf ss ++ "\"")).asString? =
        some (String.ofList (ss.map Spelling.meant)) ↔
      .escape .backspace ∉ ss ∧ .escape .formFeed ∉ ss) := by
  have hdecoded : (ElementValue.single ("\"" ++ bodyOf ss ++ "\"")).asString? =
      some (String.ofList (ss.map Spelling.decoded)) := by
    rw [ElementValue.asString?, value?_quoted, unescape_bodyOf]
  refine ⟨isBody_bodyOf ss, fun c => isEscapable_iff, hdecoded, ?_⟩
  rw [hdecoded, Option.some_inj, String.ofList_inj, List.map_inj_left]
  simp only [Spelling.decoded_eq_meant_iff]
  constructor
  · intro h
    exact ⟨fun hmem => h _ hmem (.inl rfl), fun hmem => h _ hmem (.inr rfl)⟩
  · rintro ⟨hbackspace, hformFeed⟩ s hs hmisread
    obtain ⟨e, rfl, rfl | rfl⟩ := Spelling.exists_of_isMisread hmisread
    · exact hbackspace hs
    · exact hformFeed hs

/-- The literal of the escape for the backspace has the letter as its text, not the backspace. -/
theorem asString?_backspace :
    (ElementValue.single "\"\\b\"").asString? = some "b" ∧
      (ElementValue.single "\"\\b\"").asString? ≠ some "\x08" := by
  have hliteral : "\"\\b\"" = "\"" ++ bodyOf [.escape .backspace] ++ "\"" := by decide
  have htext : (ElementValue.single "\"\\b\"").asString? = some "b" := by
    rw [ElementValue.asString?, hliteral, value?_quoted, unescape_bodyOf]
    decide
  refine ⟨htext, ?_⟩
  rw [htext]
  decide

end GatedCalls.StringLiteral
