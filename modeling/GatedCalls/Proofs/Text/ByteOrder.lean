import Mathlib.Data.String.Basic
import Mathlib.Tactic.SplitIfs

/-!
# Texts in the order of their bytes

Texts are compared character by character, and so are lists of texts. It makes no difference if
their bytes are compared instead (`bytes_lt_bytes`, `map_bytes_lt_map_bytes`): of two characters the
bytes of the smaller one come first, whatever follows (`utf8EncodeChar_append_lt`).
-/

namespace GatedCalls.Text

/-- The bytes of a text. -/
def bytes (s : String) : List UInt8 :=
  s.toUTF8.data.toList

/-- The bytes of a text are those of its characters. -/
theorem bytes_eq_flatMap (s : String) : bytes s = s.toList.flatMap String.utf8EncodeChar := by
  have hbytes : s.toUTF8 = s.toList.utf8Encode := by
    rw [String.toUTF8_eq_toByteArray, ← String.toByteArray_ofList, String.ofList_toList]
  rw [bytes, hbytes, List.utf8Encode, List.toList_data_toByteArray]

/-- Numbers are compared by their quotients, and where these are the same by what remains. -/
theorem div_lt_or_mod_lt {n m : Nat} (k : Nat) (h : n < m) :
    n / k < m / k ∨ n / k = m / k ∧ n % k < m % k := by
  obtain hlt | heq := (Nat.div_le_div_right h.le).lt_or_eq
  · exact .inl hlt
  · have hn := Nat.div_add_mod n k
    have hm := Nat.div_add_mod m k
    rw [heq] at hn
    exact .inr ⟨heq, by omega⟩

/-- The bytes of a smaller character come before those of a larger one, whatever follows. -/
theorem utf8EncodeChar_append_lt {c d : Char} (h : c < d) (u v : List UInt8) :
    String.utf8EncodeChar c ++ u < String.utf8EncodeChar d ++ v := by
  have hlt : c.val.toNat < d.val.toNat := UInt32.lt_iff_toNat_lt.mp h
  have hlast : d.val.toNat < 0x110000 := by
    obtain h | h := d.valid
    · exact h.trans (by omega)
    · exact h.2
  have hlead := div_lt_or_mod_lt 262144 hlt
  simp only [String.utf8EncodeChar]
  -- The lead byte tells how many bytes there are; where there are as many, they hold the digits of the
  -- two numbers, the highest first.
  split_ifs
  all_goals
    simp (disch := omega) only [List.cons_append, List.nil_append, List.cons_lt_cons_iff,
      UInt8.lt_iff_toNat_lt, ← UInt8.toNat_inj, UInt8.toNat_ofNat', Nat.mod_eq_of_lt,
      Nat.add_lt_add_iff_right, Nat.add_right_cancel_iff]
    omega

/-- A character has bytes. -/
theorem utf8EncodeChar_ne_nil (c : Char) : String.utf8EncodeChar c ≠ [] := by
  simp only [String.utf8EncodeChar]
  split_ifs <;> exact List.cons_ne_nil _ _

/-- Characters that are compared one by one are compared by their bytes. -/
theorem flatMap_utf8EncodeChar_lt {s t : List Char} (h : s < t) :
    s.flatMap String.utf8EncodeChar < t.flatMap String.utf8EncodeChar := by
  induction s generalizing t with
  | nil =>
    cases t with
    | nil => exact absurd h (List.not_lt_nil [])
    | cons d t =>
      obtain ⟨b, bs, hbytes⟩ := List.exists_cons_of_ne_nil (utf8EncodeChar_ne_nil d)
      rw [List.flatMap_nil, List.flatMap_cons, hbytes]
      exact List.nil_lt_cons b _
  | cons c s ih =>
    cases t with
    | nil => exact absurd h (List.not_lt_nil _)
    | cons d t =>
      rw [List.flatMap_cons, List.flatMap_cons]
      obtain hlt | ⟨rfl, hrest⟩ := List.cons_lt_cons_iff.mp h
      · exact utf8EncodeChar_append_lt hlt _ _
      · exact List.append_left_lt (ih hrest)

/-- A map that keeps a strict order of all keys keeps nothing but this order. -/
theorem lt_iff_of_map_lt {α β : Type} [LinearOrder α] [LT β] [Std.Asymm (α := β) (· < ·)]
    {f : α → β} (hf : ∀ {a b : α}, a < b → f a < f b) {a b : α} : f a < f b ↔ a < b := by
  refine ⟨fun h => ?_, hf⟩
  by_contra hnot
  obtain hgt | heq := (not_lt.mp hnot).lt_or_eq
  · exact Std.Asymm.asymm _ _ h (hf hgt)
  · exact Std.Asymm.asymm _ _ h (heq ▸ h)

/-- Comparing the bytes of texts is comparing the texts. -/
theorem bytes_lt_bytes {s t : String} : bytes s < bytes t ↔ s < t := by
  refine lt_iff_of_map_lt fun {s t} h => ?_
  rw [bytes_eq_flatMap, bytes_eq_flatMap]
  exact flatMap_utf8EncodeChar_lt (String.lt_iff_toList_lt.mp h)

/-- Comparing lists of texts by their bytes is comparing the lists. -/
theorem map_bytes_lt_map_bytes {ss ts : List String} : ss.map bytes < ts.map bytes ↔ ss < ts := by
  refine lt_iff_of_map_lt fun {ss ts} h => ?_
  induction ss generalizing ts with
  | nil =>
    cases ts with
    | nil => exact absurd h (List.not_lt_nil [])
    | cons t ts => exact List.nil_lt_cons _ _
  | cons s ss ih =>
    cases ts with
    | nil => exact absurd h (List.not_lt_nil _)
    | cons t ts =>
      obtain hlt | ⟨rfl, hrest⟩ := List.cons_lt_cons_iff.mp h
      · exact List.cons_lt_cons_iff.mpr (.inl (bytes_lt_bytes.mpr hlt))
      · exact List.cons_lt_cons_iff.mpr (.inr ⟨rfl, ih hrest⟩)

end GatedCalls.Text
