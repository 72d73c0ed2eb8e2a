import GatedCalls.Proofs.Text.Reading

/-!
# Lists with separators

Commas and the items between them may have spaces and tabs around them. `Listed` says which texts
spell a list, given the texts that spell its items; the readers of lists take exactly these.
-/

namespace GatedCalls.Text

variable {α : Type}

/-- Whether a text consists of spaces and tabs. -/
def IsGap (s : List Char) : Prop :=
  ∀ c ∈ s, isSpace c = true

instance (s : List Char) : Decidable (IsGap s) :=
  decidable_of_iff (s.all isSpace = true) List.all_eq_true

/-- The empty text is a gap. -/
@[simp] theorem isGap_nil : IsGap [] := nofun

/-- A space is a gap. -/
theorem isGap_space : IsGap [' '] := by
  simp [IsGap, isSpace]

/-- Spaces are passed over together with a gap in front of them. -/
theorem IsGap.dropWhile_append {gap : List Char} (h : IsGap gap) (s : List Char) :
    (gap ++ s).dropWhile isSpace = s.dropWhile isSpace :=
  List.dropWhile_append_of_pos h

/-- A gap is layout. -/
theorem IsGap.isLayout {gap : List Char} (h : IsGap gap) : ∀ c ∈ gap, isLayout c = true :=
  fun c hc => isLayout_of_isSpace (h c hc)

/-- A gap is blank. -/
theorem IsGap.isBlank {gap : List Char} (h : IsGap gap) : ∀ c ∈ gap, isBlank c = true :=
  fun c hc => isBlank_of_isLayout (h.isLayout c hc)

/-- A gap breaks no line. -/
theorem IsGap.inLine {gap : List Char} (h : IsGap gap) : InLine gap := by
  intro c hc
  have hspace := h c hc
  simp only [isSpace, Bool.or_eq_true, beq_iff_eq] at hspace
  obtain rfl | rfl := hspace <;> decide

/-- The spaces in front of a text are a gap. -/
theorem isGap_takeWhile (s : List Char) : IsGap (s.takeWhile isSpace) :=
  fun c => List.all_eq_true.mp List.all_takeWhile c

/-- Whether a text is a comma with spaces and tabs around it. -/
def IsComma (s : List Char) : Prop :=
  ∃ front behind, IsGap front ∧ IsGap behind ∧ s = front ++ ',' :: behind

/-- The texts that spell a list whose items are spelled as given: the items in order, with commas
between them. -/
inductive Listed (IsItem : α → List Char → Prop) : List α → List Char → Prop where
  | one {a : α} {x : List Char} (hx : IsItem a x) : Listed IsItem [a] x
  | cons {a : α} {x sep : List Char} {as : List α} {y : List Char} (hx : IsItem a x)
      (hsep : IsComma sep) (hy : Listed IsItem as y) : Listed IsItem (a :: as) (x ++ (sep ++ y))

/-- A spelled list has items. -/
theorem Listed.ne_nil {IsItem : α → List Char → Prop} {as : List α} {x : List Char}
    (h : Listed IsItem as x) : as ≠ [] := by
  cases h <;> exact List.cons_ne_nil _ _

/-- No space stands in front of a spelled list, if none stands in front of an item. -/
theorem Listed.stops_append {IsItem : α → List Char → Prop} {as : List α} {x : List Char}
    (h : Listed IsItem as x) (hitem : ∀ a x, IsItem a x → x ≠ [] ∧ Stops isSpace x)
    (t : List Char) : Stops isSpace (x ++ t) := by
  cases h with
  | one hx => exact (hitem _ _ hx).2.append (hitem _ _ hx).1 t
  | cons hx =>
    rw [List.append_assoc]
    exact (hitem _ _ hx).2.append (hitem _ _ hx).1 _

namespace Reader

/-- Spaces are taken exactly off a gap in front of something else. -/
theorem spaces_eq_ok {s t : List Char} :
    spaces s = .ok ((), t) ↔ Stops isSpace t ∧ ∃ gap, IsGap gap ∧ s = gap ++ t := by
  rw [spaces_apply, Except.ok.injEq, Prod.mk.injEq]
  constructor
  · rintro ⟨-, rfl⟩
    exact ⟨stops_dropWhile isSpace s, _, isGap_takeWhile s, List.takeWhile_append_dropWhile.symm⟩
  · rintro ⟨ht, gap, hgap, rfl⟩
    exact ⟨rfl, by rw [hgap.dropWhile_append, dropWhile_of_stops ht]⟩

/-- A comma is taken with all the spaces around it. -/
theorem comma_eq_ok {s t : List Char} :
    comma s = .ok ((), t) ↔ Stops isSpace t ∧ ∃ sep, IsComma sep ∧ s = sep ++ t := by
  constructor
  · intro h
    obtain ⟨_, v, hspaces, h⟩ := bind_eq_ok.mp h
    obtain ⟨_, w, hliteral, hspaces'⟩ := bind_eq_ok.mp h
    obtain ⟨-, front, hfront, rfl⟩ := spaces_eq_ok.mp hspaces
    obtain ⟨ht, behind, hbehind, rfl⟩ := spaces_eq_ok.mp hspaces'
    refine ⟨ht, front ++ ',' :: behind, ⟨front, behind, hfront, hbehind, rfl⟩, ?_⟩
    rw [literal_eq_ok hliteral]
    simp
  · rintro ⟨ht, _, ⟨front, behind, hfront, hbehind, rfl⟩, rfl⟩
    rw [List.append_assoc, List.cons_append]
    refine bind_ok (spaces_eq_ok.mpr ⟨stops_cons.mpr (by decide), front, hfront, rfl⟩) ?_
    refine bind_ok (literal_append "," (behind ++ t)) ?_
    exact spaces_eq_ok.mpr ⟨ht, behind, hbehind, rfl⟩

/-- A comma cannot be taken off a gap in front of something else. -/
theorem comma_fails {gap s : List Char} (hgap : IsGap gap)
    (hs : startsWith "," (s.dropWhile isSpace) = false) : comma.Fails (gap ++ s) := by
  refine Fails.bind_of_ok (spaces_apply _) (Fails.bind (literal_fails ?_))
  rwa [hgap.dropWhile_append]

/-- Whether the reader takes exactly the spellings of values, in front of texts that stop a run. -/
def Takes (r : Reader α) (IsItem : α → List Char → Prop) (p : Char → Bool) : Prop :=
  ∀ a s t, r s = .ok (a, t) ↔ Stops p t ∧ ∃ x, IsItem a x ∧ s = x ++ t

section Takes

variable {r : Reader α} {hr : r.Progresses} {IsItem : α → List Char → Prop} {p : Char → Bool}
  {s t : List Char} {as : List α}

/-- The items behind the first one. -/
abbrev further (r : Reader α) : Reader α :=
  comma >>= fun _ => r

/-- What is taken behind a first item spells a list together with it. -/
theorem listed_of_takeMany {hr : (further r).Progresses} (htakes : r.Takes IsItem p) {a : α}
    {x : List Char} (hx : IsItem a x) (hs : Stops p s) (h : takeMany (further r) hr s = (as, t)) :
    Stops p t ∧ (further r).Fails t ∧ ∃ y, Listed IsItem (a :: as) (x ++ y) ∧ s = y ++ t := by
  induction as generalizing a x s with
  | nil =>
    obtain ⟨hfails, rfl⟩ := takeMany_eq_nil h
    exact ⟨hs, hfails, [], by rw [List.append_nil]; exact .one hx, rfl⟩
  | cons b as ih =>
    obtain ⟨u, hnext, hmany⟩ := takeMany_eq_cons h
    obtain ⟨_, v, hcomma, hitem⟩ := bind_eq_ok.mp hnext
    obtain ⟨-, sep, hsep, rfl⟩ := comma_eq_ok.mp hcomma
    obtain ⟨hu, z, hz, rfl⟩ := (htakes b v u).mp hitem
    obtain ⟨ht, hfails, y, hy, rfl⟩ := ih hz hu hmany
    exact ⟨ht, hfails, sep ++ (z ++ y), .cons hx hsep hy, by simp⟩

/-- A comma stops a run of characters that are neither spaces nor commas. -/
theorem stops_comma (hp : ∀ c, isSpace c = true ∨ c = ',' → p c = false) {sep : List Char}
    (h : IsComma sep) (t : List Char) : Stops p (sep ++ t) := by
  obtain ⟨front, behind, hfront, -, rfl⟩ := h
  cases front with
  | nil => exact stops_cons.mpr (hp ',' (.inr rfl))
  | cons c front => exact stops_cons.mpr (hp c (.inl (hfront c List.mem_cons_self)))

/-- A spelled list is its first item and what is taken behind it. -/
theorem takeMany_of_listed {hr : (further r).Progresses} (htakes : r.Takes IsItem p)
    (hitem : ∀ a x, IsItem a x → x ≠ [] ∧ Stops isSpace x)
    (hp : ∀ c, isSpace c = true ∨ c = ',' → p c = false) (ht : Stops p t)
    (hfails : (further r).Fails t) {x : List Char} (h : Listed IsItem as x) :
    ∃ a as' u, as = a :: as' ∧ r (x ++ t) = .ok (a, u) ∧ takeMany (further r) hr u = (as', t) := by
  induction h with
  | @one a x hx =>
    exact ⟨a, [], t, rfl, (htakes a _ t).mpr ⟨ht, x, hx, rfl⟩, takeMany_of_fails hfails⟩
  | @cons a x sep as y hx hsep hy ih =>
    obtain ⟨b, bs, u, rfl, hb, hmany⟩ := ih
    have hfirst : r (x ++ (sep ++ y) ++ t) = .ok (a, sep ++ (y ++ t)) :=
      (htakes a _ _).mpr ⟨stops_comma hp hsep _, x, hx, by simp⟩
    have hnext : further r (sep ++ (y ++ t)) = .ok (b, u) :=
      bind_ok (comma_eq_ok.mpr ⟨hy.stops_append hitem t, sep, hsep, rfl⟩) hb
    exact ⟨a, b :: bs, _, rfl, hfirst, by rw [takeMany_of_ok hnext, hmany]⟩

/-- A list of one or more items is taken exactly off a text that spells it, in front of one where it
does not go on. -/
theorem sepBy1_eq_ok (htakes : r.Takes IsItem p)
    (hitem : ∀ a x, IsItem a x → x ≠ [] ∧ Stops isSpace x)
    (hp : ∀ c, isSpace c = true ∨ c = ',' → p c = false) :
    sepBy1 r hr comma forward_comma s = .ok (as, t) ↔
      Stops p t ∧ (further r).Fails t ∧ ∃ x, Listed IsItem as x ∧ s = x ++ t := by
  constructor
  · intro h
    obtain ⟨a, u, hfirst, h⟩ := bind_eq_ok.mp h
    obtain ⟨as', v, hmany, h⟩ := bind_eq_ok.mp h
    obtain ⟨rfl, rfl⟩ := pure_eq_ok.mp h
    obtain ⟨hu, x, hx, rfl⟩ := (htakes a s u).mp hfirst
    obtain ⟨ht, hfails, y, hy, rfl⟩ := listed_of_takeMany htakes hx hu (Except.ok.inj hmany)
    exact ⟨ht, hfails, x ++ y, hy, by simp⟩
  · rintro ⟨ht, hfails, x, hx, rfl⟩
    obtain ⟨a, as', u, rfl, hfirst, hmany⟩ := takeMany_of_listed htakes hitem hp ht hfails hx
    exact bind_ok hfirst (bind_ok (congrArg Except.ok hmany) rfl)

/-- A list of items is taken exactly off a text that spells it, in front of one where it does not go
on; the empty list stands where there is no item. -/
theorem sepBy_eq_ok (htakes : r.Takes IsItem p)
    (hitem : ∀ a x, IsItem a x → x ≠ [] ∧ Stops isSpace x)
    (hp : ∀ c, isSpace c = true ∨ c = ',' → p c = false) :
    sepBy r hr comma forward_comma s = .ok (as, t) ↔
      as = [] ∧ r.Fails t ∧ s = t ∨
        Stops p t ∧ (further r).Fails t ∧ ∃ x, Listed IsItem as x ∧ s = x ++ t := by
  cases hfirst : r s with
  | error e =>
    have hfails : r.Fails s := ⟨e, hfirst⟩
    have hnil : sepBy r hr comma forward_comma s = .ok ([], s) :=
      bind_of_ok (optional_of_fails hfails)
    rw [hnil]
    constructor
    · intro h
      obtain ⟨rfl, rfl⟩ := Prod.mk.inj (Except.ok.inj h)
      exact .inl ⟨rfl, hfails, rfl⟩
    · rintro (⟨rfl, -, rfl⟩ | ⟨ht, hmore, hx⟩)
      · rfl
      · have hlist : sepBy1 r hr comma forward_comma s = .ok (as, t) :=
          (sepBy1_eq_ok htakes hitem hp).mpr ⟨ht, hmore, hx⟩
        obtain ⟨a, _, hread, -⟩ := bind_eq_ok.mp hlist
        exact absurd hfails (not_fails_of_ok hread)
  | ok x =>
    obtain ⟨a, u⟩ := x
    have hsome : sepBy r hr comma forward_comma s = sepBy1 r hr comma forward_comma s :=
      Eq.trans (bind_of_ok (optional_of_ok hfirst)) (Eq.symm (bind_of_ok hfirst))
    rw [hsome, sepBy1_eq_ok htakes hitem hp]
    constructor
    · exact .inr
    · rintro (⟨-, hfails, rfl⟩ | h)
      · exact absurd hfails (not_fails_of_ok hfirst)
      · exact h

end Takes

end Reader

end GatedCalls.Text
