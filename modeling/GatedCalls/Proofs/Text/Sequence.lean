import GatedCalls.Proofs.Text.Reading

/-!
# Values one behind another

Whether a value can be read back may depend on the text behind it. `EachInPlace` says of the values
of a list that each satisfies a condition in its place, in front of the text of the values behind
it. Values that a reader takes in place, with the layout behind them, are taken one after another.
-/

namespace GatedCalls.Text

variable {α β γ : Type}

/-- Whether each value satisfies a condition on it and on the text behind it: the text of the values
behind it, and `rest`. -/
def EachInPlace (print : α → List Char) (P : α → List Char → Prop) (rest : List Char) :
    List α → Prop
  | [] => True
  | a :: as => P a (as.flatMap print ++ rest) ∧ EachInPlace print P rest as

section EachInPlace

variable {print : α → List Char} {P Q : α → List Char → Prop} {rest : List Char}

/-- Values in place in front of others, and those in place behind them. -/
theorem eachInPlace_append {as bs : List α} :
    EachInPlace print P rest (as ++ bs) ↔
      EachInPlace print P (bs.flatMap print ++ rest) as ∧ EachInPlace print P rest bs := by
  induction as with
  | nil => simp [EachInPlace]
  | cons a as ih => simp [EachInPlace, ih, and_assoc]

/-- What holds of each value in every place. -/
theorem eachInPlace_of_forall {as : List α} (h : ∀ a ∈ as, ∀ s, P a s) :
    EachInPlace print P rest as := by
  induction as with
  | nil => trivial
  | cons a as ih =>
    exact ⟨h a List.mem_cons_self _, ih fun b hb => h b (List.mem_cons_of_mem a hb)⟩

/-- A value in place satisfies the condition in front of some text. -/
theorem EachInPlace.exists_of_mem {a : α} {as : List α} (h : EachInPlace print P rest as)
    (ha : a ∈ as) : ∃ s, P a s := by
  induction as with
  | nil => cases ha
  | cons b as ih =>
    obtain rfl | ha := List.mem_cons.mp ha
    · exact ⟨_, h.1⟩
    · exact ih h.2 ha

/-- A condition that follows from another one in every place. -/
theorem EachInPlace.imp {as : List α} (h : EachInPlace print P rest as)
    (himp : ∀ a ∈ as, ∀ s, P a s → Q a s) : EachInPlace print Q rest as := by
  induction as with
  | nil => trivial
  | cons a as ih =>
    exact ⟨himp a List.mem_cons_self _ h.1, ih h.2 fun b hb => himp b (List.mem_cons_of_mem a hb)⟩

/-- Values in place that are made of others. -/
theorem eachInPlace_map {f : γ → α} {cs : List γ} :
    EachInPlace print P rest (cs.map f) ↔
      EachInPlace (fun c => print (f c)) (fun c s => P (f c) s) rest cs := by
  induction cs with
  | nil => simp [EachInPlace]
  | cons c cs ih => simp [EachInPlace, ih, List.flatMap_map]

end EachInPlace

/-- Choosing the values that are made of others gives these back. -/
theorem filterMap_map_some {f : α → β} {g : β → Option α} (h : ∀ a, g (f a) = some a) (as : List α) :
    (as.map f).filterMap g = as := by
  have hcomp : g ∘ f = some := funext h
  rw [List.filterMap_map, hcomp, List.filterMap_some]

/-- No values are chosen among those of another kind. -/
theorem filterMap_map_none {f : α → β} {g : β → Option γ} (h : ∀ a, g (f a) = none) (as : List α) :
    (as.map f).filterMap g = [] := by
  rw [List.filterMap_map, List.filterMap_eq_nil_iff]
  exact fun a _ => h a

namespace Reader

variable {r : Reader β} {hr : r.Progresses} {print : α → List Char} {P : α → List Char → Prop}
  {as : List α} {rest u : List Char}

/-- What is taken with the layout behind it. -/
theorem spaced_eq_ok {s t : List Char} {b : β}
    (h : (do let b ← r; layout; return b : Reader β) s = .ok (b, t)) :
    ∃ u, r s = .ok (b, u) ∧ t = afterLayout u := by
  obtain ⟨b', u, hread, h⟩ := bind_eq_ok.mp h
  obtain ⟨_, v, hlayout, h⟩ := bind_eq_ok.mp h
  obtain ⟨rfl, rfl⟩ := pure_eq_ok.mp h
  obtain ⟨-, rfl⟩ := ok_unique hlayout (layout_apply u)
  exact ⟨u, hread, rfl⟩

/-- Values that are read in place are taken one after another, down to the end of the repetition. -/
theorem manyTill_eachInPlace (value : α → β) {stop : Reader γ} {start : List Char} {b : γ}
    (hread : ∀ a s, P a s → stop.Fails (afterLayout (print a ++ s)) ∧
      r (afterLayout (print a ++ s)) = .ok (value a, afterLayout s))
    (has : EachInPlace print P rest as) (hstop : stop (afterLayout rest) = .ok (b, u)) :
    manyTill stop r hr start (afterLayout (as.flatMap print ++ rest)) =
      .ok ((as.map value, b), u) := by
  induction as with
  | nil => exact manyTill_of_stop hstop
  | cons a as ih =>
    obtain ⟨ha, has⟩ := has
    obtain ⟨hopen, ha⟩ := hread a _ ha
    rw [List.flatMap_cons, List.append_assoc]
    exact manyTill_cons hopen ha (ih has)

/-- Values that are read in place are taken one after another, up to where the reader fails. -/
theorem takeMany_eachInPlace (value : α → β)
    (hread : ∀ a s u, P a s → afterLayout u = afterLayout (print a ++ s) →
      r u = .ok (value a, afterLayout s))
    (has : EachInPlace print P rest as) (hu : afterLayout u = afterLayout (as.flatMap print ++ rest))
    (hstop : ∀ t, afterLayout t = afterLayout rest → r.Fails t) :
    ∃ t, takeMany r hr u = (as.map value, t) ∧ afterLayout t = afterLayout rest := by
  induction as generalizing u with
  | nil => exact ⟨u, takeMany_of_fails (hstop u hu), hu⟩
  | cons a as ih =>
    obtain ⟨ha, has⟩ := has
    rw [List.flatMap_cons, List.append_assoc] at hu
    obtain ⟨t, hmany, ht⟩ := ih has (afterLayout_afterLayout _)
    refine ⟨t, ?_, ht⟩
    rw [takeMany_of_ok (hread a _ u ha hu), hmany]
    rfl

/-- Values that a repetition has taken off their own text are in place if each of them can only be
taken in place. -/
theorem eachInPlace_of_takeMany {r : Reader α} {hr : r.Progresses} {t : List Char}
    (hread : ∀ a ∈ as, ∀ s u t, afterLayout u = afterLayout (print a ++ s) → r u = .ok (a, t) →
      P a s ∧ afterLayout t = afterLayout s)
    (hu : afterLayout u = afterLayout (as.flatMap print ++ rest))
    (h : takeMany r hr u = (as, t)) : EachInPlace print P rest as := by
  induction as generalizing u with
  | nil => trivial
  | cons a as ih =>
    obtain ⟨v, ha, h⟩ := takeMany_eq_cons h
    rw [List.flatMap_cons, List.append_assoc] at hu
    obtain ⟨hP, hv⟩ := hread a List.mem_cons_self _ u v hu ha
    exact ⟨hP, ih (fun b hb => hread b (List.mem_cons_of_mem a hb)) hv h⟩

end Reader

end GatedCalls.Text
