import GatedCalls.Proofs.Text.Sequence

/-!
# What a text adds to a repetition

A repetition with an end reads a text piece by piece, and what it reads of a piece may depend on
what stands behind it. `Yields` says that a piece, in front of the text behind it, only puts some
values in front of what is read of that text. Pieces that stand one behind another yield what each
of them yields, and a failure behind them is one of the whole.
-/

namespace GatedCalls.Text

namespace Reader

variable {α β γ : Type}

/-- Puts values in front of those that a repetition with an end has taken. -/
def prepend (bs : List β) :
    Except (List Char) ((List β × γ) × List Char) → Except (List Char) ((List β × γ) × List Char)
  | .ok ((as, c), u) => .ok ((bs ++ as, c), u)
  | .error e => .error e

/-- Putting no values in front changes nothing. -/
@[simp] theorem prepend_nil (x : Except (List Char) ((List β × γ) × List Char)) :
    prepend [] x = x := by
  cases x <;> rfl

/-- Values are put in front one list after the other. -/
theorem prepend_append (bs cs : List β) (x : Except (List Char) ((List β × γ) × List Char)) :
    prepend (bs ++ cs) x = prepend bs (prepend cs x) := by
  cases x with
  | error e => rfl
  | ok y => simp [prepend]

section Yields

variable {stop : Reader γ} {r : Reader β} {hr : r.Progresses} {x y behind : List Char}
  {bs cs : List β}

/-- Whether a text yields values in front of the text behind it: the repetition takes them and then
what it takes of that text. Layout does not count. -/
def Yields (stop : Reader γ) (r : Reader β) (hr : r.Progresses) (x : List Char) (bs : List β)
    (behind : List Char) : Prop :=
  ∀ start, manyTill stop r hr start (afterLayout (x ++ behind)) =
    prepend bs (manyTill stop r hr start (afterLayout behind))

/-- Layout yields nothing. -/
theorem yields_layout (hx : ∀ c ∈ x, isLayout c = true) : Yields stop r hr x [] behind := by
  intro start
  rw [afterLayout_append hx, prepend_nil]

/-- An item that is read with the layout behind it is yielded. -/
theorem yields_one {b : β} (hstop : stop.Fails (afterLayout (x ++ behind)))
    (hread : r (afterLayout (x ++ behind)) = .ok (b, afterLayout behind)) :
    Yields stop r hr x [b] behind := by
  intro start
  obtain ⟨e, he⟩ := hstop
  rw [manyTill_of_ok he hread]
  cases manyTill stop r hr start (afterLayout behind) <;> rfl

/-- Two texts that stand one behind the other. -/
theorem Yields.append (hx : Yields stop r hr x bs (y ++ behind)) (hy : Yields stop r hr y cs behind) :
    Yields stop r hr (x ++ y) (bs ++ cs) behind := by
  intro start
  rw [List.append_assoc, hx start, hy start, prepend_append]

/-- Texts that stand one behind another. -/
theorem yields_flatMap {print : α → List Char} {values : α → List β} {as : List α}
    (h : EachInPlace print (fun a s => Yields stop r hr (print a) (values a) s) behind as) :
    Yields stop r hr (as.flatMap print) (as.flatMap values) behind := by
  induction as with
  | nil => exact yields_layout nofun
  | cons a as ih => exact h.1.append (ih h.2)

/-- In front of the end, what a text yields is all that is taken. -/
theorem Yields.manyTill_eq_ok {c : γ} {u : List Char} (h : Yields stop r hr x bs behind)
    (hstop : stop (afterLayout behind) = .ok (c, u)) (start : List Char) :
    manyTill stop r hr start (afterLayout (x ++ behind)) = .ok ((bs, c), u) := by
  rw [h start, manyTill_of_stop hstop, prepend, List.append_nil]

/-- In front of something that cannot be read, the whole fails. -/
theorem Yields.manyTill_fails (h : Yields stop r hr x bs behind)
    (hstop : stop.Fails (afterLayout behind)) (hread : r.Fails (afterLayout behind))
    (start : List Char) :
    ∃ e, manyTill stop r hr start (afterLayout (x ++ behind)) = .error e := by
  obtain ⟨e, he⟩ := hstop
  obtain ⟨e', he'⟩ := hread
  rw [h start]
  by_cases hnil : afterLayout behind = []
  · exact ⟨start, by rw [hnil] at he ⊢; rw [manyTill_nil he]; rfl⟩
  · exact ⟨e', by rw [manyTill_of_error he hnil he']; rfl⟩

end Yields

end Reader

end GatedCalls.Text
