import GatedCalls.Text.Reader.Repetition
import Mathlib.Data.List.Chain
import Mathlib.Logic.Relation

/-!
# Rounds of repetitions

A repetition goes round again where its end does not stand and an item is read. If the reader of the
items moves forward and progresses, each round works on a shorter suffix of the text
(`GoesRound.isWithin`), so there are no more rounds than characters (`length_le_of_rounds`). Where a
repetition fails is where the reader of the items failed, after some rounds
(`cases_of_manyTill_error`).

`manyTillWithin` and `takeManyWithin` are the same repetitions with their rounds counted, of any
reader. If it takes nothing, no number of rounds may be enough. If it progresses, more rounds than
characters are, and then they give what `manyTill` and `takeMany` give (`manyTillWithin_eq`,
`takeManyWithin_eq`).
-/

namespace GatedCalls.Text.Reader

open Relation (ReflTransGen)

variable {α β : Type} {stop : Reader β} {r : Reader α} {start s t e : List Char}

/-- Whether a repetition up to `stop` takes an item off a text and goes round again with the
rest. -/
def GoesRound (stop : Reader β) (r : Reader α) (s t : List Char) : Prop :=
  (∃ e, stop s = .error e) ∧ ∃ a, r s = .ok (a, t)

/-- Whether a text is a suffix of another one and shorter. -/
def IsWithin (t s : List Char) : Prop :=
  t <:+ s ∧ t.length < s.length

/-- A reader that moves forward and progresses leaves a shorter suffix. -/
theorem Forward.isWithin (hf : r.Forward) (hr : r.Progresses) {a : α} (h : r s = .ok (a, t)) :
    IsWithin t s :=
  ⟨hf.ok h, hr.lt h⟩

/-- Each round works on a shorter suffix of the text of the round before. -/
theorem GoesRound.isWithin (hf : r.Forward) (hr : r.Progresses) (h : GoesRound stop r s t) :
    IsWithin t s := by
  obtain ⟨-, a, ha⟩ := h
  exact hf.isWithin hr ha

/-- After any number of rounds a suffix is left. -/
theorem isSuffix_of_rounds {R : List Char → List Char → Prop}
    (hR : ∀ {s t}, R s t → IsWithin t s) (h : ReflTransGen R s t) : t <:+ s := by
  induction h with
  | refl => exact List.suffix_refl s
  | tail _ hround ih => exact (hR hround).1.trans ih

/-- There are no more rounds than characters in the text. -/
theorem length_le_of_rounds {R : List Char → List Char → Prop}
    (hR : ∀ {s t}, R s t → IsWithin t s) {ts : List (List Char)} (h : List.IsChain R (s :: ts)) :
    ts.length ≤ s.length := by
  induction ts generalizing s with
  | nil => exact Nat.zero_le _
  | cons t ts ih =>
    obtain ⟨hround, hrest⟩ := List.isChain_cons_cons.mp h
    have hlt := (hR hround).2
    have hle := ih hrest
    rw [List.length_cons]
    omega

/-- A repetition that fails has gone some rounds. Then the text was used up, and the failure is
where the repetition started, or no item could be read, and the failure is where that happened. -/
theorem cases_of_manyTill_error {hr : r.Progresses} (h : manyTill stop r hr start s = .error e) :
    ∃ t, ReflTransGen (GoesRound stop r) s t ∧ (∃ e', stop t = .error e') ∧
      (t = [] ∧ e = start ∨ t ≠ [] ∧ r t = .error e) := by
  -- On the length of the text, which each round makes shorter.
  induction hn : s.length using Nat.strongRecOn generalizing s with
  | _ n ih =>
    cases hstop : stop s with
    | ok x => rw [manyTill_of_stop hstop] at h; cases h
    | error e₁ =>
      by_cases hs : s = []
      · subst hs
        rw [manyTill_nil hstop] at h
        cases h
        exact ⟨[], .refl, ⟨e₁, hstop⟩, .inl ⟨rfl, rfl⟩⟩
      · cases ha : r s with
        | error e₂ =>
          rw [manyTill_of_error hstop hs ha] at h
          cases h
          exact ⟨s, .refl, ⟨e₁, hstop⟩, .inr ⟨hs, ha⟩⟩
        | ok x =>
          obtain ⟨a, u⟩ := x
          rw [manyTill_of_ok hstop ha] at h
          have hrest : manyTill stop r hr start u = .error e := by
            split at h
            · next hm => exact hm.trans h
            · cases h
          obtain ⟨t, hrounds, hend⟩ := ih u.length (hn ▸ hr.lt ha) hrest rfl
          exact ⟨t, .head ⟨⟨e₁, hstop⟩, a, ha⟩ hrounds, hend⟩

/-! ### Counted rounds -/

/-- Takes values until `stop` succeeds. There is no result if it takes more than the given number of
rounds. -/
def manyTillWithin (stop : Reader β) (r : Reader α) (start : List Char) :
    Nat → List Char → Option (Except (List Char) ((List α × β) × List Char))
  | 0, _ => none
  | n + 1, s =>
    match stop s with
    | .ok (b, t) => some (.ok (([], b), t))
    | .error _ =>
      if s.isEmpty then some (.error start)
      else
        match r s with
        | .error e => some (.error e)
        | .ok (a, t) =>
          (manyTillWithin stop r start n t).map fun
            | .error e => .error e
            | .ok ((as, b), u) => .ok ((a :: as, b), u)

/-- Takes values until the reader fails. There is no result if it takes more than the given number
of rounds. -/
def takeManyWithin (r : Reader α) : Nat → List Char → Option (List α × List Char)
  | 0, _ => none
  | n + 1, s =>
    match r s with
    | .error _ => some ([], s)
    | .ok (a, t) => (takeManyWithin r n t).map fun (as, u) => (a :: as, u)

/-- A repetition up to some end is over after no more rounds than characters, and the last. -/
theorem manyTillWithin_eq (hr : r.Progresses) (start : List Char) {n : Nat} {s : List Char}
    (h : s.length < n) :
    manyTillWithin stop r start n s = some (manyTill stop r hr start s) := by
  induction n generalizing s with
  | zero => exact absurd h (Nat.not_lt_zero _)
  | succ n ih =>
    rw [manyTillWithin]
    cases hstop : stop s with
    | ok x => rw [manyTill_of_stop hstop]
    | error e₁ =>
      by_cases hs : s = []
      · subst hs
        rw [manyTill_nil hstop]
        rfl
      · simp only [List.isEmpty_iff, hs, if_false]
        cases ha : r s with
        | error e₂ => rw [manyTill_of_error hstop hs ha]
        | ok x =>
          obtain ⟨a, t⟩ := x
          have ht : t.length < n := (hr.lt ha).trans_le (Nat.le_of_lt_succ h)
          rw [manyTill_of_ok hstop ha]
          simp only [ih ht]
          cases manyTill stop r hr start t <;> rfl

/-- A repetition up to the first failure is over after no more rounds than characters, and the
last. -/
theorem takeManyWithin_eq (hr : r.Progresses) {n : Nat} {s : List Char} (h : s.length < n) :
    takeManyWithin r n s = some (takeMany r hr s) := by
  induction n generalizing s with
  | zero => exact absurd h (Nat.not_lt_zero _)
  | succ n ih =>
    rw [takeManyWithin]
    cases ha : r s with
    | error e => rw [takeMany_of_error ha]
    | ok x =>
      obtain ⟨a, t⟩ := x
      have ht : t.length < n := (hr.lt ha).trans_le (Nat.le_of_lt_succ h)
      rw [takeMany_of_ok ha]
      simp only [ih ht, Option.map_some]

end GatedCalls.Text.Reader
