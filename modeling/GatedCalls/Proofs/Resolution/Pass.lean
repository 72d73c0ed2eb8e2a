import GatedCalls.Resolution.Pass

/-!
# A pass is a plain rewriting

A pass copies late: the new list is begun at the first item that gives way, with the items ahead of
it. `rewriteList_eq` says that nothing of this can be seen. Where what a visit puts in depends on
the item alone, the new list is the one that puts in item by item, there is one exactly if some
item gives way, and the state is the one that the visits leave one after another.

The invariant is `Pass.after`: the state of the pass behind a beginning of the list, told without
the way in which it came there.
-/

namespace GatedCalls

variable {σ α : Type}

/-- The items with others in the place of those that give way. -/
def replaceItems (instead? : α → Option (List α)) (items : List α) : List α :=
  items.flatMap fun item => (instead? item).getD [item]

/-- Where no item gives way, nothing is replaced. -/
theorem replaceItems_of_not_any {instead? : α → Option (List α)} {items : List α}
    (h : (items.any fun item => (instead? item).isSome) = false) :
    replaceItems instead? items = items := by
  induction items with
  | nil => rfl
  | cons item items ih =>
    rw [List.any_cons, Bool.or_eq_false_iff] at h
    obtain ⟨h₁, h₂⟩ := h
    have hitem : instead? item = none := by simpa using h₁
    have htail : replaceItems instead? items = items := ih h₂
    unfold replaceItems at htail ⊢
    rw [List.flatMap_cons, hitem, htail]
    rfl

/-- The replaced items of two lists, one after the other. -/
theorem replaceItems_append (instead? : α → Option (List α)) (items items' : List α) :
    replaceItems instead? (items ++ items') =
      replaceItems instead? items ++ replaceItems instead? items' :=
  List.flatMap_append

namespace Pass

/-- Where a pass stands behind the items `ahead`. -/
def after (instead? : α → Option (List α)) (ahead : List α) : Pass α where
  place := ahead.length
  new? :=
    if ahead.any fun item => (instead? item).isSome then
      some (replaceItems instead? ahead).toArray
    else none

/-- The list that has been begun behind the items `ahead`, or the one that is begun now, holds these
items as far as they have not given way. -/
theorem getD_new?_after (instead? : α → Option (List α)) (ahead todo : List α) :
    (after instead? ahead).new?.getD ((ahead ++ todo).take (after instead? ahead).place).toArray =
      (replaceItems instead? ahead).toArray := by
  cases h : ahead.any fun item => (instead? item).isSome with
  | true => simp [after, h]
  | false => simp [after, h, replaceItems_of_not_any h]

/-- A pass that stands behind the items `ahead` stands behind one more after the next step. -/
theorem next_after (instead? : α → Option (List α)) (ahead : List α) (item : α) (todo : List α) :
    (after instead? ahead).next (ahead ++ item :: todo) item (instead? item) =
      after instead? (ahead ++ [item]) := by
  cases hitem : instead? item with
  | none =>
    -- The item stays; it is copied if a new list has been begun.
    have hone : replaceItems instead? [item] = [item] := by simp [replaceItems, hitem]
    cases hany : ahead.any fun item => (instead? item).isSome with
    | true => simp [next, after, hany, hitem, replaceItems_append, hone]
    | false => simp [next, after, hany, hitem]
  | some items =>
    have hone : replaceItems instead? [item] = items := by simp [replaceItems, hitem]
    have hold := getD_new?_after instead? ahead (item :: todo)
    simp only [next]
    rw [hold]
    simp [after, hitem, replaceItems_append, hone]

/-- A visit behind the items `ahead` hands the state on and stands behind one more item. -/
theorem visit_after {f : σ → α → σ × Option (List α)} {advance : σ → α → σ}
    {instead? : α → Option (List α)} (hf : ∀ s item, f s item = (advance s item, instead? item))
    (s : σ) (ahead : List α) (item : α) (todo : List α) :
    visit f (ahead ++ item :: todo) (s, after instead? ahead) item =
      (advance s item, after instead? (ahead ++ [item])) := by
  unfold visit
  rw [hf]
  exact congrArg (advance s item, ·) (next_after instead? ahead item todo)

/-- Visits from behind the items `ahead` to the end hand the state on and stand behind all items. -/
theorem foldl_visit {f : σ → α → σ × Option (List α)} {advance : σ → α → σ}
    {instead? : α → Option (List α)} (hf : ∀ s item, f s item = (advance s item, instead? item))
    (s : σ) (ahead todo : List α) :
    todo.foldl (visit f (ahead ++ todo)) (s, after instead? ahead) =
      (todo.foldl advance s, after instead? (ahead ++ todo)) := by
  induction todo generalizing ahead s with
  | nil => rw [List.append_nil]; rfl
  | cons item todo ih =>
    have happend : ahead ++ item :: todo = (ahead ++ [item]) ++ todo := by simp
    rw [List.foldl_cons, visit_after hf, happend]
    exact ih (advance s item) (ahead ++ [item])

end Pass

/-- Where what a visit puts in depends on the item alone, a pass replaces item by item, and hands
the state on from visit to visit. -/
theorem rewriteList_eq {f : σ → α → σ × Option (List α)} {advance : σ → α → σ}
    {instead? : α → Option (List α)} (hf : ∀ s item, f s item = (advance s item, instead? item))
    (s : σ) (items : List α) :
    rewriteList f s items =
      (items.foldl advance s,
        if items.any fun item => (instead? item).isSome then some (replaceItems instead? items)
        else none) := by
  have hfold := Pass.foldl_visit hf s [] items
  rw [List.nil_append, show Pass.after instead? [] = Pass.start from rfl] at hfold
  unfold rewriteList
  rw [hfold]
  simp only [Pass.after]
  split <;> simp

end GatedCalls
