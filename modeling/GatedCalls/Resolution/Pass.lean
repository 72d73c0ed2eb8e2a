/-!
# Passes over lists

A pass goes over the items of a list and puts others in the place of some. It begins a new list only
at the first item that gives way; that list starts with a copy of the items ahead. Where no item
gives way there is no new list, and the old one can be shared.
-/

namespace GatedCalls

variable {σ α : Type}

/-- How far a pass over a list has come: past how many items, and with which new list, if one has
been begun. -/
structure Pass (α : Type) where
  place : Nat
  new? : Option (Array α)

namespace Pass

/-- The pass that has not begun. -/
def start : Pass α :=
  ⟨0, none⟩

/-- Goes past one more item of the list, which stays as it is (`none`) or gives way to others. -/
def next (whole : List α) (p : Pass α) (item : α) : Option (List α) → Pass α
  | none => ⟨p.place + 1, p.new?.map (·.push item)⟩
  | some instead => ⟨p.place + 1, some (p.new?.getD (whole.take p.place).toArray ++ instead)⟩

/-- Visits one more item with the state of the visits, and goes past it. -/
def visit (f : σ → α → σ × Option (List α)) (whole : List α) (x : σ × Pass α) (item : α) :
    σ × Pass α :=
  let (s, instead?) := f x.1 item
  (s, x.2.next whole item instead?)

end Pass

/-- Visits the items of a list from the first to the last, each with the state that the visits ahead
have left. Yields the last state, and the list with what the visits put into it if one of them put
in anything. -/
def rewriteList (f : σ → α → σ × Option (List α)) (s : σ) (whole : List α) : σ × Option (List α) :=
  let (s, pass) := whole.foldl (Pass.visit f whole) (s, Pass.start)
  (s, pass.new?.map Array.toList)

end GatedCalls
