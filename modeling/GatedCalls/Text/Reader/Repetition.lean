import GatedCalls.Text.Reader.Forward

/-!
# Repetition

A repetition takes values with the same reader, one after another: until the reader fails (`many`),
with separators (`sepBy`), or until something else stands there (`manyTill`). It takes a proof that
the reader progresses; that is why it ends.
-/

namespace GatedCalls.Text.Reader

variable {α β : Type}

/-- The values that the reader takes off the text one after another until it fails, and the rest. It
ends because the reader takes something each time. -/
def takeMany (r : Reader α) (hr : r.Progresses) (s : List Char) : List α × List Char :=
  match _h : r s with
  | .ok (a, t) =>
    let (as, u) := takeMany r hr t
    (a :: as, u)
  | .error _ => ([], s)
termination_by s.length
decreasing_by exact hr.lt _h

/-- Takes values as long as the reader succeeds. -/
def many (r : Reader α) (hr : r.Progresses) : Reader (List α) :=
  fun s => .ok (takeMany r hr s)

/-- Takes one or more values; where there is none, fails as the reader does. -/
def many1 (r : Reader α) (hr : r.Progresses) : Reader (List α) := do
  let a ← r
  let as ← many r hr
  return a :: as

/-- A repetition that finds one more value takes it and goes on. -/
theorem takeMany_of_ok {r : Reader α} {hr : r.Progresses} {s t : List Char} {a : α}
    (h : r s = .ok (a, t)) :
    takeMany r hr s = (a :: (takeMany r hr t).1, (takeMany r hr t).2) := by
  rw [takeMany.eq_def]
  split
  · next a' t' h' =>
    cases h.symm.trans h'
    rfl
  · next h' => cases h.symm.trans h'

/-- A repetition ends where its reader fails. -/
theorem takeMany_of_error {r : Reader α} {hr : r.Progresses} {s e : List Char}
    (h : r s = .error e) : takeMany r hr s = ([], s) := by
  rw [takeMany.eq_def]
  split
  · next h' => cases h.symm.trans h'
  · rfl

/-- What is left after a repetition is a suffix. -/
theorem takeMany_suffix {r : Reader α} (hr : r.Progresses) (hf : r.Forward) (s : List Char) :
    (takeMany r hr s).2 <:+ s := by
  fun_induction takeMany r hr s with
  | case1 s a t ha as u hrest ih =>
    rw [hrest] at ih
    exact ih.trans (hf.ok ha)
  | case2 s => exact List.suffix_refl s

/-- A repetition moves forward if its reader does. -/
theorem forward_many {r : Reader α} {hr : r.Progresses} (hf : r.Forward) :
    (many r hr).Forward where
  ok {s as t} h := by
    injection h with h
    have := takeMany_suffix hr hf s
    rwa [h] at this
  error h := by injection h

/-- A repetition of at least one moves forward if its reader does. -/
theorem forward_many1 {r : Reader α} {hr : r.Progresses} (hf : r.Forward) :
    (many1 r hr).Forward :=
  hf.bind fun _ => (forward_many hf).bind fun _ => forward_pure _

/-- Takes values with separators between them, if there are any; a separator after which no value
follows is left where it is. -/
def sepBy (r : Reader α) (hr : r.Progresses) (sep : Reader Unit) (hsep : sep.Forward) :
    Reader (List α) := do
  let some a ← optional r | return []
  let as ← many (sep >>= fun _ => r) (Progresses.bind_right hsep fun _ => hr)
  return a :: as

/-- Takes one or more values with separators between them. -/
def sepBy1 (r : Reader α) (hr : r.Progresses) (sep : Reader Unit) (hsep : sep.Forward) :
    Reader (List α) := do
  let a ← r
  let as ← many (sep >>= fun _ => r) (Progresses.bind_right hsep fun _ => hr)
  return a :: as

/-- A list with separators moves forward if its items and its separators do. -/
theorem forward_sepBy {r : Reader α} {hr : r.Progresses} {sep : Reader Unit} {hsep : sep.Forward}
    (hf : r.Forward) : (sepBy r hr sep hsep).Forward :=
  hf.optional.bind fun
    | some _ => (forward_many (hsep.bind fun _ => hf)).bind fun _ => forward_pure _
    | none => forward_pure _

/-- Takes values until `stop` succeeds, and then what `stop` takes. Where the text ends before that,
the failure is at `start`, where the construct began that has no end. -/
def manyTill (stop : Reader β) (r : Reader α) (hr : r.Progresses) (start s : List Char) :
    Except (List Char) ((List α × β) × List Char) :=
  match stop s with
  | .ok (b, t) => .ok (([], b), t)
  | .error _ =>
    if s.isEmpty then .error start
    else
      match _h : r s with
      | .error e => .error e
      | .ok (a, t) =>
        match manyTill stop r hr start t with
        | .error e => .error e
        | .ok ((as, b), u) => .ok ((a :: as, b), u)
termination_by s.length
decreasing_by exact hr.lt _h

/-- A repetition ends where its end can be read. -/
theorem manyTill_of_stop {stop : Reader β} {r : Reader α} {hr : r.Progresses}
    {start s t : List Char} {b : β} (h : stop s = .ok (b, t)) :
    manyTill stop r hr start s = .ok (([], b), t) := by
  rw [manyTill.eq_def, h]

/-- Where the text is used up without its end, a repetition fails where it started. -/
theorem manyTill_nil {stop : Reader β} {r : Reader α} {hr : r.Progresses} {start e : List Char}
    (h : stop [] = .error e) : manyTill stop r hr start [] = .error start := by
  rw [manyTill.eq_def, h]
  rfl

/-- A repetition fails where neither its end nor an item can be read. -/
theorem manyTill_of_error {stop : Reader β} {r : Reader α} {hr : r.Progresses}
    {start s e e' : List Char} (h : stop s = .error e) (hs : s ≠ []) (hr' : r s = .error e') :
    manyTill stop r hr start s = .error e' := by
  rw [manyTill.eq_def, h]
  simp only [List.isEmpty_iff, hs, if_false]
  split
  · next h' =>
    cases hr'.symm.trans h'
    rfl
  · next h' => cases hr'.symm.trans h'

/-- Where its end cannot be read, a repetition goes on behind an item. -/
theorem manyTill_of_ok {stop : Reader β} {r : Reader α} {hr : r.Progresses}
    {start s e t : List Char} {a : α} (h : stop s = .error e) (ha : r s = .ok (a, t)) :
    manyTill stop r hr start s =
      match manyTill stop r hr start t with
      | .error e => .error e
      | .ok ((as, b), u) => .ok ((a :: as, b), u) := by
  have hs : s ≠ [] := by
    intro hs
    have := hr.lt ha
    rw [hs] at this
    exact Nat.not_lt_zero _ this
  rw [manyTill.eq_def, h]
  simp only [List.isEmpty_iff, hs, if_false]
  split
  · next h' => cases ha.symm.trans h'
  · next h' =>
    cases ha.symm.trans h'
    rfl

/-- What is left behind the end is a suffix of the text. -/
theorem manyTill_suffix {stop : Reader β} {r : Reader α} {hr : r.Progresses} (hstop : stop.Forward)
    (hf : r.Forward) {start s t : List Char} {x : List α × β}
    (h : manyTill stop r hr start s = .ok (x, t)) : t <:+ s := by
  fun_induction manyTill stop r hr start s generalizing x with
  | case1 s b u hb =>
    cases h
    exact hstop.ok hb
  | case5 s _ _ _ a u ha as b v hrest ih =>
    cases h
    exact (ih hrest).trans (hf.ok ha)
  | _ => contradiction

/-- Where a repetition fails is within the construct that it began in. -/
theorem manyTill_error_suffix {stop : Reader β} {r : Reader α} {hr : r.Progresses} (hf : r.Forward)
    {start s e : List Char} (hs : s <:+ start) (h : manyTill stop r hr start s = .error e) :
    e <:+ start := by
  fun_induction manyTill stop r hr start s with
  | case2 s =>
    cases h
    exact List.suffix_refl _
  | case3 s _ _ _ e' he =>
    cases h
    exact (hf.error he).trans hs
  | case4 s _ _ _ a u ha e' hrest ih =>
    cases h
    exact ih ((hf.ok ha).trans hs) hrest
  | _ => contradiction

/-- What is left behind the end is shorter than the text, if ending takes something. -/
theorem manyTill_lt {stop : Reader β} {r : Reader α} (hr : r.Progresses) (hstop : stop.Progresses)
    {start s t : List Char} {x : List α × β} (h : manyTill stop r hr start s = .ok (x, t)) :
    t.length < s.length := by
  fun_induction manyTill stop r hr start s generalizing x with
  | case1 s b u hb =>
    cases h
    exact hstop.lt hb
  | case5 s _ _ _ a u ha as b v hrest ih =>
    cases h
    exact Nat.lt_trans (ih hrest) (hr.lt ha)
  | _ => contradiction

end GatedCalls.Text.Reader
