import GatedCalls.Log
import GatedCalls.Redirection.Basic

/-!
# Redirection tables

A redirection table says for a method where its calls are sent. It is merged from the redirections
of all permissions: where several of them redirect the same method, the first one in the order of
permissions, and within a permission the first replacement, is kept, and a warning names each other
one.
-/

namespace GatedCalls

/-- For each redirected method, its replacement. -/
structure RedirectionTable where
  redirections : Std.ExtTreeMap MethodRef MethodRef

namespace RedirectionTable

/-- The table that redirects nothing. -/
def empty : RedirectionTable :=
  ⟨∅⟩

/-- The replacement of a method. -/
def get? (t : RedirectionTable) (callee : MethodRef) : Option MethodRef :=
  t.redirections[callee]?

/-- Redirects a method, whatever became of its calls before. -/
def insert (t : RedirectionTable) (callee replacement : MethodRef) : RedirectionTable :=
  ⟨t.redirections.insert callee replacement⟩

/-- No method has a replacement where nothing is redirected. -/
@[simp] theorem get?_empty (callee : MethodRef) : empty.get? callee = none := by
  simp [get?, empty]

/-- A redirected method has its new replacement, and all others keep theirs. -/
theorem get?_insert (t : RedirectionTable) (callee replacement other : MethodRef) :
    (t.insert callee replacement).get? other =
      if callee = other then some replacement else t.get? other := by
  simp [get?, insert, Std.ExtTreeMap.getElem?_insert]

/-- The number of redirected methods. -/
def size (t : RedirectionTable) : Nat :=
  t.redirections.size

/-- Whether nothing is redirected. -/
def isEmpty (t : RedirectionTable) : Bool :=
  t.redirections.isEmpty

/-- The redirections that are kept while merging, each with its permission. -/
abbrev Kept : Type :=
  Std.ExtTreeMap MethodRef (String × MethodRef)

/-- Keeps a redirection unless one for the same method is there already. -/
def keep (kept : Kept) (permission : String) (r : Redirection) : Kept :=
  if kept.contains r.callee then kept else kept.insert r.callee (permission, r.replacement)

/-- The warning about a redirection that contradicts the one that is kept. -/
def conflict? (kept : Kept) (permission : String) (r : Redirection) : Option Log.Record :=
  match kept[r.callee]? with
  | none => none
  | some (keptPermission, replacement) =>
    if replacement = r.replacement then none
    else some ⟨.warn, .library, "Conflicting redirections for " ++ r.callee.text ++
      ": keeping " ++ replacement.text ++ " (" ++ keptPermission ++ "), dropping " ++
      r.replacement.text ++ " (" ++ permission ++ ")"⟩

/-- The redirections that are kept of entries in order, after those that are kept already. -/
def keepAll (kept : Kept) (entries : List (String × Redirection)) : Kept :=
  entries.foldl (fun kept (permission, r) => keep kept permission r) kept

/-- Merges the redirections of all permissions. -/
def merge (rs : Replacements) : Logged RedirectionTable :=
  let kept := keepAll ∅ rs.entries
  ⟨⟨kept.map fun _ (_, replacement) => replacement⟩,
    rs.entries.filterMap fun (permission, r) => conflict? kept permission r⟩

end RedirectionTable

end GatedCalls
