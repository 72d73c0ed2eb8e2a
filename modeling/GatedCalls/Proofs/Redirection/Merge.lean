import GatedCalls.Redirection.Table

/-!
# What a merged table says

What is added to replacements is there behind what was there, for one redirection and for a list of
them (`Replacements.addAll`). `Replacements.entries` lists exactly the redirections of all
permissions, and the merged table sends a method where the first of the entries for it sends it.
-/

namespace GatedCalls

namespace Replacements

/-- Nothing is redirected where nothing is provided. -/
theorem not_mem_redirectionsFor_empty (permission : String) (x : Redirection) :
    x ∉ empty.redirectionsFor permission := by
  simp [empty, redirectionsFor]

/-- The redirections of a permission behind a new one. -/
theorem mem_redirectionsFor_add {rs : Replacements} {permission permission' : String}
    {x y : Redirection} :
    x ∈ (rs.add permission y).redirectionsFor permission' ↔
      (permission = permission' ∧ x = y) ∨ x ∈ rs.redirectionsFor permission' := by
  unfold add redirectionsFor
  rw [Std.ExtTreeMap.getD_alter]
  split
  case isTrue h =>
    obtain rfl : permission = permission' := Std.LawfulEqOrd.eq_of_compare h
    rw [Option.getD_some, Std.ExtTreeSet.mem_insert, Std.ExtTreeMap.getD_eq_getD_getElem?]
    have heq : compare y x = .eq ↔ x = y := by
      rw [Std.LawfulEqCmp.compare_eq_iff_eq, eq_comm]
    simp [heq]
  case isFalse h =>
    have hne : permission ≠ permission' := by
      rintro rfl
      exact h Std.ReflCmp.compare_self
    simp [hne]

/-- A permission is there behind a new redirection if it was there or is that of the redirection. -/
theorem mem_redirections_add {rs : Replacements} {permission permission' : String}
    {x : Redirection} :
    permission' ∈ (rs.add permission x).redirections ↔
      permission = permission' ∨ permission' ∈ rs.redirections := by
  simp only [add, Std.ExtTreeMap.mem_alter, Std.LawfulEqCmp.compare_eq_iff_eq]
  split
  case isTrue h => simp [h]
  case isFalse h => simp [h]

/-- Adds redirections for their permissions. -/
def addAll (rs : Replacements) (entries : List (String × Redirection)) : Replacements :=
  entries.foldl (fun rs e => rs.add e.1 e.2) rs

/-- The redirections of a permission behind new ones. -/
theorem mem_redirectionsFor_addAll {rs : Replacements} {entries : List (String × Redirection)}
    {permission : String} {x : Redirection} :
    x ∈ (rs.addAll entries).redirectionsFor permission ↔
      x ∈ rs.redirectionsFor permission ∨ (permission, x) ∈ entries := by
  induction entries generalizing rs with
  | nil => simp [addAll]
  | cons e entries ih =>
    have hstep : rs.addAll (e :: entries) = (rs.add e.1 e.2).addAll entries := rfl
    have he : (permission, x) = e ↔ e.1 = permission ∧ x = e.2 := by
      rw [Prod.ext_iff, eq_comm]
    rw [hstep, ih, mem_redirectionsFor_add, List.mem_cons, he, or_assoc, or_left_comm]

/-- A permission is there behind new redirections if it was there or has one of them. -/
theorem mem_redirections_addAll {rs : Replacements} {entries : List (String × Redirection)}
    {permission : String} :
    permission ∈ (rs.addAll entries).redirections ↔
      permission ∈ rs.redirections ∨ ∃ x, (permission, x) ∈ entries := by
  induction entries generalizing rs with
  | nil => simp [addAll]
  | cons e entries ih =>
    have hstep : rs.addAll (e :: entries) = (rs.add e.1 e.2).addAll entries := rfl
    have he : (∃ x, (permission, x) = e) ↔ e.1 = permission :=
      ⟨fun ⟨x, hx⟩ => hx ▸ rfl, fun hp => ⟨e.2, hp ▸ rfl⟩⟩
    simp only [hstep, ih, mem_redirections_add, List.mem_cons, exists_or, he]
    rw [or_assoc, or_left_comm]

/-- Redirections ship no classes. -/
theorem classes_addAll (rs : Replacements) (entries : List (String × Redirection)) :
    (rs.addAll entries).classes = rs.classes := by
  induction entries generalizing rs with
  | nil => rfl
  | cons e entries ih => exact ih (rs.add e.1 e.2)

/-- The entries are the redirections of all permissions. -/
theorem mem_entries {rs : Replacements} {permission : String} {x : Redirection} :
    (permission, x) ∈ rs.entries ↔ x ∈ rs.redirectionsFor permission := by
  unfold entries redirectionsFor
  rw [Std.ExtTreeMap.getD_eq_getD_getElem?]
  simp only [List.mem_flatMap, List.mem_map, Prod.exists, Prod.mk.injEq,
    Std.ExtTreeMap.mem_toList_iff_getElem?_eq_some, Std.ExtTreeSet.mem_toList]
  constructor
  · rintro ⟨permission', known, hget, y, hy, rfl, rfl⟩
    rw [hget]
    exact hy
  · intro hx
    cases hget : rs.redirections[permission]? with
    | none => simp [hget] at hx
    | some known =>
      rw [hget] at hx
      exact ⟨permission, known, hget, x, hx, rfl, rfl⟩

end Replacements

namespace RedirectionTable

/-- What is kept for a method behind one more redirection. -/
theorem getElem?_keep (kept : Kept) (permission : String) (x : Redirection) (callee : MethodRef) :
    (keep kept permission x)[callee]? =
      (kept[callee]?).or (if x.callee = callee then some (permission, x.replacement) else none) := by
  unfold keep
  split
  case isTrue hcontains =>
    by_cases heq : x.callee = callee
    · subst heq
      obtain ⟨known, hknown⟩ : ∃ known, kept[x.callee]? = some known :=
        ⟨_, Std.ExtTreeMap.getElem?_eq_some_getElem hcontains⟩
      simp [hknown]
    · simp [heq]
  case isFalse hcontains =>
    rw [Std.ExtTreeMap.getElem?_insert]
    by_cases heq : x.callee = callee
    · subst heq
      have hnone : kept[x.callee]? = none := Std.ExtTreeMap.getElem?_eq_none hcontains
      simp [hnone]
    · simp [heq, Std.LawfulEqCmp.compare_eq_iff_eq]

/-- What is kept for a method is what was kept before or what the first entry for it says. -/
theorem getElem?_keepAll (kept : Kept) (entries : List (String × Redirection))
    (callee : MethodRef) :
    (keepAll kept entries)[callee]? =
      (kept[callee]?).or
        ((entries.find? fun e => e.2.callee = callee).map fun e => (e.1, e.2.replacement)) := by
  induction entries generalizing kept with
  | nil => simp [keepAll]
  | cons e entries ih =>
    have hstep : keepAll kept (e :: entries) = keepAll (keep kept e.1 e.2) entries := rfl
    rw [hstep, ih, getElem?_keep, Option.or_assoc]
    by_cases heq : e.2.callee = callee
    · simp [heq]
    · simp [heq]

/-- The merged table sends a method where the first entry for it sends it. -/
theorem get?_merge (rs : Replacements) (callee : MethodRef) :
    (merge rs).value.get? callee =
      (rs.entries.find? fun e => e.2.callee = callee).map fun e => e.2.replacement := by
  simp only [merge, get?, Std.ExtTreeMap.getElem?_map, getElem?_keepAll,
    Std.ExtTreeMap.getElem?_empty, Option.none_or, Option.map_map]
  rfl

/-- What the merged table says is a redirection of some permission. -/
theorem exists_permission_of_get?_merge {rs : Replacements} {callee replacement : MethodRef}
    (h : (merge rs).value.get? callee = some replacement) :
    ∃ permission, ⟨callee, replacement⟩ ∈ rs.redirectionsFor permission := by
  rw [get?_merge, Option.map_eq_some_iff] at h
  obtain ⟨⟨permission, x⟩, hfind, rfl⟩ := h
  have hcallee : x.callee = callee := by simpa using List.find?_some hfind
  subst hcallee
  exact ⟨permission, Replacements.mem_entries.mp (List.mem_of_find?_eq_some hfind)⟩

end RedirectionTable

end GatedCalls
