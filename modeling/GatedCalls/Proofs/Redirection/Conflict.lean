import GatedCalls.Proofs.Redirection.Merge
import Mathlib.Data.List.Dedup
import Mathlib.Data.String.Basic

/-!
# Which redirection is kept

The entries of what the libraries provide stand in one order: by permission, then by callee, then by
replacement (`pairwise_entries`). Merging keeps the first entry for each callee, so the one that is
kept is the least: no other permission that redirects the callee comes before, nor another
replacement for the same permission (`get?_merge_eq_some`). Each entry that says something else is
reported once, and it makes no difference whether it is compared with what is kept when it comes up
or with what is kept in the end (`pass_eq`), since what is kept for a callee never changes.
-/

namespace GatedCalls

/-- In a list in which each item stands ahead of those behind it, the item that is found is the one
with the property ahead of all others. -/
theorem find?_eq_some_iff_of_pairwise {α : Type} {R : α → α → Prop}
    (hasymm : ∀ a b, R a b → ¬R b a) {as : List α} (h : as.Pairwise R) {p : α → Bool} {a : α} :
    as.find? p = some a ↔ a ∈ as ∧ p a = true ∧ ∀ b ∈ as, p b = true → b = a ∨ R a b := by
  have hleast : ∀ {a}, as.find? p = some a → ∀ b ∈ as, p b = true → b = a ∨ R a b := by
    intro a hfind b hb hpb
    obtain ⟨-, front, behind, rfl, hfront⟩ := List.find?_eq_some_iff_append.mp hfind
    obtain hb | hb := List.mem_append.mp hb
    · exact absurd hpb (by simpa using hfront b hb)
    · obtain rfl | hb := List.mem_cons.mp hb
      · exact .inl rfl
      · exact .inr (List.rel_of_pairwise_cons (List.pairwise_append.mp h).2.1 hb)
  constructor
  · intro hfind
    exact ⟨List.mem_of_find?_eq_some hfind, List.find?_some hfind, hleast hfind⟩
  · rintro ⟨ha, hpa, hall⟩
    obtain ⟨b, hfind⟩ := Option.isSome_iff_exists.mp (List.find?_isSome.mpr ⟨a, ha, hpa⟩)
    obtain rfl | hab := hall b (List.mem_of_find?_eq_some hfind) (List.find?_some hfind)
    · exact hfind
    · obtain rfl | hba := hleast hfind a ha hpa
      · exact hfind
      · exact absurd hba (hasymm a b hab)

namespace Replacements

/-- Whether one entry stands ahead of another: its permission comes before, or its callee under the
same permission, or its replacement for the same callee. -/
def IsAhead (e e' : String × Redirection) : Prop :=
  e.1 < e'.1 ∨ e.1 = e'.1 ∧ compare e.2 e'.2 = .lt

/-- Of two entries at most one stands ahead of the other. -/
theorem isAhead_asymm (e e' : String × Redirection) (h : IsAhead e e') : ¬IsAhead e' e := by
  rintro (hback | ⟨hsame, hback⟩) <;> obtain hlt | ⟨heq, hlt⟩ := h
  · exact lt_asymm hlt hback
  · exact hback.ne heq.symm
  · exact hlt.ne hsame.symm
  · exact Std.OrientedCmp.not_lt_of_lt hlt hback

/-- The entries stand in their order. -/
theorem pairwise_entries (rs : Replacements) : rs.entries.Pairwise IsAhead := by
  unfold entries
  refine List.pairwise_flatMap.mpr ⟨fun e _ => ?_, ?_⟩
  · exact List.pairwise_map.mpr (Std.ExtTreeSet.ordered_toList.imp fun hlt => .inr ⟨rfl, hlt⟩)
  · refine Std.ExtTreeMap.ordered_keys_toList.imp fun {e e'} hlt x hx y hy => ?_
    obtain ⟨r, -, rfl⟩ := List.mem_map.mp hx
    obtain ⟨r', -, rfl⟩ := List.mem_map.mp hy
    exact .inl (compare_lt_iff_lt.mp hlt)

/-- Whether a redirection of the permission is the least for the callee: it comes before all others
in the order of permissions, and of the replacements for this permission. -/
structure IsLeast (rs : Replacements) (callee : MethodRef) (permission : String)
    (replacement : MethodRef) : Prop where
  /-- It is one of the redirections of the permission. -/
  mem : ⟨callee, replacement⟩ ∈ rs.redirectionsFor permission
  /-- No redirection of the callee comes before it. -/
  le : ∀ permission' replacement', ⟨callee, replacement'⟩ ∈ rs.redirectionsFor permission' →
    permission < permission' ∨
      permission = permission' ∧ (compare replacement replacement').isLE = true

/-- For the same callee, redirections stand in the order of the replacements. -/
theorem compare_redirection (callee replacement replacement' : MethodRef) :
    compare (⟨callee, replacement⟩ : Redirection) ⟨callee, replacement'⟩ =
      compare replacement replacement' := by
  show (compareOn Redirection.callee _ _).then (compareOn Redirection.replacement _ _) = _
  rw [show compareOn Redirection.callee ⟨callee, replacement⟩ ⟨callee, replacement'⟩ = .eq from
    Std.ReflCmp.compare_self]
  rfl

/-- The first entry for a callee is the least redirection of it. -/
theorem find?_entries_eq_some {rs : Replacements} {callee : MethodRef} {permission : String}
    {replacement : MethodRef} :
    (rs.entries.find? fun e => e.2.callee = callee) = some (permission, ⟨callee, replacement⟩) ↔
      rs.IsLeast callee permission replacement := by
  rw [find?_eq_some_iff_of_pairwise isAhead_asymm rs.pairwise_entries]
  constructor
  · rintro ⟨hmem, -, hall⟩
    refine ⟨mem_entries.mp hmem, fun permission' replacement' hmem' => ?_⟩
    obtain heq | hlt | ⟨rfl, hlt⟩ := hall _ (mem_entries.mpr hmem') (by simp)
    · obtain ⟨rfl, hsame⟩ := Prod.mk.inj heq
      obtain ⟨-, rfl⟩ := Redirection.mk.inj hsame
      exact .inr ⟨rfl, Std.ReflCmp.isLE_rfl⟩
    · exact .inl hlt
    · rw [compare_redirection] at hlt
      exact .inr ⟨rfl, Ordering.isLE_of_eq_lt hlt⟩
  · rintro ⟨hmem, hle⟩
    refine ⟨mem_entries.mpr hmem, by simp, ?_⟩
    rintro ⟨permission', callee', replacement'⟩ hmem' hcallee
    obtain rfl : callee' = callee := by simpa using hcallee
    obtain hlt | ⟨rfl, hisLE⟩ := hle permission' replacement' (mem_entries.mp hmem')
    · exact .inr (.inl hlt)
    · obtain hlt | heq := Ordering.isLE_iff_eq_lt_or_eq_eq.mp hisLE
      · exact .inr (.inr ⟨rfl, by rw [compare_redirection, hlt]⟩)
      · obtain rfl := Std.LawfulEqOrd.eq_of_compare heq
        exact .inl rfl

end Replacements

namespace RedirectionTable

/-- The merged table sends a method to the replacement of the least redirection of it. -/
theorem get?_merge_eq_some {rs : Replacements} {callee replacement : MethodRef} :
    (merge rs).value.get? callee = some replacement ↔
      ∃ permission, rs.IsLeast callee permission replacement := by
  rw [get?_merge, Option.map_eq_some_iff]
  constructor
  · rintro ⟨⟨permission, x⟩, hfind, rfl⟩
    obtain rfl : x.callee = callee := by simpa using List.find?_some hfind
    exact ⟨permission, Replacements.find?_entries_eq_some.mp hfind⟩
  · rintro ⟨permission, hleast⟩
    exact ⟨_, Replacements.find?_entries_eq_some.mpr hleast, rfl⟩

/-! ### The size of the table -/

/-- A merged table redirects each callee of an entry once, and nothing else. -/
theorem size_merge (rs : Replacements) :
    (merge rs).value.size = (rs.entries.map fun e => e.2.callee).dedup.length := by
  have hkeys : (merge rs).value.redirections.keys.Perm
      (rs.entries.map fun e => e.2.callee).dedup := by
    refine (List.perm_ext_iff_of_nodup Std.ExtTreeMap.nodup_keys (List.nodup_dedup _)).mpr
      fun callee => ?_
    rw [Std.ExtTreeMap.mem_keys, Std.ExtTreeMap.mem_iff_isSome_getElem?, List.mem_dedup,
      List.mem_map, show (merge rs).value.redirections[callee]? = _ from get?_merge rs callee,
      Option.isSome_map, List.find?_isSome]
    simp
  rw [size, ← Std.ExtTreeMap.length_keys, hkeys.length_eq]

/-! ### Reports -/

/-- The report that a redirection of a permission is dropped, as another replacement is kept for its
callee. -/
def droppedRecord (keptPermission : String) (kept : MethodRef) (e : String × Redirection) :
    Log.Record :=
  ⟨.warn, .library, "Conflicting redirections for " ++ e.2.callee.text ++ ": keeping " ++
    kept.text ++ " (" ++ keptPermission ++ "), dropping " ++ e.2.replacement.text ++ " (" ++ e.1 ++
    ")"⟩

/-- An entry is reported if what is kept for its callee is something else. -/
theorem conflict?_eq (kept : Kept) (e : String × Redirection) :
    conflict? kept e.1 e.2 = (kept[e.2.callee]?).bind fun k =>
      if k.2 = e.2.replacement then none else some (droppedRecord k.1 k.2 e) := by
  unfold conflict?
  cases kept[e.2.callee]? with
  | none => rfl
  | some k => rfl

/-- Meets one more entry: it is kept, or compared with what is kept and perhaps reported. -/
def meet (x : Kept × List Log.Record) (e : String × Redirection) : Kept × List Log.Record :=
  (keep x.1 e.1 e.2, x.2 ++ (conflict? x.1 e.1 e.2).toList)

/-- What is kept for a callee stays. -/
theorem getElem?_keepAll_of_some {kept : Kept} {entries : List (String × Redirection)}
    {callee : MethodRef} {k : String × MethodRef} (h : kept[callee]? = some k) :
    (keepAll kept entries)[callee]? = some k := by
  rw [getElem?_keepAll, h, Option.some_or]

/-- An entry is reported when it comes up if and only if it is in the end: what is kept for its
callee is there by then, or it is the entry itself. -/
theorem conflict?_keepAll_cons (kept : Kept) (e : String × Redirection)
    (entries : List (String × Redirection)) :
    conflict? (keepAll kept (e :: entries)) e.1 e.2 = conflict? kept e.1 e.2 := by
  rw [conflict?_eq, conflict?_eq]
  cases hkept : kept[e.2.callee]? with
  | some k => rw [getElem?_keepAll_of_some hkept]
  | none => simp [getElem?_keepAll, hkept]

/-- Meeting entries one after another keeps and reports what merging keeps and reports. -/
theorem foldl_meet (kept : Kept) (log : List Log.Record) (entries : List (String × Redirection)) :
    entries.foldl meet (kept, log) =
      (keepAll kept entries,
        log ++ entries.filterMap fun e => conflict? (keepAll kept entries) e.1 e.2) := by
  induction entries generalizing kept log with
  | nil => simp [keepAll]
  | cons e entries ih =>
    have hstep : keepAll kept (e :: entries) = keepAll (keep kept e.1 e.2) entries := rfl
    rw [List.foldl_cons, meet, ih, hstep, List.append_assoc, List.filterMap_cons, ← hstep,
      conflict?_keepAll_cons]
    cases conflict? kept e.1 e.2 <;> rfl

/-- The reports of a merge are those of one pass over the entries. -/
theorem log_merge_eq_pass (rs : Replacements) :
    (merge rs).log = (rs.entries.foldl meet (∅, [])).2 := by
  rw [foldl_meet]
  rfl

/-- The entries that the merged table contradicts. -/
def dropped (rs : Replacements) : List (String × Redirection) :=
  rs.entries.filter fun e => (merge rs).value.get? e.2.callee ≠ some e.2.replacement

/-- What is kept in the end for the callee of an entry is the least redirection of it. -/
theorem exists_isLeast_of_mem {rs : Replacements} {e : String × Redirection} (h : e ∈ rs.entries) :
    ∃ permission replacement, rs.IsLeast e.2.callee permission replacement ∧
      (keepAll ∅ rs.entries)[e.2.callee]? = some (permission, replacement) := by
  obtain ⟨⟨permission, callee, replacement⟩, hfind⟩ : ∃ first,
      (rs.entries.find? fun e' => e'.2.callee = e.2.callee) = some first :=
    Option.isSome_iff_exists.mp (List.find?_isSome.mpr ⟨e, h, by simp⟩)
  obtain rfl : callee = e.2.callee := by simpa using List.find?_some hfind
  refine ⟨permission, replacement, Replacements.find?_entries_eq_some.mp hfind, ?_⟩
  rw [getElem?_keepAll, hfind]
  simp

/-- Where exactly the items with a property yield something, what is yielded belongs to these items,
one by one. -/
theorem forall₂_filter_filterMap {α β : Type} {p : α → Bool} {f : α → Option β} {R : α → β → Prop}
    {as : List α}
    (h : ∀ a ∈ as, p a = false ∧ f a = none ∨ p a = true ∧ ∃ b, f a = some b ∧ R a b) :
    List.Forall₂ R (as.filter p) (as.filterMap f) := by
  induction as with
  | nil => exact .nil
  | cons a as ih =>
    obtain ⟨ha, has⟩ := List.forall_mem_cons.mp h
    obtain ⟨hp, hf⟩ | ⟨hp, b, hf, hab⟩ := ha
    · rw [List.filter_cons_of_neg (by simp [hp]), List.filterMap_cons_none hf]
      exact ih has
    · rw [List.filter_cons_of_pos hp, List.filterMap_cons_some hf]
      exact .cons hab (ih has)

/-- There is one report for each entry that the table contradicts, in their order. It names what is
kept, with its permission. -/
theorem forall₂_dropped_log (rs : Replacements) :
    List.Forall₂ (fun e record => ∃ permission replacement,
      rs.IsLeast e.2.callee permission replacement ∧
        record = droppedRecord permission replacement e) (dropped rs) (merge rs).log := by
  refine forall₂_filter_filterMap fun e he => ?_
  obtain ⟨permission, replacement, hleast, hkept⟩ := exists_isLeast_of_mem he
  have hget : (merge rs).value.get? e.2.callee = some replacement :=
    get?_merge_eq_some.mpr ⟨permission, hleast⟩
  have hconflict := conflict?_eq (keepAll ∅ rs.entries) e
  rw [hkept, Option.bind_some] at hconflict
  by_cases hsame : replacement = e.2.replacement
  · exact .inl ⟨by simp [hget, hsame], hconflict.trans (if_pos hsame)⟩
  · exact .inr ⟨by simpa [hget] using hsame, _, hconflict.trans (if_neg hsame), permission,
      replacement, hleast, rfl⟩

/-- Of several redirections of a method the least one is kept. The merged table sends a method to a
replacement if and only if that is the least redirection of the method, by permission and then by
replacement; it redirects each callee once. The entries are the redirections of all permissions, in
their order, and there is one report for each entry that says something else than the table, in this
order, which names what is kept. The reports are those of one pass over the entries. -/
theorem merge_keeps_least (rs : Replacements) :
    (∀ callee replacement, (merge rs).value.get? callee = some replacement ↔
      ∃ permission, rs.IsLeast callee permission replacement) ∧
    (merge rs).value.size = (rs.entries.map fun e => e.2.callee).dedup.length ∧
    (∀ permission x, (permission, x) ∈ rs.entries ↔ x ∈ rs.redirectionsFor permission) ∧
    rs.entries.Pairwise Replacements.IsAhead ∧
    List.Forall₂ (fun e record => ∃ permission replacement,
      rs.IsLeast e.2.callee permission replacement ∧
        record = droppedRecord permission replacement e) (dropped rs) (merge rs).log ∧
    (merge rs).log = (rs.entries.foldl meet (∅, [])).2 :=
  ⟨fun _ _ => get?_merge_eq_some, size_merge rs, fun _ _ => Replacements.mem_entries,
    rs.pairwise_entries, forall₂_dropped_log rs, log_merge_eq_pass rs⟩

end RedirectionTable

end GatedCalls
