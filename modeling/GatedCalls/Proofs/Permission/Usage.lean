import Mathlib.Algebra.GroupWithZero.Nat
import GatedCalls.Permission.Usage

/-!
# What an inventory counts

An inventory is filled one call after another, under each permission that the called method needs.
`callCount_scan` says what comes of it: the number of calls under a permission is the number of
calls in the program whose method needs it.
-/

namespace GatedCalls

/-- Whether a call of the method needs the permission. -/
def PermissionTable.needs (t : PermissionTable) (permission : String) (m : MethodRef) : Bool :=
  (t.get? m).any (·.contains permission)

namespace PermissionUsage

/-! ### Sums of counters -/

section Total

variable {α : Type} [Ord α] [Std.TransOrd α]

/-- The sum of the counters of a map. -/
def total (counters : Std.ExtTreeMap α Nat) : Nat :=
  counters.foldl (fun n _ k => n + k) 0

/-- A map without counters has the sum zero. -/
theorem total_empty : total (∅ : Std.ExtTreeMap α Nat) = 0 := by
  rw [total, Std.ExtTreeMap.foldl_eq_foldl_toList, Std.ExtTreeMap.toList_eq_nil_iff.mpr rfl]
  rfl

/-- The counters are added in the order of the map. -/
theorem total_eq_sum (counters : Std.ExtTreeMap α Nat) :
    total counters = (counters.toList.map (·.2)).sum := by
  rw [total, Std.ExtTreeMap.foldl_eq_foldl_toList, List.sum_eq_foldl, List.foldl_map]

/-- No entry of a map stands in its list twice. -/
theorem nodup_toList (counters : Std.ExtTreeMap α Nat) : counters.toList.Nodup :=
  Std.ExtTreeMap.distinct_keys_toList.imp fun hdistinct heq =>
    hdistinct (by rw [heq]; exact Std.ReflCmp.compare_self)

variable [Std.LawfulEqOrd α]

/-- The entries of a map are that of one key and the others. -/
theorem toList_perm_erase {counters : Std.ExtTreeMap α Nat} {key : α} {n : Nat}
    (h : counters[key]? = some n) :
    counters.toList.Perm ((key, n) :: (counters.erase key).toList) := by
  have hkey : (key, n) ∉ (counters.erase key).toList := by
    simp [Std.ExtTreeMap.mem_toList_iff_getElem?_eq_some]
  -- No entry stands in either list twice, so it is enough that they have the same ones.
  rw [List.perm_ext_iff_of_nodup (nodup_toList _) (List.nodup_cons.mpr ⟨hkey, nodup_toList _⟩)]
  rintro ⟨key', n'⟩
  simp only [List.mem_cons, Prod.mk.injEq, Std.ExtTreeMap.mem_toList_iff_getElem?_eq_some,
    Std.ExtTreeMap.getElem?_erase, Std.LawfulEqCmp.compare_eq_iff_eq]
  by_cases heq : key = key'
  · subst heq
    simp [h, eq_comm]
  · simp [heq, Ne.symm heq]

/-- The sum of the counters is that of one key and the sum of the others. -/
theorem total_eq_add_erase (counters : Std.ExtTreeMap α Nat) (key : α) :
    total counters = counters[key]?.getD 0 + total (counters.erase key) := by
  cases hget : counters[key]? with
  | some n =>
    rw [total_eq_sum, ((toList_perm_erase hget).map _).sum_nat, total_eq_sum]
    rfl
  | none =>
    have herase : counters.erase key = counters := by
      refine Std.ExtTreeMap.ext_getElem? fun key' => ?_
      rw [Std.ExtTreeMap.getElem?_erase]
      split
      · next heq => rw [← Std.LawfulEqCmp.eq_of_compare heq, hget]
      · rfl
    rw [herase]
    simp

/-- One more in one counter is one more in the sum. -/
theorem total_increment (counters : Std.ExtTreeMap α Nat) (key : α) :
    total (counters.alter key fun n => some (n.getD 0 + 1)) = total counters + 1 := by
  -- Without the counter that goes up, the two maps are the same.
  have herase : (counters.alter key fun n => some (n.getD 0 + 1)).erase key = counters.erase key := by
    refine Std.ExtTreeMap.ext_getElem? fun key' => ?_
    simp only [Std.ExtTreeMap.getElem?_erase, Std.ExtTreeMap.getElem?_alter]
    split <;> rfl
  rw [total_eq_add_erase _ key, herase, total_eq_add_erase counters key,
    Std.ExtTreeMap.getElem?_alter_self, Option.getD_some]
  omega

end Total

/-! ### Calls of a permission -/

/-- No calls are counted in the empty inventory. -/
theorem callCount_empty (permission : String) : empty.callCount permission = 0 := by
  simp [callCount, empty]

/-- One more call under a permission counts for this permission. -/
theorem callCount_add (u : PermissionUsage) (callee : MethodRef) (permission permission' : String) :
    (u.add callee permission).callCount permission' =
      u.callCount permission' + if permission = permission' then 1 else 0 := by
  have hcount (u : PermissionUsage) :
      u.callCount permission' = total (u.permissions.getD permission' ∅) := by
    rw [callCount, Std.ExtTreeMap.getD_eq_getD_getElem?]
    cases u.permissions[permission']? with
    | some callees => rfl
    | none => exact total_empty.symm
  rw [hcount, hcount, add, Std.ExtTreeMap.getD_alter]
  by_cases heq : permission = permission'
  · subst heq
    simp only [Std.ReflCmp.compare_self, if_true, Option.getD_some, total_increment,
      Std.ExtTreeMap.getD_eq_getD_getElem?]
  · simp [heq, Std.LawfulEqCmp.compare_eq_iff_eq]

/-- A set has each permission once. -/
theorem nodup_permissions (ps : PermissionSet) : ps.toList.Nodup :=
  Std.ExtTreeSet.distinct_toList.imp fun hdistinct heq =>
    hdistinct (by rw [heq]; exact Std.ReflCmp.compare_self)

/-- One more call counts for each permission that it needs. -/
theorem callCount_addCall (u : PermissionUsage) (callee : MethodRef) (ps : PermissionSet)
    (permission : String) :
    (u.addCall callee ps).callCount permission =
      u.callCount permission + if ps.contains permission then 1 else 0 := by
  -- No permission is there twice, so a call is counted once under it.
  have hfold (names : List String) (hnodup : names.Nodup) (u : PermissionUsage) :
      (names.foldl (fun u p => u.add callee p) u).callCount permission =
        u.callCount permission + if permission ∈ names then 1 else 0 := by
    induction names generalizing u with
    | nil => rfl
    | cons p names ih =>
      obtain ⟨hp, hnodup⟩ := List.nodup_cons.mp hnodup
      rw [List.foldl_cons, ih hnodup, callCount_add]
      by_cases heq : p = permission
      · subst heq
        simp [hp]
      · simp [heq, Ne.symm heq]
  rw [addCall, hfold _ (nodup_permissions ps)]
  simp

/-- The number of calls under a permission is the number of calls of methods that need it. -/
theorem callCount_ofCallees (table : PermissionTable) (callees : List MethodRef)
    (permission : String) :
    (ofCallees table callees).callCount permission =
      callees.countP (table.needs permission) := by
  rw [← Nat.zero_add (callees.countP _), ← callCount_empty permission, ofCallees]
  -- The inventory grows from call to call, so the one to begin with is any.
  generalize empty = u
  induction callees generalizing u with
  | nil => rfl
  | cons callee callees ih =>
    rw [List.foldl_cons, ih, List.countP_cons]
    cases hget : table.get? callee with
    | none => simp [PermissionTable.needs, hget]
    | some ps =>
      simp only [callCount_addCall, PermissionTable.needs, hget, Option.any_some]
      omega

/-- The inventory of a program has for a permission as many calls as the program has of methods that
need it. -/
theorem callCount_scan (p : Program) (table : PermissionTable) (permission : String) :
    (scan p table).value.callCount permission = p.callees.countP (table.needs permission) :=
  callCount_ofCallees table p.callees permission

end PermissionUsage

end GatedCalls
