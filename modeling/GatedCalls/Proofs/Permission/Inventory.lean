import Mathlib.Data.List.Forall2
import Mathlib.Data.List.Induction
import GatedCalls.Proofs.Resolution.Balance

/-!
# The inventory is exact

The inventory of a program is filled in one pass, where one call may count under several permissions
and many calls count in one place. What comes of it can be said without the pass: under a permission
stands each method that needs it and is called, with the number of its calls, and nothing else.

Two inventories in which no permission stands without a method are equal if they have the same
counters. So the order of the calls does not matter, and programs put together have the sum of their
inventories.
-/

namespace GatedCalls

/-! ### Calls of a program -/

namespace BodyItem

/-- Whether an entry of a body is a call of the method: with any dispatch, and with a list or a
range of registers. -/
def Calls (item : BodyItem) (m : MethodRef) : Prop :=
  ∃ dispatch operands, item = .instruction (.call ⟨dispatch, operands, m⟩)

/-- An entry is a call of the method that is read off it. -/
theorem calls_iff {item : BodyItem} {m : MethodRef} : item.Calls m ↔ item.callee? = some m := by
  constructor
  · rintro ⟨dispatch, operands, rfl⟩
    rfl
  · intro h
    match item, h with
    | .instruction (.call ⟨dispatch, operands, _⟩), rfl => exact ⟨dispatch, operands, rfl⟩

/-- Whether an entry is a call of a method that is asked for. -/
def CallsSome (item : BodyItem) (asked : MethodRef → Bool) : Prop :=
  ∃ m, item.Calls m ∧ asked m

/-- An entry calls a method that is asked for if the one that is read off it is. -/
theorem callsSome_iff {item : BodyItem} {asked : MethodRef → Bool} :
    item.CallsSome asked ↔ item.callee?.any asked := by
  simp only [CallsSome, calls_iff, Option.any_eq_true]

instance (item : BodyItem) (asked : MethodRef → Bool) : Decidable (item.CallsSome asked) :=
  decidable_of_iff _ callsSome_iff.symm

end BodyItem

namespace Program

/-- How many entries of the bodies of a program call a method that is asked for. -/
def callsOf (p : Program) (asked : MethodRef → Bool) : Nat :=
  (p.classes.map fun c =>
    (c.methods.map fun m => m.body.countP fun item => item.CallsSome asked).sum).sum

/-- Counting body by body is counting among all callees. -/
theorem callsOf_eq (p : Program) (asked : MethodRef → Bool) :
    p.callsOf asked = p.callees.countP asked := by
  have hbody (body : List BodyItem) :
      (body.countP fun item => item.CallsSome asked) =
        (body.filterMap BodyItem.callee?).countP asked := by
    rw [List.countP_filterMap]
    refine List.countP_congr fun item _ => ?_
    simp only [BodyItem.callsSome_iff, decide_eq_true_eq]
    cases item.callee? <;> simp
  simp only [callsOf, hbody, callees, List.countP_flatMap, Function.comp_def]

/-- The callees are the methods that some entry of some body calls. -/
theorem mem_callees {p : Program} {m : MethodRef} :
    m ∈ p.callees ↔
      ∃ c ∈ p.classes, ∃ method ∈ c.methods, ∃ item ∈ method.body, item.Calls m := by
  simp only [callees, List.mem_flatMap, List.mem_filterMap, BodyItem.calls_iff]

end Program

/-! ### Entries -/

namespace PermissionUsage

/-- The number that is entered for a method under a permission, if it is there. -/
def calls? (u : PermissionUsage) (permission : String) (m : MethodRef) : Option Nat :=
  u.permissions[permission]?.bind fun callees => callees[m]?

/-- An inventory in which no permission stands without a method. -/
def IsFilled (u : PermissionUsage) : Prop :=
  ∀ (permission : String) (callees : Std.ExtTreeMap MethodRef Nat),
    u.permissions[permission]? = some callees → callees ≠ ∅

/-- Inventories are equal if they have the same entries and no permission stands without one. -/
theorem ext_calls? {u v : PermissionUsage} (hu : u.IsFilled) (hv : v.IsFilled)
    (h : ∀ permission m, u.calls? permission m = v.calls? permission m) : u = v := by
  -- A permission without a method has no entry, so only the filled ones tell where it stands.
  have hnone {u v : PermissionUsage} (hv : v.IsFilled)
      (h : ∀ permission m, u.calls? permission m = v.calls? permission m) {permission : String}
      (hget : u.permissions[permission]? = none) : v.permissions[permission]? = none := by
    cases hget' : v.permissions[permission]? with
    | none => rfl
    | some callees =>
      refine absurd (Std.ExtTreeMap.ext_getElem? fun m => ?_) (hv permission callees hget')
      have hm := h permission m
      rw [calls?, calls?, hget, hget'] at hm
      simpa using hm.symm
  obtain ⟨us⟩ := u
  obtain ⟨vs⟩ := v
  congr 1
  refine Std.ExtTreeMap.ext_getElem? fun permission => ?_
  cases hget : us[permission]? with
  | none => exact (hnone hv h hget).symm
  | some callees =>
    cases hget' : vs[permission]? with
    | none =>
      have hsymm (permission : String) (m : MethodRef) :=
        (h permission m).symm
      exact absurd (hget.symm.trans (hnone hu hsymm hget')) (Option.some_ne_none _)
    | some callees' =>
      refine congrArg some (Std.ExtTreeMap.ext_getElem? fun m => ?_)
      simpa [calls?, hget, hget'] using h permission m

/-- What is entered for a number of calls: nothing if there are none. -/
def positive? (n : Nat) : Option Nat :=
  if n = 0 then none else some n

/-- There is an entry if there are calls. -/
theorem isSome_positive? {n : Nat} : (positive? n).isSome ↔ 0 < n := by
  cases n <;> simp [positive?]

/-- An entry is the number of the calls. -/
theorem mem_positive? {m n : Nat} : m ∈ positive? n ↔ m = n ∧ 0 < n := by
  cases n <;> simp [positive?, eq_comm]

/-- What two entries for the same method come to. -/
def sum? : Option Nat → Option Nat → Option Nat :=
  Option.merge (· + ·)

/-- Adding no entry. -/
theorem sum?_none (a : Option Nat) : sum? a none = a := by
  cases a <;> rfl

/-- Entries are added in any grouping. -/
theorem sum?_assoc (a b c : Option Nat) : sum? (sum? a b) c = sum? a (sum? b c) := by
  cases a <;> cases b <;> cases c <;> simp [sum?, Nat.add_assoc]

/-- The entry for two groups of calls comes to the entries of both. -/
theorem positive?_add (m n : Nat) : positive? (m + n) = sum? (positive? m) (positive? n) := by
  cases m <;> cases n <;> simp [positive?, sum?]

/-- Nothing is entered in the empty inventory. -/
theorem calls?_empty (permission : String) (m : MethodRef) : empty.calls? permission m = none := by
  simp [calls?, empty]

/-- One more call under a permission goes into the entry of the called method there, and into no
other. -/
theorem calls?_add (u : PermissionUsage) (callee : MethodRef) (permission permission' : String)
    (m : MethodRef) :
    (u.add callee permission).calls? permission' m =
      sum? (u.calls? permission' m)
        (positive? (if permission = permission' ∧ callee = m then 1 else 0)) := by
  rw [calls?, calls?, add, Std.ExtTreeMap.getElem?_alter]
  by_cases hpermission : permission = permission'
  · subst hpermission
    -- A permission that was not there begins with no methods.
    cases hget : u.permissions[permission]? with
    | none =>
      by_cases hcallee : callee = m <;>
        simp [Std.ExtTreeMap.getElem?_alter, Std.LawfulEqCmp.compare_eq_iff_eq, hcallee, positive?,
          sum?]
    | some callees =>
      by_cases hcallee : callee = m
      · subst hcallee
        cases hm : callees[callee]? <;> simp [hm, positive?, sum?]
      · simp [Std.ExtTreeMap.getElem?_alter, Std.LawfulEqCmp.compare_eq_iff_eq, hcallee, positive?,
          sum?_none]
  · simp [Std.LawfulEqCmp.compare_eq_iff_eq, hpermission, positive?, sum?_none]

/-- One more call fills a permission. -/
theorem isFilled_add {u : PermissionUsage} (h : u.IsFilled) (callee : MethodRef)
    (permission : String) : (u.add callee permission).IsFilled := by
  intro permission' callees hget
  rw [add, Std.ExtTreeMap.getElem?_alter] at hget
  split at hget
  case isTrue =>
    obtain rfl := Option.some.inj hget
    intro hempty
    have hcallee := congrArg (·[callee]?) hempty
    simp at hcallee
  case isFalse => exact h permission' callees hget

/-- One more call of a method goes into its entries under the permissions that it needs. -/
theorem calls?_addCall (u : PermissionUsage) (callee : MethodRef) (ps : PermissionSet)
    (permission : String) (m : MethodRef) :
    (u.addCall callee ps).calls? permission m =
      sum? (u.calls? permission m)
        (positive? (if ps.contains permission ∧ callee = m then 1 else 0)) := by
  -- No permission is there twice, so a call goes into an entry once.
  have hfold (names : List String) (hnodup : names.Nodup) (u : PermissionUsage) :
      (names.foldl (fun u p => u.add callee p) u).calls? permission m =
        sum? (u.calls? permission m)
          (positive? (if permission ∈ names ∧ callee = m then 1 else 0)) := by
    induction names generalizing u with
    | nil => simp [positive?, sum?_none]
    | cons p names ih =>
      obtain ⟨hp, hnodup⟩ := List.nodup_cons.mp hnodup
      rw [List.foldl_cons, ih hnodup, calls?_add, sum?_assoc, ← positive?_add]
      by_cases heq : p = permission
      · subst heq
        simp [hp]
      · simp [heq, Ne.symm heq]
  rw [addCall, hfold _ (nodup_permissions ps)]
  simp

/-- One more call fills the permissions that it needs. -/
theorem isFilled_addCall {u : PermissionUsage} (h : u.IsFilled) (callee : MethodRef)
    (ps : PermissionSet) : (u.addCall callee ps).IsFilled := by
  rw [addCall]
  generalize ps.toList = names
  induction names generalizing u with
  | nil => exact h
  | cons p names ih => exact ih (isFilled_add h callee p)

/-! ### Inventories -/

/-- One more call, behind others, is counted if its method is gated. -/
theorem ofCallees_concat (table : PermissionTable) (callees : List MethodRef) (callee : MethodRef) :
    ofCallees table (callees ++ [callee]) =
      match table.get? callee with
      | some ps => (ofCallees table callees).addCall callee ps
      | none => ofCallees table callees := by
  rw [ofCallees, List.foldl_append]
  rfl

/-- Under a permission stand the methods that need it and are among the callees, each with the
number of times that it is there. -/
theorem calls?_ofCallees (table : PermissionTable) (callees : List MethodRef) (permission : String)
    (m : MethodRef) :
    (ofCallees table callees).calls? permission m =
      positive? (if table.needs permission m then callees.count m else 0) := by
  induction callees using List.reverseRecOn with
  | nil => simp [ofCallees, calls?_empty, positive?]
  | append_singleton callees callee ih =>
    rw [ofCallees_concat, List.count_append, List.count_singleton]
    by_cases hcallee : callee = m
    · subst hcallee
      cases hget : table.get? callee with
      | none => simp [ih, PermissionTable.needs, hget]
      | some ps =>
        simp only [calls?_addCall, ih, ← positive?_add, PermissionTable.needs, hget, Option.any_some]
        cases ps.contains permission <;> simp
    · cases table.get? callee with
      | none => simp [ih, hcallee]
      | some ps => simp [calls?_addCall, ih, hcallee, ← positive?_add]

/-- The inventory of calls has no permission without a method. -/
theorem isFilled_ofCallees (table : PermissionTable) (callees : List MethodRef) :
    (ofCallees table callees).IsFilled := by
  induction callees using List.reverseRecOn with
  | nil =>
    intro permission callees hget
    simp [ofCallees, empty] at hget
  | append_singleton callees callee ih =>
    rw [ofCallees_concat]
    cases table.get? callee with
    | none => exact ih
    | some ps => exact isFilled_addCall ih callee ps

/-- The order of the calls does not matter. -/
theorem ofCallees_perm (table : PermissionTable) {callees callees' : List MethodRef}
    (h : callees.Perm callees') : ofCallees table callees = ofCallees table callees' := by
  refine ext_calls? (isFilled_ofCallees _ _) (isFilled_ofCallees _ _) fun permission m => ?_
  rw [calls?_ofCallees, calls?_ofCallees, h.count_eq]

/-- Lists of calls, one after the other, have the sum of their inventories. -/
theorem calls?_ofCallees_flatten (table : PermissionTable) (lists : List (List MethodRef))
    (permission : String) (m : MethodRef) :
    (ofCallees table lists.flatten).calls? permission m =
      (lists.map fun callees => (ofCallees table callees).calls? permission m).foldr sum? none := by
  induction lists with
  | nil => simp [ofCallees, calls?_empty]
  | cons callees lists ih =>
    rw [List.map_cons, List.foldr_cons, ← ih, List.flatten_cons]
    simp only [calls?_ofCallees, ← positive?_add, List.count_append]
    split <;> rfl

end PermissionUsage

/-! ### Programs -/

/-- Whether the one list is the other in another order, with each element replaced as the relation
allows. -/
def Rearranges {α : Type} (replaces : α → α → Prop) (xs ys : List α) : Prop :=
  ∃ zs, xs.Perm zs ∧ List.Forall₂ replaces zs ys

/-- Whether the one program has the bodies of the other with their entries in another order, in
methods that stand in another order in classes that do. -/
def Program.Rearranges (p q : Program) : Prop :=
  GatedCalls.Rearranges
    (fun c d => GatedCalls.Rearranges (fun m n => m.body.Perm n.body) c.methods d.methods)
    p.classes q.classes

/-- What the elements of a list bring is in another order where they are. -/
theorem Rearranges.perm_flatMap {α β : Type} {replaces : α → α → Prop} {f : α → List β}
    {xs ys : List α} (h : Rearranges replaces xs ys)
    (hf : ∀ x y, replaces x y → (f x).Perm (f y)) : (xs.flatMap f).Perm (ys.flatMap f) := by
  obtain ⟨zs, hperm, hall⟩ := h
  refine (hperm.flatMap_right f).trans ?_
  clear hperm
  induction hall with
  | nil => exact .nil
  | cons hreplaces _ ih =>
    rw [List.flatMap_cons, List.flatMap_cons]
    exact (hf _ _ hreplaces).append ih

/-- The callees of a program are in another order where its bodies are. -/
theorem Program.Rearranges.perm_callees {p q : Program} (h : p.Rearranges q) :
    p.callees.Perm q.callees :=
  h.perm_flatMap fun _ _ hclass =>
    hclass.perm_flatMap fun _ _ hbody => hbody.filterMap BodyItem.callee?

namespace PermissionUsage

/-- The inventory of a program is exact. A method stands under a permission exactly if it needs it
and some entry of some body calls it, and the number there is that of the entries that do. No
permission stands without a method, and the calls counted under a permission are those of methods
that need it; if it does not stand in the inventory, there are none. Programs put together have,
entry for entry, the sum of their inventories, and what is found and reported does not depend on the
order of classes, methods and entries. -/
theorem scan_exact (p : Program) (table : PermissionTable) :
    (∀ permission m,
      (((scan p table).value.calls? permission m).isSome ↔
        table.needs permission m ∧
          ∃ c ∈ p.classes, ∃ method ∈ c.methods, ∃ item ∈ method.body, item.Calls m) ∧
      ∀ n ∈ (scan p table).value.calls? permission m, n = p.callsOf (· == m)) ∧
    (scan p table).value.IsFilled ∧
    (∀ permission,
      (scan p table).value.callCount permission = p.callsOf (table.needs permission) ∧
      ((scan p table).value.permissions[permission]? = none →
        (scan p table).value.callCount permission = 0)) ∧
    (∀ (ps : List Program) (apiLevel : UInt32) (permission : String) (m : MethodRef),
      (scan ⟨ps.flatMap (·.classes), apiLevel⟩ table).value.calls? permission m =
        (ps.map fun p => (scan p table).value.calls? permission m).foldr sum? none) ∧
    ∀ q, p.Rearranges q → scan q table = scan p table := by
  have hcalls (permission : String) (m : MethodRef) :
      (scan p table).value.calls? permission m =
        positive? (if table.needs permission m then p.callees.count m else 0) :=
    calls?_ofCallees table p.callees permission m
  refine ⟨fun permission m => ⟨?_, fun n hn => ?_⟩, isFilled_ofCallees table p.callees,
    fun permission => ⟨?_, fun hnone => ?_⟩, fun ps apiLevel permission m => ?_, fun q hq => ?_⟩
  · rw [hcalls, isSome_positive?, ← Program.mem_callees, ← List.count_pos_iff]
    split
    case isTrue hneeds => simp [hneeds]
    case isFalse hneeds => simp [hneeds]
  · rw [hcalls, mem_positive?] at hn
    rw [Program.callsOf_eq]
    split at hn
    case isTrue => exact hn.1
    case isFalse => omega
  · rw [callCount_scan, Program.callsOf_eq]
  · simp only [callCount, hnone]
  · have hcallees : Program.callees ⟨ps.flatMap (·.classes), apiLevel⟩ = ps.flatMap (·.callees) :=
      List.flatMap_assoc
    rw [scan, hcallees, List.flatMap_def, calls?_ofCallees_flatten, List.map_map]
    rfl
  · have hperm := hq.perm_callees
    rw [scan, scan, ofCallees_perm table hperm, hperm.countP_eq]

end PermissionUsage

end GatedCalls
