import GatedCalls.Proofs.Permission.Usage
import GatedCalls.Proofs.Resolution.Plain

/-!
# The resolution and the inventory agree

The inventory of a program counts its calls of every kind, the resolution changes the virtual ones
only, and a replacement can be gated itself. For each permission the two balance: what the calls
that have gone needed, less what the calls that have come need, is what the inventory has lost.

The balance holds for each entry of a body, and all its sides are sums over the entries.
-/

namespace GatedCalls

/-- The method to which the verdict sends the call. -/
def Verdict.replacement? : Verdict → Option MethodRef
  | redirected replacement => some replacement
  | removed | unresolved => none

/-- Calls are counted entry by entry. -/
theorem Program.callees_eq (p : Program) : p.callees = p.items.filterMap BodyItem.callee? := by
  simp only [callees, items, ClassDef.items, List.filterMap_flatMap]

namespace Resolver

variable (r : Resolver)

/-- The call sites of a program, in order, each with the verdict on it. -/
def sites (p : Program) : List CallSite :=
  p.items.filterMap r.site?

/-- The counters of a resolution are those of the verdicts on the call sites. -/
theorem tally_resolve_eq_foldl (p : Program) :
    (r.resolve p).value.tally =
      (r.sites p).foldl (fun t s => t.count s.verdict) Tally.zero := by
  -- The counters grow from entry to entry, so those to begin with are any.
  have hcount (items : List BodyItem) (t : Tally) :
      t + r.tallyOf items = (items.filterMap r.site?).foldl (fun t s => t.count s.verdict) t := by
    induction items generalizing t with
    | nil => rfl
    | cons item items ih =>
      rw [r.tallyOf_cons, ← Tally.add_assoc, List.filterMap_cons]
      cases hcallee : r.gatedCallee? item with
      | none =>
        rw [r.tallyOf_other hcallee, r.site?_eq_none hcallee]
        exact ih t
      | some callee =>
        obtain ⟨operands, permissions, -, -, hsite⟩ := r.exists_site hcallee
        rw [r.tallyOf_gated hcallee, hsite, ← Tally.count_eq_add]
        exact ih _
  rw [r.tally_resolve, ← Tally.zero_add (r.tallyOf p.items), hcount]
  rfl

/-! ### The balance -/

variable (needs : MethodRef → Bool)

/-- How many of the calls in a list of entries are of methods that are asked for. -/
def callsIn (items : List BodyItem) : Nat :=
  (items.filterMap BodyItem.callee?).countP needs

/-- How many call sites in a list of entries are of methods that are asked for and do not stay. -/
def leavingIn (items : List BodyItem) : Nat :=
  (items.filterMap r.site?).countP fun s => !s.verdict.keeps && needs s.call.callee

/-- How many call sites in a list of entries are sent to methods that are asked for. -/
def comingIn (items : List BodyItem) : Nat :=
  (items.filterMap r.site?).countP fun s => s.verdict.replacement?.any needs

/-- The balance of one entry. -/
theorem balance_item (item : BodyItem) :
    callsIn needs (r.rewritten item) + r.leavingIn needs [item] =
      callsIn needs [item] + r.comingIn needs [item] := by
  cases hcallee : r.gatedCallee? item with
  | none =>
    -- An entry that is no gated call stays as it is and is no call site.
    have hsite := r.site?_eq_none hcallee
    rw [r.rewritten_eq_self hcallee]
    simp [leavingIn, comingIn, hsite]
  | some callee =>
    obtain ⟨operands, permissions, rfl, hcontains, hsite⟩ := r.exists_site hcallee
    simp only [leavingIn, comingIn, List.filterMap_cons, hsite, List.filterMap_nil]
    -- The three verdicts.
    cases hget : r.redirections.get? callee with
    | some replacement =>
      simp [callsIn, rewritten, hcontains, verdict, hget, Verdict.keeps, Verdict.replacement?,
        BodyItem.callee?, BodyItem.instruction?, Instruction.callee?, Nat.add_comm]
    | none =>
      cases hvoid : r.removesVoid && callee.returnsVoid with
      | true =>
        simp [callsIn, rewritten, hcontains, verdict, hget, hvoid, Verdict.keeps,
          Verdict.replacement?, BodyItem.callee?, BodyItem.instruction?, Instruction.callee?]
      | false =>
        simp [callsIn, rewritten, hcontains, verdict, hget, hvoid, Verdict.keeps,
          Verdict.replacement?]

/-- The calls in two lists of entries, one after the other. -/
theorem callsIn_append (items items' : List BodyItem) :
    callsIn needs (items ++ items') = callsIn needs items + callsIn needs items' := by
  simp only [callsIn, List.filterMap_append, List.countP_append]

/-- The call sites in two lists of entries that do not stay. -/
theorem leavingIn_append (items items' : List BodyItem) :
    r.leavingIn needs (items ++ items') = r.leavingIn needs items + r.leavingIn needs items' := by
  simp only [leavingIn, List.filterMap_append, List.countP_append]

/-- The call sites in two lists of entries that are sent elsewhere. -/
theorem comingIn_append (items items' : List BodyItem) :
    r.comingIn needs (items ++ items') = r.comingIn needs items + r.comingIn needs items' := by
  simp only [comingIn, List.filterMap_append, List.countP_append]

/-- The balance of a list of entries. -/
theorem balance_items (items : List BodyItem) :
    callsIn needs (items.flatMap r.rewritten) + r.leavingIn needs items =
      callsIn needs items + r.comingIn needs items := by
  induction items with
  | nil => rfl
  | cons item items ih =>
    have hitem := r.balance_item needs item
    have hcalls : callsIn needs (item :: items) = _ := callsIn_append needs [item] items
    have hleaving : r.leavingIn needs (item :: items) = _ := r.leavingIn_append needs [item] items
    have hcoming : r.comingIn needs (item :: items) = _ := r.comingIn_append needs [item] items
    rw [List.flatMap_cons, callsIn_append, hcalls, hleaving, hcoming]
    omega

/-- The calls that need a permission balance. What the inventory of the resolved program has, and
the call sites that were redirected or removed and needed the permission, are as many as what the
inventory of the program had, and the call sites that were sent to a replacement that needs it. The
call sites are those that the resolution counts. -/
theorem callCount_balance (p : Program) (permission : String) :
    (PermissionUsage.scan (r.resolve p).value.program r.permissions).value.callCount permission +
        (r.sites p).countP (fun s =>
          !s.verdict.keeps && r.permissions.needs permission s.call.callee) =
      (PermissionUsage.scan p r.permissions).value.callCount permission +
        (r.sites p).countP (fun s => s.verdict.replacement?.any (r.permissions.needs permission)) ∧
    (r.resolve p).value.tally = (r.sites p).foldl (fun t s => t.count s.verdict) Tally.zero := by
  refine ⟨?_, r.tally_resolve_eq_foldl p⟩
  rw [PermissionUsage.callCount_scan, PermissionUsage.callCount_scan, Program.callees_eq,
    Program.callees_eq, r.program_resolve, r.items_resolvedPlainly]
  exact r.balance_items (r.permissions.needs permission) p.items

end Resolver

end GatedCalls
