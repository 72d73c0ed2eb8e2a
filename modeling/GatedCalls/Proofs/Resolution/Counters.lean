import GatedCalls.Proofs.Resolution.Pairing

/-!
# How the counters move

The counters of a resolution divide the gated virtual calls of a program among them: each is counted
once, under one of three verdicts, and which calls these are is a matter of the permission table
alone (`sum_tallyOf`). The other tables only move calls between the counters. A table that redirects
more takes calls from the other two counters (`tallyOf_of_covers`), and where no calls may be
removed, those that would be are left (`tallyOf_of_not_removesVoid`).
-/

namespace GatedCalls

/-- Whether an entry is a virtual call, of either form, of a method in the table. -/
def PermissionTable.gates (t : PermissionTable) : BodyItem → Bool
  | .instruction (.call ⟨.virtual, _, callee⟩) => t.contains callee
  | _ => false

/-- Whether a table redirects all methods that another one redirects. -/
def RedirectionTable.Covers (table' table : RedirectionTable) : Prop :=
  ∀ callee, (table.get? callee).isSome = true → (table'.get? callee).isSome = true

/-- With a further redirection a table covers what it was before. -/
theorem RedirectionTable.covers_insert (table : RedirectionTable) (callee replacement : MethodRef) :
    (table.insert callee replacement).Covers table := by
  intro other hother
  rw [table.get?_insert]
  split
  · rfl
  · exact hother

namespace Resolver

/-! ### One resolution -/

/-- The entries that a table gates are the gated virtual calls of any resolution that goes by it. -/
theorem gates_eq_isSome (r : Resolver) (item : BodyItem) :
    r.permissions.gates item = (r.gatedCallee? item).isSome := by
  match item with
  | .label _ | .line _ | .directive _ | .instruction (.other _) => rfl
  | .instruction (.call ⟨dispatch, operands, callee⟩) =>
    cases dispatch with
    | virtual =>
      cases h : r.permissions.contains callee <;> simp [PermissionTable.gates, gatedCallee?, h]
    | super | direct | static | interface => rfl

/-- A gated virtual call is counted once, and no other entry is counted. -/
theorem sum_tallyOf_singleton (r : Resolver) (item : BodyItem) :
    (r.tallyOf [item]).redirected + (r.tallyOf [item]).removed + (r.tallyOf [item]).unresolved =
      [item].countP r.permissions.gates := by
  rw [List.countP_singleton, r.gates_eq_isSome]
  cases hcallee : r.gatedCallee? item with
  | none =>
    rw [r.tallyOf_other hcallee]
    rfl
  | some callee =>
    rw [r.tallyOf_gated hcallee]
    cases r.verdict callee <;> rfl

/-- The counters divide the gated virtual calls among them. -/
theorem sum_tallyOf (r : Resolver) (items : List BodyItem) :
    (r.tallyOf items).redirected + (r.tallyOf items).removed + (r.tallyOf items).unresolved =
      items.countP r.permissions.gates := by
  induction items with
  | nil => rfl
  | cons item items ih =>
    have hitem := r.sum_tallyOf_singleton item
    rw [r.tallyOf_cons, List.countP_cons, ← List.countP_singleton]
    simp only [Tally.add_def]
    omega

/-! ### Two resolutions -/

variable (permissions : PermissionTable) {table table' : RedirectionTable}

/-- Of the gated virtual calls, those of methods with a weaker property are at least as many. -/
theorem countP_gated_mono (r : Resolver) {has has' : MethodRef → Bool}
    (h : ∀ callee, has callee = true → has' callee = true) (items : List BodyItem) :
    (items.countP fun item => (r.gatedCallee? item).any has) ≤
      items.countP fun item => (r.gatedCallee? item).any has' := by
  refine List.countP_mono_left fun item _ hitem => ?_
  cases hcallee : r.gatedCallee? item with
  | none => simp [hcallee] at hitem
  | some callee =>
    rw [hcallee, Option.any_some] at hitem
    exact h callee hitem

/-- A method that a table does not redirect is not redirected by one that it covers. -/
theorem get?_isNone_of_covers (h : table'.Covers table) {callee : MethodRef}
    (hcallee : (table'.get? callee).isNone = true) : (table.get? callee).isNone = true := by
  cases hget : table.get? callee with
  | none => rfl
  | some replacement =>
    have hsome := h callee (by rw [hget]; rfl)
    rw [Option.isNone_iff_eq_none.mp hcallee] at hsome
    cases hsome

/-- By a table that covers another one at least as many calls are redirected, and at most as many
are removed and left. -/
theorem tallyOf_of_covers (h : table'.Covers table) (removesVoid : Bool) (items : List BodyItem) :
    (tallyOf ⟨permissions, table, removesVoid⟩ items).redirected ≤
        (tallyOf ⟨permissions, table', removesVoid⟩ items).redirected ∧
      (tallyOf ⟨permissions, table', removesVoid⟩ items).removed ≤
        (tallyOf ⟨permissions, table, removesVoid⟩ items).removed ∧
      (tallyOf ⟨permissions, table', removesVoid⟩ items).unresolved ≤
        (tallyOf ⟨permissions, table, removesVoid⟩ items).unresolved := by
  -- Which calls are gated does not depend on the table of redirections.
  refine ⟨countP_gated_mono _ h items, countP_gated_mono _ (fun callee hcallee => ?_) items,
    countP_gated_mono _ (fun callee hcallee => ?_) items⟩
  · rw [Bool.and_eq_true] at hcallee ⊢
    exact ⟨get?_isNone_of_covers h hcallee.1, hcallee.2⟩
  · rw [Bool.and_eq_true] at hcallee ⊢
    exact ⟨get?_isNone_of_covers h hcallee.1, hcallee.2⟩

/-- Where no calls may be removed, an entry that would be is left. -/
theorem tallyOf_singleton_of_not_removesVoid (table : RedirectionTable) (item : BodyItem) :
    tallyOf ⟨permissions, table, false⟩ [item] =
      ⟨(tallyOf ⟨permissions, table, true⟩ [item]).redirected, 0,
        (tallyOf ⟨permissions, table, true⟩ [item]).unresolved +
          (tallyOf ⟨permissions, table, true⟩ [item]).removed⟩ := by
  cases hcallee : gatedCallee? ⟨permissions, table, true⟩ item with
  | none => rw [tallyOf_other _ hcallee, tallyOf_other ⟨permissions, table, false⟩ hcallee]; rfl
  | some callee =>
    rw [tallyOf_gated _ hcallee, tallyOf_gated ⟨permissions, table, false⟩ hcallee]
    unfold verdict
    -- A replacement decides the verdict; without one it is decided by whether the method returns.
    cases table.get? callee with
    | some replacement => rfl
    | none => cases callee.returnsVoid <;> rfl

/-- Where no calls may be removed, those that would be are left, and as many are redirected. -/
theorem tallyOf_of_not_removesVoid (table : RedirectionTable) (items : List BodyItem) :
    tallyOf ⟨permissions, table, false⟩ items =
      ⟨(tallyOf ⟨permissions, table, true⟩ items).redirected, 0,
        (tallyOf ⟨permissions, table, true⟩ items).unresolved +
          (tallyOf ⟨permissions, table, true⟩ items).removed⟩ := by
  induction items with
  | nil => rfl
  | cons item items ih =>
    rw [tallyOf_cons, tallyOf_cons ⟨permissions, table, true⟩,
      tallyOf_singleton_of_not_removesVoid, ih]
    simp only [Tally.add_def, Tally.mk.injEq, true_and]
    omega

/-! ### Programs -/

/-- The counters of the resolution of a program by the given tables. -/
def tallyBy (p : Program) (table : RedirectionTable) (removesVoid : Bool) : Tally :=
  (resolve ⟨permissions, table, removesVoid⟩ p).value.tally

/-- The counters divide the gated calls, and move with the tables. For a program and a permission
table, their sum is the number of virtual calls of methods in the table, whatever is redirected and
whether or not calls are removed. Where more methods are redirected, at least as many calls are
redirected, and at most as many are removed and left. Where no calls may be removed, as many are
redirected as where they may, none is removed, and those that were removed are left besides those
that were left before. -/
theorem tallyBy_moves (p : Program) :
    (∀ table removesVoid,
      (tallyBy permissions p table removesVoid).redirected +
          (tallyBy permissions p table removesVoid).removed +
          (tallyBy permissions p table removesVoid).unresolved =
        p.items.countP permissions.gates) ∧
    (∀ table table' removesVoid, table'.Covers table →
      (tallyBy permissions p table removesVoid).redirected ≤
          (tallyBy permissions p table' removesVoid).redirected ∧
        (tallyBy permissions p table' removesVoid).removed ≤
          (tallyBy permissions p table removesVoid).removed ∧
        (tallyBy permissions p table' removesVoid).unresolved ≤
          (tallyBy permissions p table removesVoid).unresolved) ∧
    ∀ table, tallyBy permissions p table false =
      ⟨(tallyBy permissions p table true).redirected, 0,
        (tallyBy permissions p table true).unresolved +
          (tallyBy permissions p table true).removed⟩ := by
  simp only [tallyBy, tally_resolve]
  exact ⟨fun table removesVoid => sum_tallyOf ⟨permissions, table, removesVoid⟩ p.items,
    fun table table' removesVoid h => tallyOf_of_covers permissions h removesVoid p.items,
    fun table => tallyOf_of_not_removesVoid permissions table p.items⟩

/-- The table of the sample, and a replacement for the other one of the two gated methods besides. -/
def fullTable : RedirectionTable :=
  PairingSample.resolver.redirections.insert PairingSample.gated.2
    ⟨"LStub;", "start", ⟨[.object ⟨"Sensor"⟩], .void⟩⟩

open PairingSample in
/-- With a replacement for the first of the two gated methods of the sample alone, its call is redirected
and the other one is removed. With replacements for both, at least as many calls are redirected, and at
most as many are removed and left: both are redirected. -/
theorem tallyBy_moves_sample :
    tallyBy resolver.permissions app resolver.redirections true = ⟨1, 1, 0⟩ ∧
      tallyBy resolver.permissions app fullTable true = ⟨2, 0, 0⟩ ∧
      fullTable.Covers resolver.redirections ∧
      (tallyBy resolver.permissions app resolver.redirections true).redirected ≤
        (tallyBy resolver.permissions app fullTable true).redirected ∧
      (tallyBy resolver.permissions app fullTable true).removed ≤
        (tallyBy resolver.permissions app resolver.redirections true).removed ∧
      (tallyBy resolver.permissions app fullTable true).unresolved ≤
        (tallyBy resolver.permissions app resolver.redirections true).unresolved := by
  have hcovers : fullTable.Covers resolver.redirections := resolver.redirections.covers_insert _ _
  refine ⟨rfl, rfl, hcovers, ?_⟩
  exact (tallyBy_moves resolver.permissions app).2.1 _ _ true hcovers

end Resolver

end GatedCalls
