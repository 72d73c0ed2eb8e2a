import GatedCalls.Proofs.Resolution.Plain

/-!
# Resolving again changes nothing

An entry is settled if it is no gated virtual call, or one that stays. What a resolution puts in is
a static call, whatever its method is, so all entries of a resolved program are settled
(`settled_of_mem_rewritten`); and a program of settled entries is kept class by class, with counters
that show only the calls that stay (`resolve_of_settled`). So from the second resolution on nothing
changes any more, and the calls that were left in place are the gated virtual calls that are there.
-/

namespace GatedCalls

/-- The entries of a program are those of the bodies of its methods. -/
theorem Program.mem_items {p : Program} {item : BodyItem} :
    item ∈ p.items ↔ ∃ c ∈ p.classes, ∃ m ∈ c.methods, item ∈ m.body := by
  simp only [items, ClassDef.items, List.mem_flatMap]

namespace Resolver

variable (r : Resolver)

/-! ### Settled entries -/

/-- Whether a resolution does nothing to an entry but count it: it is neither redirected nor
removed. -/
def Settled (item : BodyItem) : Prop :=
  r.redirects item = false ∧ r.removes item = false

/-- An entry that is no gated virtual call is settled. -/
theorem settled_of_not_gated {item : BodyItem} (h : r.gatedCallee? item = none) :
    r.Settled item := by
  simp [Settled, redirects, removes, h]

/-- A gated virtual call is settled exactly if it stays. -/
theorem settled_iff_leaves {item : BodyItem} {callee : MethodRef}
    (h : r.gatedCallee? item = some callee) : r.Settled item ↔ r.leaves item = true := by
  simp only [Settled, redirects, removes, leaves, h, Option.any_some]
  cases r.redirections.get? callee with
  | some replacement => simp
  | none => cases r.removesVoid && callee.returnsVoid <;> simp

/-- A settled entry does not give way. -/
theorem instead?_of_settled {item : BodyItem} (h : r.Settled item) : r.instead? item = none := by
  cases hcallee : r.gatedCallee? item with
  | none => rw [instead?, r.site?_eq_none hcallee]
  | some callee =>
    obtain ⟨operands, permissions, -, -, hsite⟩ := r.exists_site hcallee
    have hleaves := (r.settled_iff_leaves hcallee).mp h
    have hverdict : r.verdict callee = .unresolved := by
      simp only [leaves, hcallee, Option.any_some, Bool.and_eq_true, Bool.not_eq_true',
        Option.isNone_iff_eq_none] at hleaves
      simp [verdict, hleaves.1, hleaves.2]
    simp [instead?, hsite, hverdict, Verdict.keeps]

/-- What stands in the place of an entry after a resolution is settled. -/
theorem settled_of_mem_rewritten {item new : BodyItem} (h : new ∈ r.rewritten item) :
    r.Settled new := by
  cases hcallee : r.gatedCallee? item with
  | none =>
    rw [r.rewritten_eq_self hcallee] at h
    exact List.mem_singleton.mp h ▸ r.settled_of_not_gated hcallee
  | some callee =>
    obtain ⟨operands, -, rfl, hcontains, -⟩ := r.exists_site hcallee
    -- The three verdicts.
    cases hget : r.redirections.get? callee with
    | some replacement =>
      -- A static call is settled, whether or not its method is gated or redirected itself.
      have hnew : new = .instruction (.call ⟨.static, operands, replacement⟩) := by
        simpa [rewritten, hcontains, hget] using h
      exact hnew ▸ r.settled_of_not_gated rfl
    | none =>
      cases hvoid : r.removesVoid && callee.returnsVoid with
      | true => simp [rewritten, hcontains, hget, hvoid] at h
      | false =>
        have hnew : new = .instruction (.call ⟨.virtual, operands, callee⟩) := by
          simpa [rewritten, hcontains, hget, hvoid] using h
        subst hnew
        rw [r.settled_iff_leaves hcallee, leaves, hcallee, Option.any_some, hget, hvoid]
        rfl

/-- A resolution keeps the number of the calls that it leaves. -/
theorem countP_leaves_rewritten (item : BodyItem) :
    (r.rewritten item).countP r.leaves = [item].countP r.leaves := by
  cases hcallee : r.gatedCallee? item with
  | none => rw [r.rewritten_eq_self hcallee]
  | some callee =>
    obtain ⟨operands, -, rfl, hcontains, -⟩ := r.exists_site hcallee
    cases hget : r.redirections.get? callee with
    | some replacement => simp [rewritten, hcontains, leaves, gatedCallee?, hget]
    | none =>
      cases hvoid : r.removesVoid && callee.returnsVoid with
      | true =>
        have hnone : r.rewritten (.instruction (.call ⟨.virtual, operands, callee⟩)) = [] := by
          simp only [rewritten, hcontains, hget, hvoid, if_true]
        rw [hnone, List.countP_singleton, leaves, hcallee, Option.any_some, hget, hvoid]
        rfl
      | false => simp [rewritten, hcontains, hget, hvoid]

/-- A resolution keeps the number of the calls that it leaves, in a list of entries. -/
theorem countP_leaves_flatMap_rewritten (items : List BodyItem) :
    (items.flatMap r.rewritten).countP r.leaves = items.countP r.leaves := by
  induction items with
  | nil => rfl
  | cons item items ih =>
    have hitem := r.countP_leaves_rewritten item
    rw [List.flatMap_cons, List.countP_append, ih, hitem, ← List.countP_append,
      List.singleton_append]

/-! ### Settled programs -/

/-- A class whose entries are settled is kept. -/
theorem newClass?_of_settled {c : ClassDef} (h : ∀ item ∈ c.items, r.Settled item) :
    r.newClass? c = none := by
  have hmethod : ∀ m ∈ c.methods, r.newMethod? m = none := by
    intro m hm
    have hbody : ∀ item ∈ m.body, r.instead? item = none := fun item hitem =>
      r.instead?_of_settled (h item (List.mem_flatMap.mpr ⟨m, hm, hitem⟩))
    simpa [newMethod?] using hbody
  simpa [newClass?] using hmethod

/-- A program whose entries are settled is kept class by class, and of its calls only those that
stay are counted. -/
theorem resolve_of_settled {p : Program} (h : ∀ item ∈ p.items, r.Settled item) :
    (r.resolve p).value =
      ⟨p, List.replicate p.classes.length true, ⟨0, 0, (r.tallyOf p.items).unresolved⟩⟩ := by
  have hclass : ∀ c ∈ p.classes, r.newClass? c = none := fun c hc =>
    r.newClass?_of_settled fun item hitem => h item (List.mem_flatMap.mpr ⟨c, hc, hitem⟩)
  have hresolved : (r.resolve p).value.program = p := by
    have hclasses : p.classes.map (fun c => (r.newClass? c).getD c) = p.classes.map id :=
      List.map_congr_left fun c hc => by rw [hclass c hc]; rfl
    simp only [resolve, r.resolveClasses_eq, List.map_map, Function.comp_def]
    rw [hclasses, List.map_id]
  have hkept : (r.resolve p).value.kept = List.replicate p.classes.length true := by
    simp only [resolve, r.resolveClasses_eq, List.map_map, Function.comp_def]
    exact List.map_eq_replicate_iff.mpr fun c hc => by rw [hclass c hc]; rfl
  have htally : (r.resolve p).value.tally = ⟨0, 0, (r.tallyOf p.items).unresolved⟩ := by
    have hredirects : p.items.countP r.redirects = 0 :=
      List.countP_eq_zero.mpr fun item hitem => by simp [(h item hitem).1]
    have hremoves : p.items.countP r.removes = 0 :=
      List.countP_eq_zero.mpr fun item hitem => by simp [(h item hitem).2]
    rw [r.tally_resolve, tallyOf, hredirects, hremoves]
  calc (r.resolve p).value
      = ⟨(r.resolve p).value.program, (r.resolve p).value.kept, (r.resolve p).value.tally⟩ := rfl
    _ = _ := by rw [hresolved, hkept, htally]

/-- The entries of a resolved program are settled. -/
theorem settled_of_mem_items_resolve {p : Program} {item : BodyItem}
    (h : item ∈ (r.resolve p).value.program.items) : r.Settled item := by
  rw [r.program_resolve, r.items_resolvedPlainly] at h
  obtain ⟨old, -, hold⟩ := List.mem_flatMap.mp h
  exact r.settled_of_mem_rewritten hold

/-- A further resolution of a resolved program keeps its classes and counts the same calls that
stay. -/
theorem resolve_resolve (p : Program) :
    (r.resolve (r.resolve p).value.program).value =
      ⟨(r.resolve p).value.program, List.replicate p.classes.length true,
        ⟨0, 0, (r.resolve p).value.tally.unresolved⟩⟩ := by
  have hlength : (r.resolve p).value.program.classes.length = p.classes.length := by
    rw [r.program_resolve, resolvedPlainly, List.length_map]
  have hcount : (r.tallyOf (r.resolve p).value.program.items).unresolved =
      (r.resolve p).value.tally.unresolved := by
    rw [r.tally_resolve, r.program_resolve, r.items_resolvedPlainly]
    exact r.countP_leaves_flatMap_rewritten p.items
  rw [r.resolve_of_settled fun _ => r.settled_of_mem_items_resolve, hlength, hcount]

/-- A resolution is clean exactly if no gated virtual call is in what it makes. -/
theorem isClean_iff (p : Program) :
    (r.resolve p).value.tally.isClean = true ↔
      ∀ item ∈ (r.resolve p).value.program.items, r.gatedCallee? item = none := by
  have hcount : (r.resolve p).value.tally.unresolved =
      (r.resolve p).value.program.items.countP r.leaves := by
    rw [r.tally_resolve, r.program_resolve, r.items_resolvedPlainly,
      r.countP_leaves_flatMap_rewritten]
    rfl
  rw [Tally.isClean, beq_iff_eq, hcount, List.countP_eq_zero]
  refine forall₂_congr fun item hitem => ?_
  -- A settled entry is a gated virtual call exactly if it is one that stays.
  cases hcallee : r.gatedCallee? item with
  | none => simp [leaves, hcallee]
  | some callee =>
    have hleaves := (r.settled_iff_leaves hcallee).mp (r.settled_of_mem_items_resolve hitem)
    simp [hleaves]

/-! ### Repeated resolution -/

/-- The resolution of a program, and behind it further resolutions by the same resolver, each of
what the one ahead has made. -/
def repeated (p : Program) : Nat → Resolution
  | 0 => (r.resolve p).value
  | n + 1 => (r.resolve (repeated p n).program).value

/-- Repeated resolution is stable. Whatever the tables are, each resolution from the second on
yields the program of the first, keeps every class of it, redirects and removes nothing, and leaves
as many calls as the first. The first has left none exactly if no virtual call of a gated method
stands in any body of its program. -/
theorem repeated_stable (p : Program) :
    (∀ n, r.repeated p (n + 1) =
      ⟨(r.resolve p).value.program, List.replicate p.classes.length true,
        ⟨0, 0, (r.resolve p).value.tally.unresolved⟩⟩) ∧
    ((r.resolve p).value.tally.isClean = true ↔
      ∀ c ∈ (r.resolve p).value.program.classes, ∀ m ∈ c.methods, ∀ operands callee,
        .instruction (.call ⟨.virtual, operands, callee⟩) ∈ m.body →
          r.permissions.contains callee = false) := by
  constructor
  · intro n
    induction n with
    | zero => exact r.resolve_resolve p
    | succ n ih => rw [repeated, ih]; exact r.resolve_resolve p
  · rw [r.isClean_iff]
    constructor
    · intro h c hc m hm operands callee hmem
      have hgated := h _ (Program.mem_items.mpr ⟨c, hc, m, hm, hmem⟩)
      simpa [gatedCallee?] using hgated
    · intro h item hitem
      obtain ⟨c, hc, m, hm, hmem⟩ := Program.mem_items.mp hitem
      cases hcallee : r.gatedCallee? item with
      | none => rfl
      | some callee =>
        obtain ⟨operands, -, rfl, hcontains, -⟩ := r.exists_site hcallee
        rw [h c hc m hm operands callee hmem] at hcontains
        cases hcontains

end Resolver

end GatedCalls
