import GatedCalls.Proofs.Resolution.Pairing
import GatedCalls.Proofs.Resolution.Repetition

/-!
# Sharing is exact

A resolution tells which classes it has kept, and these can be shared with the program from which
they come. It keeps a class exactly if it has left all call sites in it as they are, and exactly if
the class that comes out is equal to the one that went in: no two rewritings can make up for each
other. For an entry that is redirected changes its kind of call, and one that is removed shortens
its body, which no other entry makes longer (`length_rewritten`), so a body that comes out equal has
had each entry put in its own place (`flatMap_rewritten_eq_self`).
-/

namespace GatedCalls

namespace Resolver

variable (r : Resolver)

/-! ### Entries -/

/-- An entry is settled exactly if it is no call site, or one whose call stays. -/
theorem settled_iff_site? (item : BodyItem) :
    r.Settled item ↔ ∀ s, r.site? item = some s → s.verdict = .unresolved := by
  cases hcallee : r.gatedCallee? item with
  | none =>
    have hsite := r.site?_eq_none hcallee
    simp [r.settled_of_not_gated hcallee, hsite]
  | some callee =>
    obtain ⟨operands, permissions, -, -, hsite⟩ := r.exists_site hcallee
    rw [r.settled_iff_leaves hcallee, leaves, hcallee, Option.any_some, hsite]
    -- The three verdicts.
    cases hget : r.redirections.get? callee with
    | some replacement => simp [verdict, hget]
    | none => cases hvoid : r.removesVoid && callee.returnsVoid <;> simp [verdict, hget, hvoid]

/-- An entry is put in its own place exactly if it is settled. -/
theorem rewritten_eq_singleton_iff (item : BodyItem) :
    r.rewritten item = [item] ↔ r.Settled item := by
  constructor
  · intro h
    exact r.settled_of_mem_rewritten (h ▸ List.mem_singleton_self item)
  · intro h
    rw [← r.getD_instead?, r.instead?_of_settled h]
    rfl

/-- One entry stands in the place of an entry, or none if it is removed. -/
theorem length_rewritten (item : BodyItem) :
    (r.rewritten item).length + [item].countP r.removes = 1 := by
  cases hcallee : r.gatedCallee? item with
  | none => simp [r.rewritten_eq_self hcallee, removes, hcallee]
  | some callee =>
    obtain ⟨operands, -, rfl, hcontains, -⟩ := r.exists_site hcallee
    cases hget : r.redirections.get? callee with
    | some replacement => simp [rewritten, hcontains, removes, gatedCallee?, hget]
    | none =>
      cases hvoid : r.removesVoid && callee.returnsVoid with
      | true =>
        rw [List.countP_singleton, removes, hcallee, Option.any_some, hget, hvoid]
        simp [rewritten, hcontains, hget, hvoid]
      | false =>
        rw [List.countP_singleton, removes, hcallee, Option.any_some, hget, hvoid]
        simp [rewritten, hcontains, hget, hvoid]

/-- Instructions stand in the place of instructions: as many, less those that are removed. -/
theorem countP_isSome_instruction?_rewritten (item : BodyItem) :
    (r.rewritten item).countP (·.instruction?.isSome) + [item].countP r.removes =
      [item].countP (·.instruction?.isSome) := by
  cases hcallee : r.gatedCallee? item with
  | none => simp [r.rewritten_eq_self hcallee, removes, hcallee]
  | some callee =>
    -- The entry is an instruction, and so is what stands in its place.
    obtain ⟨operands, -, rfl, -, -⟩ := r.exists_site hcallee
    have hnew : ∀ new ∈ r.rewritten (.instruction (.call ⟨.virtual, operands, callee⟩)),
        new.instruction?.isSome = true := by
      intro new hnew
      unfold rewritten at hnew
      grind [BodyItem.instruction?]
    rw [List.countP_eq_length.mpr hnew]
    exact r.length_rewritten _

/-! ### Bodies, methods and classes -/

/-- What stands in the place of entries is as long as they are, but for those that are removed. -/
theorem length_flatMap_rewritten (items : List BodyItem) :
    (items.flatMap r.rewritten).length + items.countP r.removes = items.length := by
  induction items with
  | nil => rfl
  | cons item items ih =>
    have hitem := r.length_rewritten item
    rw [List.countP_singleton] at hitem
    rw [List.flatMap_cons, List.length_append, List.length_cons, List.countP_cons]
    omega

/-- What stands in the place of entries has as many instructions, but for those that are removed. -/
theorem countP_isSome_instruction?_flatMap_rewritten (items : List BodyItem) :
    (items.flatMap r.rewritten).countP (·.instruction?.isSome) + items.countP r.removes =
      items.countP (·.instruction?.isSome) := by
  induction items with
  | nil => rfl
  | cons item items ih =>
    have hitem := r.countP_isSome_instruction?_rewritten item
    rw [List.countP_singleton, List.countP_singleton] at hitem
    rw [List.flatMap_cons, List.countP_append, List.countP_cons, List.countP_cons]
    omega

/-- A body comes out equal exactly if all its entries are settled. -/
theorem flatMap_rewritten_eq_self (items : List BodyItem) :
    items.flatMap r.rewritten = items ↔ ∀ item ∈ items, r.Settled item := by
  constructor
  · intro h
    induction items with
    | nil => simp
    | cons item items ih =>
      rw [List.flatMap_cons] at h
      -- At most one entry is put in for the first; with none the whole would be too short.
      have hone := r.length_rewritten item
      have hrest := r.length_flatMap_rewritten items
      have hlength := congrArg List.length h
      rw [List.length_append, List.length_cons] at hlength
      obtain ⟨new, hnew⟩ : ∃ new, r.rewritten item = [new] :=
        List.length_eq_one_iff.mp (by omega)
      rw [hnew, List.singleton_append, List.cons.injEq] at h
      obtain ⟨rfl, htail⟩ := h
      exact List.forall_mem_cons.mpr ⟨(r.rewritten_eq_singleton_iff _).mp hnew, ih htail⟩
  · intro h
    rw [← r.replaceItems_instead?]
    refine replaceItems_of_not_any (List.any_eq_false.mpr fun item hitem => ?_)
    simp [r.instead?_of_settled (h item hitem)]

/-- A method comes out equal exactly if all entries of its body are settled. -/
theorem methodPlainly_eq_self_iff (m : Method) :
    r.methodPlainly m = m ↔ ∀ item ∈ m.body, r.Settled item := by
  rw [← r.flatMap_rewritten_eq_self]
  exact ⟨fun h => congrArg Method.body h, fun h => by rw [methodPlainly, h]⟩

/-- A class comes out equal exactly if all its entries are settled. -/
theorem classPlainly_eq_self_iff (c : ClassDef) :
    r.classPlainly c = c ↔ ∀ item ∈ c.items, r.Settled item := by
  have hmethods : r.classPlainly c = c ↔ c.methods.map r.methodPlainly = c.methods.map id := by
    rw [List.map_id]
    exact ⟨fun h => congrArg ClassDef.methods h, fun h => by rw [classPlainly, h]⟩
  rw [hmethods, List.map_inj_left, ClassDef.items, List.forall_mem_flatMap]
  exact forall₂_congr fun m _ => r.methodPlainly_eq_self_iff m

/-- A class is kept exactly if all its entries are settled. -/
theorem newClass?_eq_none_iff (c : ClassDef) :
    r.newClass? c = none ↔ ∀ item ∈ c.items, r.Settled item := by
  refine ⟨fun h => ?_, r.newClass?_of_settled⟩
  rw [← r.classPlainly_eq_self_iff, ← r.getD_newClass? c, h]
  rfl

/-! ### Programs -/

/-- The verdicts of a resolution on the call sites of a class, in order. -/
def verdictsOn (c : ClassDef) : List Verdict :=
  (c.items.filterMap r.site?).map (·.verdict)

/-- All entries of a class are settled exactly if no verdict on a call site in it is another than
that the call stays. -/
theorem settled_iff_verdictsOn (c : ClassDef) :
    (∀ item ∈ c.items, r.Settled item) ↔ ∀ v ∈ r.verdictsOn c, v = .unresolved := by
  simp only [verdictsOn, List.forall_mem_map, List.mem_filterMap, r.settled_iff_site?]
  exact ⟨fun h s ⟨item, hitem, hs⟩ => h item hitem s hs, fun h item hitem s hs =>
    h s ⟨item, hitem, hs⟩⟩

/-- What a resolution says about each class. -/
theorem kept_resolve (p : Program) :
    (r.resolve p).value.kept = p.classes.map fun c => (r.newClass? c).isNone := by
  simp only [resolve, r.resolveClasses_eq, List.map_map, Function.comp_def]

/-- Sharing is exact. For each class of a program a resolution says whether it was kept: it was if
and only if none of its call sites was redirected or removed, and if and only if the class that
comes out in its place is equal to it. And with the calls that were removed, the program that comes
out has as many entries in its bodies as the one that went in, and as many instructions. -/
theorem kept_exactly (p : Program) :
    (∀ (i : Nat) (c : ClassDef), p.classes[i]? = some c →
      ∃ kept, (r.resolve p).value.kept[i]? = some kept ∧
        (kept = true ↔ ∀ v ∈ r.verdictsOn c, v = .unresolved) ∧
        (kept = true ↔ (r.resolve p).value.program.classes[i]? = some c)) ∧
    (r.resolve p).value.program.items.length + (r.resolve p).value.tally.removed =
      p.items.length ∧
    (r.resolve p).value.program.items.countP (·.instruction?.isSome) +
        (r.resolve p).value.tally.removed =
      p.items.countP (·.instruction?.isSome) := by
  refine ⟨fun i c hc => ⟨(r.newClass? c).isNone, ?_, ?_, ?_⟩, ?_, ?_⟩
  · rw [r.kept_resolve, List.getElem?_map, hc]
    rfl
  · rw [Option.isNone_iff_eq_none, r.newClass?_eq_none_iff, r.settled_iff_verdictsOn]
  · rw [Option.isNone_iff_eq_none, r.newClass?_eq_none_iff, r.program_resolve, resolvedPlainly,
      List.getElem?_map, hc, Option.map_some, Option.some.injEq, r.classPlainly_eq_self_iff]
  · rw [r.tally_resolve, r.program_resolve, r.items_resolvedPlainly]
    exact r.length_flatMap_rewritten p.items
  · rw [r.tally_resolve, r.program_resolve, r.items_resolvedPlainly]
    exact r.countP_isSome_instruction?_flatMap_rewritten p.items

namespace SharingSample

/-- The class of the sample of pairs, and one with a static call of a gated method. -/
def program : Program where
  apiLevel := 19
  classes := PairingSample.app.classes ++ [{
    name := ⟨"Helper"⟩
    modifiers := []
    source := none
    superclass := none
    interfaces := []
    annotations := []
    fields := []
    methods := [{
      name := "shake"
      modifiers := [.static]
      isConstructor := false
      proto := ⟨[], .void⟩
      locals := some 1
      annotations := []
      body := [.instruction (.call ⟨.static, .list [.frame 0], PairingSample.gated.2⟩)] }] }]

end SharingSample

open PairingSample SharingSample in
/-- In the sample one class is kept: the second one, which has no virtual call. -/
theorem kept_exactly_sample :
    (resolver.resolve program).value.kept = [false, true] ∧
    (∃ c, program.classes[0]? = some c ∧
      ∃ kept, (resolver.resolve program).value.kept[0]? = some kept ∧
        (kept = true ↔ ∀ v ∈ resolver.verdictsOn c, v = .unresolved) ∧
        (kept = true ↔ (resolver.resolve program).value.program.classes[0]? = some c)) ∧
    ∃ c, program.classes[1]? = some c ∧
      ∃ kept, (resolver.resolve program).value.kept[1]? = some kept ∧
        (kept = true ↔ ∀ v ∈ resolver.verdictsOn c, v = .unresolved) ∧
        (kept = true ↔ (resolver.resolve program).value.program.classes[1]? = some c) :=
  ⟨rfl, ⟨_, rfl, (resolver.kept_exactly program).1 0 _ rfl⟩,
    ⟨_, rfl, (resolver.kept_exactly program).1 1 _ rfl⟩⟩

end Resolver

end GatedCalls
