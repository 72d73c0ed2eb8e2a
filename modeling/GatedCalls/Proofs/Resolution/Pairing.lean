import GatedCalls.Proofs.Redirection.Library
import GatedCalls.Proofs.Resolution.Plain

/-!
# Results are moved where they are left

An instruction that moves a result has to stand directly behind the one that leaves it: a call of a
method that returns something, or an instruction that fills a new array. A resolution takes calls
out of bodies and puts others in, so it changes what stands behind what. It keeps the pairs all the
same: only calls that return nothing are taken out, and a replacement returns what the replaced
method does.

`leavesPairs` reads a body from the first instruction on and remembers only whether the one ahead
has left a result. A call that is taken out has left none, and where a result is left the
instructions behind may do no less than where none is (`leavesPairs_mono`).
-/

namespace GatedCalls

open Text

namespace Instruction

/-- Whether the instruction moves the result that the one ahead of it has left. -/
def movesResult : Instruction → Bool
  | call _ => false
  | other text => startsWith "move-result" text.toList

/-- Whether the instruction leaves a result to be moved. -/
def leavesResult : Instruction → Bool
  | call c => !c.callee.returnsVoid
  | other text => startsWith "filled-new-array" text.toList

/-- Whether each instruction that moves a result stands directly behind one that leaves it. -/
def Paired (is : List Instruction) : Prop :=
  ∀ ahead i behind, is = ahead ++ i :: behind → i.movesResult = true →
    ∃ j, ahead.getLast? = some j ∧ j.leavesResult = true

/-- Whether each instruction that moves a result has one to move, where the instruction ahead has
left a result or not. -/
def leavesPairs : Bool → List Instruction → Bool
  | _, [] => true
  | left, i :: is => (!i.movesResult || left) && leavesPairs i.leavesResult is

/-- Nothing is lost where a result has been left. -/
theorem leavesPairs_mono {left : Bool} {is : List Instruction} (h : leavesPairs false is = true) :
    leavesPairs left is = true := by
  cases is with
  | nil => rfl
  | cons i is =>
    rw [leavesPairs, Bool.or_false, Bool.and_eq_true] at h
    rw [leavesPairs, h.1, h.2, Bool.true_or, Bool.true_and]

/-- The instructions behind others, which end with the one given, if there is one. -/
theorem leavesPairs_iff (last? : Option Instruction) (is : List Instruction) :
    leavesPairs (last?.any leavesResult) is = true ↔
      ∀ ahead i behind, is = ahead ++ i :: behind → i.movesResult = true →
        ∃ j, ahead.getLast?.or last? = some j ∧ j.leavesResult = true := by
  induction is generalizing last? with
  | nil => simp [leavesPairs]
  | cons i is ih =>
    -- For the instructions behind it, the first one is what stands ahead if nothing else does.
    have hlast (ahead : List Instruction) :
        (i :: ahead).getLast?.or last? = ahead.getLast?.or (some i) := by
      cases ahead with
      | nil => rfl
      | cons j ahead => simp [List.getLast?_cons]
    rw [leavesPairs, Bool.and_eq_true, show i.leavesResult = (some i).any leavesResult from rfl, ih]
    constructor
    · rintro ⟨hi, his⟩ ahead i' behind heq hmoves
      cases ahead with
      | nil =>
        obtain ⟨rfl, rfl⟩ := List.cons.inj heq
        obtain ⟨j, hj⟩ : ∃ j, last? = some j ∧ j.leavesResult = true := by
          simpa [hmoves, Option.any_eq_true] using hi
        exact ⟨j, by simpa using hj⟩
      | cons i₀ ahead =>
        obtain ⟨rfl, rfl⟩ := List.cons.inj heq
        rw [hlast]
        exact his ahead i' behind rfl hmoves
    · intro h
      refine ⟨?_, fun ahead i' behind heq hmoves => ?_⟩
      · cases hmoves : i.movesResult with
        | false => rfl
        | true =>
          obtain ⟨j, hj⟩ := h [] i is rfl hmoves
          simpa [Option.any_eq_true] using ⟨j, by simpa using hj⟩
      · rw [← hlast]
        exact h (i :: ahead) i' behind (by rw [heq]; rfl) hmoves

/-- A whole body has no instruction ahead. -/
theorem paired_iff {is : List Instruction} : Paired is ↔ leavesPairs false is = true := by
  have h := leavesPairs_iff none is
  simpa [Paired] using h.symm

end Instruction

/-- The instructions of a list of entries; labels, line numbers and directives are none. -/
def BodyItem.instructions (items : List BodyItem) : List Instruction :=
  items.filterMap BodyItem.instruction?

/-- Whether results are moved where they are left, in all bodies of the program. -/
def Program.IsPaired (p : Program) : Prop :=
  ∀ c ∈ p.classes, ∀ m ∈ c.methods, Instruction.Paired (BodyItem.instructions m.body)

/-- Whether each replacement returns what the replaced method does. -/
def RedirectionTable.KeepsResults (t : RedirectionTable) : Prop :=
  ∀ callee replacement, t.get? callee = some replacement →
    replacement.proto.result = callee.proto.result

/-- What libraries leave behind, however they are loaded, makes a table that keeps results. -/
theorem RedirectionTable.keepsResults_merge_loadAll (ms : Markers)
    (loads : List (Program × PermissionSet)) :
    (merge (ms.loadAll .empty loads)).value.KeepsResults := by
  intro callee replacement hget
  obtain ⟨permission, hmem⟩ := exists_permission_of_get?_merge hget
  exact (Markers.backed_loadAll Markers.backed_empty loads permission _ hmem).1.result_eq

namespace Resolver

variable {r : Resolver}

open Instruction BodyItem

/-- What stands in the place of one entry and behind it keeps the pairs, if what stands behind the
entry does. -/
theorem leavesPairs_rewritten (htable : r.redirections.KeepsResults) {item : BodyItem}
    {items items' : List BodyItem}
    (hbehind : ∀ left, leavesPairs left (instructions items) = true →
      leavesPairs left (instructions items') = true)
    {left : Bool} (h : leavesPairs left (instructions (item :: items)) = true) :
    leavesPairs left (instructions (r.rewritten item ++ items')) = true := by
  have hcons (i : Instruction) (is : List BodyItem) :
      instructions (.instruction i :: is) = i :: instructions is := rfl
  cases hcallee : r.gatedCallee? item with
  | none =>
    rw [r.rewritten_eq_self hcallee, List.singleton_append]
    -- What is no instruction stands between two of them without coming between them.
    match item with
    | .label _ | .line _ | .directive _ => exact hbehind left h
    | .instruction i =>
      rw [hcons, leavesPairs, Bool.and_eq_true] at h ⊢
      exact ⟨h.1, hbehind _ h.2⟩
  | some callee =>
    obtain ⟨operands, permissions, rfl, hcontains, -⟩ := r.exists_site hcallee
    rw [hcons, leavesPairs, Bool.and_eq_true] at h
    -- The three verdicts.
    cases hget : r.redirections.get? callee with
    | some replacement =>
      -- The replacement leaves a result if the call that it stands for has left one.
      have hvoid : replacement.returnsVoid = callee.returnsVoid := by
        rw [Bool.eq_iff_iff, MethodRef.returnsVoid_iff, MethodRef.returnsVoid_iff,
          htable callee replacement hget]
      simp only [rewritten, hcontains, hget, if_true, List.singleton_append]
      rw [hcons, leavesPairs, Bool.and_eq_true]
      refine ⟨h.1, hbehind _ ?_⟩
      rw [leavesResult, hvoid]
      exact h.2
    | none =>
      cases hremoved : r.removesVoid && callee.returnsVoid with
      | true =>
        -- The call has left nothing, so nothing behind it needs a result.
        have hvoid : callee.returnsVoid = true := (Bool.and_eq_true_iff.mp hremoved).2
        have hrest : leavesPairs false (instructions items) = true := by
          simpa [leavesResult, hvoid] using h.2
        simp only [rewritten, hcontains, hget, hremoved, if_true, List.nil_append]
        exact hbehind left (leavesPairs_mono hrest)
      | false =>
        simp only [rewritten, hcontains, hget, hremoved, if_true, Bool.false_eq_true, if_false,
          List.singleton_append]
        rw [hcons, leavesPairs, Bool.and_eq_true]
        exact ⟨h.1, hbehind _ h.2⟩

/-- A body keeps its pairs. -/
theorem leavesPairs_flatMap_rewritten (htable : r.redirections.KeepsResults)
    (items : List BodyItem) {left : Bool} (h : leavesPairs left (instructions items) = true) :
    leavesPairs left (instructions (items.flatMap r.rewritten)) = true := by
  induction items generalizing left with
  | nil => rfl
  | cons item items ih =>
    rw [List.flatMap_cons]
    exact leavesPairs_rewritten htable (fun left => ih) h

end Resolver

/-- A resolution moves results where they are left, if the program does so and the replacements
return what the replaced methods do; and so they do in every table that is merged from what
libraries leave behind. -/
theorem Resolver.isPaired_resolve :
    (∀ (ms : Markers) (loads : List (Program × PermissionSet)),
      (RedirectionTable.merge (ms.loadAll .empty loads)).value.KeepsResults) ∧
    ∀ (r : Resolver) (p : Program), r.redirections.KeepsResults → p.IsPaired →
      (r.resolve p).value.program.IsPaired := by
  refine ⟨RedirectionTable.keepsResults_merge_loadAll, fun r p htable hp => ?_⟩
  rw [r.program_resolve]
  intro c' hc' m' hm'
  obtain ⟨c, hc, rfl⟩ := List.mem_map.mp hc'
  obtain ⟨m, hm, rfl⟩ := List.mem_map.mp hm'
  rw [Instruction.paired_iff]
  exact leavesPairs_flatMap_rewritten htable m.body (Instruction.paired_iff.mp (hp c hc m hm))

namespace PairingSample

/-- A gated method that returns a number, and one that returns nothing. -/
def gated : MethodRef × MethodRef :=
  (⟨"LSensor;", "last", ⟨[], .primitive .int⟩⟩, ⟨"LSensor;", "start", ⟨[], .void⟩⟩)

/-- The method that replaces the first one. -/
def stub : MethodRef :=
  ⟨"LStub;", "last", ⟨[.object ⟨"Sensor"⟩], .primitive .int⟩⟩

/-- Both methods are gated, and calls that return nothing may be removed. -/
def resolver : Resolver where
  permissions := ⟨(Std.ExtTreeMap.empty.insert gated.1 (.ofList ["SENSE"])).insert gated.2
    (.ofList ["SENSE"])⟩
  redirections := RedirectionTable.empty.insert gated.1 stub
  removesVoid := true

/-- A class with a method that calls both and moves the result of the first one. -/
def app : Program where
  apiLevel := 19
  classes := [{
    name := ⟨"App"⟩
    modifiers := []
    source := none
    superclass := none
    interfaces := []
    annotations := []
    fields := []
    methods := [{
      name := "run"
      modifiers := []
      isConstructor := false
      proto := ⟨[], .void⟩
      locals := some 1
      annotations := []
      body := [.instruction (.call ⟨.virtual, .list [.frame 0], gated.2⟩),
        .instruction (.call ⟨.virtual, .list [.frame 0], gated.1⟩), .line 7,
        .instruction (.other "move-result v0")] }] }]

end PairingSample

open PairingSample in
/-- In the sample one call is removed and one is redirected, and the result is still moved where it
is left. -/
theorem Resolver.isPaired_resolve_sample :
    resolver.redirections.KeepsResults ∧ app.IsPaired ∧
      (resolver.resolve app).value.program.IsPaired := by
  have htable : resolver.redirections.KeepsResults := by
    intro callee replacement hget
    have hentry : gated.1 = callee ∧ stub = replacement := by
      simpa [resolver, RedirectionTable.get?_insert] using hget
    rw [← hentry.1, ← hentry.2]
    rfl
  have hpaired : app.IsPaired := by
    intro c hc m hm
    obtain rfl := List.mem_singleton.mp hc
    obtain rfl := List.mem_singleton.mp hm
    exact Instruction.paired_iff.mpr (by decide)
  exact ⟨htable, hpaired, isPaired_resolve.2 resolver app htable hpaired⟩

end GatedCalls
