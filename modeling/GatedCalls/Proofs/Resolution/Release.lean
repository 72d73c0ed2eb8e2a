import Mathlib
import GatedCalls.Proofs.Redirection.Library
import GatedCalls.Proofs.Resolution.Assembly

/-!
# The calls of a release have targets

A release ships the classes of the libraries in front of the resolved application, and is refused
if two of its classes have the same name. So the class that provides a replacement is the one that
its name leads to, and each call that the resolution has put in finds its method.
-/

namespace GatedCalls

/-- Whether the name of the owner leads to a class of the program that provides the method. -/
def Program.HasTarget (ms : Markers) (p : Program) (x : MethodRef) : Prop :=
  ∃ c, p.findClass? x.owner = some c ∧ ms.Provides c x

namespace Release

variable {target : Program} {rs : Replacements} {permissions : PermissionTable} {removesVoid : Bool}
variable {release : Release}

/-- The resolution by which a release is built. -/
def resolver (rs : Replacements) (permissions : PermissionTable) (removesVoid : Bool) : Resolver :=
  ⟨permissions, (RedirectionTable.merge rs).value, removesVoid⟩

/-- A release is built of the shipped classes and the resolved application, under names that all
differ. -/
theorem classes_of_build (h : (build target rs permissions removesVoid).value = .ok release) :
    release.program.classes = rs.classes ++
      target.classes.map (resolver rs permissions removesVoid).classPlainly ∧
    release.program.names.Nodup := by
  obtain ⟨hnodup, hok⟩ | ⟨-, f, -, -, herror⟩ := build_cases target rs permissions removesVoid
  · obtain rfl := Except.ok.inj (hok.symm.trans h)
    refine ⟨?_, names_assembled target rs permissions removesVoid ▸ hnodup⟩
    rw [assembled, Resolver.program_resolve]
    rfl
  · cases herror.symm.trans h

/-- In a release each redirection of the merged table has a target and takes the receiver. -/
theorem hasTarget_of_get?_merge {ms : Markers}
    (h : (build target rs permissions removesVoid).value = .ok release) (hbacked : rs.Backed ms)
    {callee replacement : MethodRef}
    (hget : (RedirectionTable.merge rs).value.get? callee = some replacement) :
    release.program.HasTarget ms replacement ∧ Redirection.TakesReceiver ⟨callee, replacement⟩ := by
  obtain ⟨hclasses, hunique⟩ := classes_of_build h
  obtain ⟨permission, hmem⟩ := RedirectionTable.exists_permission_of_get?_merge hget
  obtain ⟨htakes, c, hc, hprovides⟩ := hbacked permission _ hmem
  have hshipped : c ∈ release.program.classes := hclasses ▸ List.mem_append_left _ hc
  refine ⟨⟨c, ?_, hprovides⟩, htakes⟩
  rw [hprovides.owner_eq]
  exact Program.findClass?_of_mem hunique hshipped

end Release

/-- What the resolution puts in the place of an entry that does not stay is a static call of the
method that the table names for the callee of a virtual call, with the registers of that call. -/
theorem Resolver.redirected_of_mem_rewritten {r : Resolver} {item new : BodyItem}
    (hnew : new ∈ r.rewritten item) (hne : new ≠ item) :
    ∃ operands callee replacement,
      item = .instruction (.call ⟨.virtual, operands, callee⟩) ∧
      new = .instruction (.call ⟨.static, operands, replacement⟩) ∧
      r.redirections.get? callee = some replacement := by
  cases hcallee : r.gatedCallee? item with
  | none =>
    rw [r.rewritten_eq_self hcallee] at hnew
    exact absurd (List.mem_singleton.mp hnew) hne
  | some callee =>
    obtain ⟨operands, -, rfl, hcontains, -⟩ := r.exists_site hcallee
    cases hget : r.redirections.get? callee with
    | some replacement =>
      refine ⟨operands, callee, replacement, rfl, ?_, hget⟩
      simpa [rewritten, hcontains, hget] using hnew
    | none =>
      -- Such a call is removed or stays.
      simp only [rewritten, hcontains, hget, if_true] at hnew
      split at hnew
      · cases hnew
      · exact absurd (List.mem_singleton.mp hnew) hne

/-- Every redirected call has a target. Libraries are loaded from nothing, in any order, with any
permissions requested, and some of them may fail. In a release that is built of what they leave,
each redirection of the merged table leads to a method that the output provides, and the method
takes the receiver of the calls that are sent to it. The output is the shipped classes and the
application with its bodies resolved entry by entry, and where an entry does not stay, what is put
in is a static call of a method that the output provides. -/
theorem Release.redirected_calls_have_targets (ms : Markers)
    (loads : List (Program × PermissionSet)) {target : Program} {permissions : PermissionTable}
    {removesVoid : Bool} {release : Release}
    (h : (build target (ms.loadAll .empty loads) permissions removesVoid).value = .ok release) :
    (∀ callee replacement,
      (RedirectionTable.merge (ms.loadAll .empty loads)).value.get? callee = some replacement →
        release.program.HasTarget ms replacement ∧
        Redirection.TakesReceiver ⟨callee, replacement⟩) ∧
    release.program.classes = (ms.loadAll .empty loads).classes ++ target.classes.map
      (resolver (ms.loadAll .empty loads) permissions removesVoid).classPlainly ∧
    ∀ item new,
      new ∈ (resolver (ms.loadAll .empty loads) permissions removesVoid).rewritten item →
      new ≠ item →
        ∃ operands callee replacement,
          item = .instruction (.call ⟨.virtual, operands, callee⟩) ∧
          new = .instruction (.call ⟨.static, operands, replacement⟩) ∧
          release.program.HasTarget ms replacement := by
  have hbacked : (ms.loadAll .empty loads).Backed ms := Markers.backed_loadAll Markers.backed_empty loads
  refine ⟨fun callee replacement => hasTarget_of_get?_merge h hbacked, (classes_of_build h).1, ?_⟩
  intro item new hnew hne
  obtain ⟨operands, callee, replacement, hitem, hstatic, hget⟩ :=
    Resolver.redirected_of_mem_rewritten hnew hne
  exact ⟨operands, callee, replacement, hitem, hstatic, (hasTarget_of_get?_merge h hbacked hget).1⟩

namespace Sample

/-- Short markers. -/
def markers : Markers :=
  ⟨"LMarked;", "LReplaces;"⟩

/-- A gated method: it takes a number and returns nothing. -/
def gated : MethodRef :=
  ⟨"LSensor;", "start", ⟨[.primitive .int], .void⟩⟩

/-- The table that gates the method. -/
def table : PermissionTable :=
  ⟨Std.ExtTreeMap.ofList [(gated, Std.ExtTreeSet.ofList ["SENSE"])]⟩

/-- The method that replaces it. -/
def stub : MethodRef :=
  ⟨"LStub;", "start", ⟨[.object ⟨"Sensor"⟩, .primitive .int], .void⟩⟩

/-- The class that offers the replacement. -/
def stubClass : ClassDef where
  name := ⟨"Stub"⟩
  modifiers := [.public]
  source := none
  superclass := none
  interfaces := []
  annotations := [⟨.build, .object ⟨"Marked"⟩, []⟩]
  fields := []
  methods := [{
    name := "start"
    modifiers := [.public, .static]
    isConstructor := false
    proto := stub.proto
    locals := some 0
    annotations := [⟨.build, .object ⟨"Replaces"⟩,
      [⟨"permission", .single "\"SENSE\""⟩, ⟨"defClass", .single "\"Sensor\""⟩]⟩]
    body := [.instruction (.other "return-void")] }]

/-- A class with a method that makes one call. -/
def appClass (dispatch : Dispatch) (callee : MethodRef) : ClassDef where
  name := ⟨"App"⟩
  modifiers := []
  source := none
  superclass := none
  interfaces := []
  annotations := []
  fields := []
  methods := [{
    name := "run"
    modifiers := []
    isConstructor := false
    proto := ⟨[], .void⟩
    locals := some 2
    annotations := []
    body := [.instruction (.call ⟨dispatch, .list [.frame 0, .frame 1], callee⟩),
      .instruction (.other "return-void")] }]

end Sample

open Sample in
/-- The call of the gated method in a small application is sent to the stub of a library, and the
release has it. -/
theorem Release.sample_call_has_target :
    Program.HasTarget markers ⟨[stubClass, appClass .static stub], 19⟩ stub ∧
      Redirection.TakesReceiver ⟨gated, stub⟩ :=
  (Release.redirected_calls_have_targets markers [(⟨[stubClass], 19⟩, .ofList ["SENSE"])]
    (show (build ⟨[appClass .virtual gated], 19⟩ _ table false).value =
      .ok ⟨⟨[stubClass, appClass .static stub], 19⟩, ⟨1, 0, 0⟩⟩ by cbv)).1 gated stub (by cbv)

end GatedCalls
