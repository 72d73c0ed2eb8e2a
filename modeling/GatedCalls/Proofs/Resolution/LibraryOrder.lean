import GatedCalls.Proofs.Redirection.Library
import GatedCalls.Proofs.Resolution.Assembly
import Mathlib.Data.List.Perm.Basic

/-!
# The order of the libraries

Whether a library can be loaded depends on the library alone, and what it adds does not depend on
what is known already (`Markers.load_value`). So a run of loads adds up the redirections and the
classes of the libraries that can be loaded, and since redirections are kept in sets, the order in
which they are added does not matter (`Replacements.add_right_comm`). Only the shipped classes stand
in the order of the loads; a release is refused because of their names, not because of their order.
-/

namespace GatedCalls

namespace Replacements

/-! ### Adding redirections -/

/-- Two redirections are added in any order. -/
theorem add_right_comm (rs : Replacements) (permission permission' : String) (x y : Redirection) :
    (rs.add permission x).add permission' y = (rs.add permission' y).add permission x := by
  have hinsert (known : Std.ExtTreeSet Redirection) :
      (known.insert x).insert y = (known.insert y).insert x := by
    refine Std.ExtTreeSet.ext_mem fun z => ?_
    simp only [Std.ExtTreeSet.mem_insert]
    exact or_left_comm
  -- Permission by permission: the two meet only under the same one, and there in one set.
  unfold add
  congr 1
  refine Std.ExtTreeMap.ext_getElem? fun p => ?_
  simp only [Std.ExtTreeMap.getElem?_alter, Std.LawfulEqCmp.compare_eq_iff_eq]
  by_cases hp : permission = permission'
  · subst hp
    by_cases hq : permission = p
    · simp [hq, hinsert]
    · simp [hq]
  · by_cases hq : permission = p
    · subst hq
      simp [Ne.symm hp]
    · by_cases hq' : permission' = p
      · subst hq'
        simp [hq]
      · simp [hq, hq']

/-- Redirections are added in any order. -/
theorem addAll_perm (rs : Replacements) {entries entries' : List (String × Redirection)}
    (h : entries.Perm entries') : rs.addAll entries = rs.addAll entries' :=
  h.foldl_eq' (fun e _ e' _ rs => rs.add_right_comm e.1 e'.1 e.2 e'.2) rs

/-- Classes are added before or behind redirections. -/
theorem addAll_addClasses (rs : Replacements) (cs : List ClassDef)
    (entries : List (String × Redirection)) :
    (rs.addClasses cs).addAll entries = (rs.addAll entries).addClasses cs := by
  induction entries generalizing rs with
  | nil => rfl
  | cons e entries ih => exact ih (rs.add e.1 e.2)

end Replacements

namespace Markers

variable (ms : Markers)

/-! ### One load -/

/-- What a library adds: redirections, and classes. A library that fails adds nothing. -/
def offer (p : Program) (requested : PermissionSet) :
    List (String × Redirection) × List ClassDef :=
  match ms.decodeAll p with
  | .error _ => ([], [])
  | .ok decoded => (selected requested decoded, ms.offeredClasses p)

/-- The failure of a library, if it cannot be loaded. -/
def failure? (p : Program) : Option Failure :=
  match ms.decodeAll p with
  | .error f => some f
  | .ok _ => none

/-- A library fails whatever is known, or adds what it offers to what is known. -/
theorem load_value (p : Program) (requested : PermissionSet) (known : Replacements) :
    (ms.load p requested known).value =
      match ms.failure? p with
      | some f => .error f
      | none => .ok ((known.addAll (ms.offer p requested).1).addClasses (ms.offer p requested).2) := by
  unfold load failure? offer
  cases ms.decodeAll p with
  | error f => rfl
  | ok decoded =>
    simp only [addSelected_eq]

/-! ### Runs of loads -/

/-- The libraries that fail when they are loaded one after another, with their failures. -/
def failedLoads : Replacements → List (Program × PermissionSet) → List (Program × Failure)
  | _, [] => []
  | known, (p, requested) :: loads =>
    match (ms.load p requested known).value with
    | .error f => (p, f) :: failedLoads known loads
    | .ok loaded => failedLoads loaded loads

/-- Which libraries fail does not depend on what is loaded before them. -/
theorem failedLoads_eq (known : Replacements) (loads : List (Program × PermissionSet)) :
    ms.failedLoads known loads = loads.filterMap fun l => (ms.failure? l.1).map fun f => (l.1, f) := by
  induction loads generalizing known with
  | nil => rfl
  | cons l loads ih =>
    obtain ⟨p, requested⟩ := l
    rw [failedLoads, ms.load_value, List.filterMap_cons]
    cases ms.failure? p with
    | some f => simp only [ih]; rfl
    | none => simp only [ih]; rfl

/-- A run of loads adds up what the libraries offer. -/
theorem loadAll_eq (known : Replacements) (loads : List (Program × PermissionSet)) :
    ms.loadAll known loads =
      (known.addAll (loads.flatMap fun l => (ms.offer l.1 l.2).1)).addClasses
        (loads.flatMap fun l => (ms.offer l.1 l.2).2) := by
  induction loads generalizing known with
  | nil => simp [loadAll, Replacements.addAll, Replacements.addClasses]
  | cons l loads ih =>
    obtain ⟨p, requested⟩ := l
    have hload : ((ms.load p requested known).value.toOption).getD known =
        (known.addAll (ms.offer p requested).1).addClasses (ms.offer p requested).2 := by
      rw [ms.load_value]
      cases hfailure : ms.failure? p with
      | none => rfl
      | some f =>
        -- A library that fails leaves what is known, and it has nothing to offer.
        have hoffer : ms.offer p requested = ([], []) := by
          unfold failure? at hfailure
          unfold offer
          cases hdecode : ms.decodeAll p with
          | error f => rfl
          | ok decoded => simp [hdecode] at hfailure
        simp [hoffer, Replacements.addAll, Replacements.addClasses, Except.toOption]
    have hstep : ms.loadAll known ((p, requested) :: loads) =
        ms.loadAll (((ms.load p requested known).value.toOption).getD known) loads := rfl
    rw [hstep, hload, ih, Replacements.addAll_addClasses]
    simp [Replacements.addAll, Replacements.addClasses, List.foldl_append]

variable {ms} {loads loads' : List (Program × PermissionSet)}

/-- The same libraries fail in any order. -/
theorem failedLoads_perm (h : loads.Perm loads') (known : Replacements) :
    (ms.failedLoads known loads).Perm (ms.failedLoads known loads') := by
  rw [ms.failedLoads_eq, ms.failedLoads_eq]
  exact h.filterMap _

/-- The redirections are the same in any order of the loads. -/
theorem redirections_loadAll_perm (h : loads.Perm loads') (known : Replacements) :
    (ms.loadAll known loads).redirections = (ms.loadAll known loads').redirections := by
  rw [ms.loadAll_eq, ms.loadAll_eq, known.addAll_perm (h.flatMap_right _)]
  rfl

/-- The classes are the same in any order of the loads, but stand in this order. -/
theorem classes_loadAll_perm (h : loads.Perm loads') (known : Replacements) :
    (ms.loadAll known loads).classes.Perm (ms.loadAll known loads').classes := by
  simp only [ms.loadAll_eq, Replacements.addClasses, Replacements.classes_addAll]
  exact (h.flatMap_right _).append_left known.classes

end Markers

/-- The merged table depends on the redirections only. -/
theorem RedirectionTable.merge_congr {rs rs' : Replacements}
    (h : rs.redirections = rs'.redirections) : merge rs = merge rs' := by
  have hentries : rs.entries = rs'.entries := by rw [Replacements.entries, Replacements.entries, h]
  rw [merge, merge, hentries]

namespace Release

/-! ### Releases -/

/-- Whether two outcomes are both refusals, or releases that differ only in what stands in front:
they have the same counters, the same level and the same classes behind `front` and `front'`. -/
inductive SameBehind (front front' : List ClassDef) :
    Except Failure Release → Except Failure Release → Prop where
  | refused (f f' : Failure) : SameBehind front front' (.error f) (.error f')
  | built (classes : List ClassDef) (apiLevel : UInt32) (tally : Tally) :
    SameBehind front front' (.ok ⟨⟨front ++ classes, apiLevel⟩, tally⟩)
      (.ok ⟨⟨front' ++ classes, apiLevel⟩, tally⟩)

variable {target : Program} {rs rs' : Replacements}

variable {permissions : PermissionTable} {removesVoid : Bool}

/-- What is provided in another order makes the same release, but for the order of the classes in
front. -/
theorem sameBehind_build (hclasses : rs.classes.Perm rs'.classes)
    (hredirections : rs.redirections = rs'.redirections) :
    SameBehind rs.classes rs'.classes (build target rs permissions removesVoid).value
      (build target rs' permissions removesVoid).value := by
  have hassembled : assembled target rs' permissions removesVoid =
      let resolution := (Resolver.resolve
        ⟨permissions, (RedirectionTable.merge rs).value, removesVoid⟩ target).value
      ⟨⟨rs'.classes ++ resolution.program.classes, resolution.program.apiLevel⟩,
        resolution.tally⟩ := by
    rw [assembled, ← RedirectionTable.merge_congr hredirections]
  -- Whether all names differ does not depend on the order in which the classes stand.
  have hnames : (allNames target rs).Nodup ↔ (allNames target rs').Nodup :=
    ((hclasses.map _).append_right _).nodup_iff
  obtain ⟨hnodup, hok⟩ | ⟨c, f, htwice, -, herror⟩ :=
      build_cases target rs permissions removesVoid <;>
    obtain ⟨hnodup', hok'⟩ | ⟨c', f', htwice', -, herror'⟩ :=
      build_cases target rs' permissions removesVoid
  · rw [hok, hok', hassembled]
    exact .built _ _ _
  -- Not one of them alone is refused.
  · exact absurd (hnames.mp hnodup) (not_nodup_of_two_le_count htwice')
  · exact absurd (hnames.mpr hnodup') (not_nodup_of_two_le_count htwice)
  · rw [herror, herror']
    exact .refused f f'

/-- The order of the libraries does not matter. Whatever is requested of each of them, in any order
the same libraries fail, and they leave the same redirections, the same merged table and the same
classes, which stand in the order of the loads. So for every application the releases are both
refused, or they have the same counters and the same application behind the shipped classes. -/
theorem sameBehind_of_perm (ms : Markers) {loads loads' : List (Program × PermissionSet)}
    (h : loads.Perm loads') :
    (ms.failedLoads .empty loads).Perm (ms.failedLoads .empty loads') ∧
    (ms.loadAll .empty loads).redirections = (ms.loadAll .empty loads').redirections ∧
    (RedirectionTable.merge (ms.loadAll .empty loads)).value =
      (RedirectionTable.merge (ms.loadAll .empty loads')).value ∧
    (ms.loadAll .empty loads).classes.Perm (ms.loadAll .empty loads').classes ∧
    ∀ target permissions removesVoid,
      SameBehind (ms.loadAll .empty loads).classes (ms.loadAll .empty loads').classes
        (build target (ms.loadAll .empty loads) permissions removesVoid).value
        (build target (ms.loadAll .empty loads') permissions removesVoid).value := by
  have hredirections : (ms.loadAll .empty loads).redirections =
      (ms.loadAll .empty loads').redirections :=
    Markers.redirections_loadAll_perm h .empty
  have hclasses : (ms.loadAll .empty loads).classes.Perm (ms.loadAll .empty loads').classes :=
    Markers.classes_loadAll_perm h .empty
  exact ⟨Markers.failedLoads_perm h .empty, hredirections,
    congrArg Logged.value (RedirectionTable.merge_congr hredirections), hclasses,
    fun _ _ _ => sameBehind_build hclasses hredirections⟩

end Release

namespace LibraryOrderSample

/-- Short markers. -/
def markers : Markers :=
  ⟨"LMarked;", "LReplaces;"⟩

/-- A library of one class that replaces a method, if the elements of its marker say so. -/
def library (name : String) (elements : List Element) : Program where
  apiLevel := 19
  classes := [{
    name := ⟨name⟩
    modifiers := [.public]
    source := none
    superclass := none
    interfaces := []
    annotations := [⟨.build, .object ⟨"Marked"⟩, []⟩]
    fields := []
    methods := [{
      name := "start"
      modifiers := [.public, .static]
      isConstructor := false
      proto := ⟨[.object ⟨"Sensor"⟩], .void⟩
      locals := some 0
      annotations := [⟨.build, .object ⟨"Replaces"⟩, elements⟩]
      body := [] }] }]

/-- The elements of a marker for a method of the class `Sensor`. -/
def elements : List Element :=
  [⟨"permission", .single "\"SENSE\""⟩, ⟨"defClass", .single "\"Sensor\""⟩]

/-- Two libraries that replace the same method, and behind them one that fails. -/
def loads : List (Program × PermissionSet) :=
  [(library "B" elements, .ofList ["SENSE"]), (library "A" elements, .ofList ["SENSE"]),
    (library "C" [], .ofList ["SENSE"])]

end LibraryOrderSample

open LibraryOrderSample in
/-- Where two libraries replace the same method, the one that is loaded last can be the one whose
replacement is kept, and it is kept in the opposite order too. -/
theorem Release.sameBehind_of_perm_sample :
    loads.Perm loads.reverse ∧
    (RedirectionTable.merge (markers.loadAll .empty loads)).value.get?
      ⟨"LSensor;", "start", ⟨[], .void⟩⟩ =
        some ⟨"LA;", "start", ⟨[.object ⟨"Sensor"⟩], .void⟩⟩ ∧
    (RedirectionTable.merge (markers.loadAll .empty loads)).value =
      (RedirectionTable.merge (markers.loadAll .empty loads.reverse)).value ∧
    (markers.failedLoads .empty loads).Perm (markers.failedLoads .empty loads.reverse) := by
  have h : loads.Perm loads.reverse := loads.reverse_perm.symm
  have hsame := Release.sameBehind_of_perm markers h
  exact ⟨h, by decide +kernel, hsame.2.2.1, hsame.1⟩

end GatedCalls
