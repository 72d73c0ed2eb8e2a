import GatedCalls.Proofs.Program
import GatedCalls.Proofs.Resolution.Plain
import GatedCalls.Resolution.Release
import Mathlib.Data.List.Nodup

/-!
# A release is refused for its names only

The names of a release are checked twice: before the resolution, those of the replacement classes
against those of the application, and behind it all of them. Since a resolution keeps the names, the
two checks together pass exactly if the names of the replacement classes and of the application all
differ, and what they report is a name that is there more than once (`build_cases`).
-/

namespace GatedCalls

/-- What is found stands in the list, and further ahead in it or among what has been seen. -/
theorem ClassName.firstRepeatedFrom?_eq_some {seen : Std.ExtTreeSet ClassName}
    {cs : List ClassName} {c : ClassName} (h : firstRepeatedFrom? seen cs = some c) :
    c ∈ cs ∧ (c ∈ seen ∨ 2 ≤ cs.count c) := by
  induction cs generalizing seen with
  | nil => cases h
  | cons d ds ih =>
    unfold firstRepeatedFrom? at h
    split at h
    case isTrue hseen =>
      obtain rfl : d = c := by simpa using h
      exact ⟨List.mem_cons_self, .inl hseen⟩
    case isFalse hseen =>
      obtain ⟨hmem, hfound⟩ := ih h
      refine ⟨List.mem_cons_of_mem d hmem, ?_⟩
      obtain hin | htwice := hfound
      · obtain heq | hin := Std.ExtTreeSet.mem_insert.mp hin
        -- The head is the one that is found again.
        · obtain rfl : d = c := Std.LawfulEqOrd.eq_of_compare heq
          have hone : 0 < ds.count d := List.count_pos_iff.mpr hmem
          exact .inr (by rw [List.count_cons_self]; omega)
        · exact .inl hin
      · exact .inr (Nat.le_trans htwice List.count_le_count_cons)

/-- A repeated name stands in the list more than once. -/
theorem ClassName.two_le_count_of_firstRepeated? {cs : List ClassName} {c : ClassName}
    (h : firstRepeated? cs = some c) : 2 ≤ cs.count c := by
  obtain ⟨-, hseen | htwice⟩ := firstRepeatedFrom?_eq_some h
  · exact absurd hseen Std.ExtTreeSet.not_mem_empty
  · exact htwice

/-- A resolution keeps the names of the classes. -/
theorem Resolver.names_resolve (r : Resolver) (p : Program) :
    (r.resolve p).value.program.names = p.names := by
  rw [r.program_resolve, resolvedPlainly, Program.names, List.map_map]
  rfl

namespace Release

variable {target : Program} {rs : Replacements}

/-- A replacement class that clashes has the name of a class of the application. -/
theorem clash?_eq_some {c : ClassDef} (h : clash? rs target = some c) :
    c ∈ rs.classes ∧ c.name ∈ target.names := by
  have htaken := List.find?_some h
  exact ⟨List.mem_of_find?_eq_some h, by simpa [Std.ExtTreeSet.contains_ofList] using htaken⟩

/-- The names that meet in a release: those of the replacement classes, and those of the application
behind them. -/
def allNames (target : Program) (rs : Replacements) : List ClassName :=
  rs.classes.map (·.name) ++ target.names

/-- The release of an application, if it is not refused. -/
def assembled (target : Program) (rs : Replacements) (permissions : PermissionTable)
    (removesVoid : Bool) : Release :=
  let resolution := (Resolver.resolve
    ⟨permissions, (RedirectionTable.merge rs).value, removesVoid⟩ target).value
  ⟨⟨rs.classes ++ resolution.program.classes, resolution.program.apiLevel⟩, resolution.tally⟩

/-- The names of an assembled release. -/
theorem names_assembled (target : Program) (rs : Replacements) (permissions : PermissionTable)
    (removesVoid : Bool) :
    (assembled target rs permissions removesVoid).program.names = allNames target rs := by
  rw [assembled, Program.names, List.map_append, allNames]
  exact congrArg (rs.classes.map (·.name) ++ ·) (Resolver.names_resolve _ target)

/-- A release is assembled if all names differ, and refused because of a repeated one else. -/
theorem build_cases (target : Program) (rs : Replacements) (permissions : PermissionTable)
    (removesVoid : Bool) :
    ((allNames target rs).Nodup ∧
      (build target rs permissions removesVoid).value =
        .ok (assembled target rs permissions removesVoid)) ∨
    ∃ c f, 2 ≤ (allNames target rs).count c ∧
      (f = (Cause.replacementClash c).failure ∨ f = (Cause.duplicateClass c).failure) ∧
      (build target rs permissions removesVoid).value = .error f := by
  unfold build
  cases hclash : clash? rs target with
  | some c =>
    obtain ⟨hshipped, htarget⟩ := clash?_eq_some hclash
    have hfront : 0 < (rs.classes.map (·.name)).count c.name :=
      List.count_pos_iff.mpr (List.mem_map_of_mem hshipped)
    have hbehind : 0 < target.names.count c.name := List.count_pos_iff.mpr htarget
    refine .inr ⟨c.name, _, ?_, .inl rfl, rfl⟩
    rw [allNames, List.count_append]
    omega
  | none =>
    have hnames := names_assembled target rs permissions removesVoid
    cases hrepeated : ClassName.firstRepeated? (allNames target rs) with
    | none =>
      have hnodup := ClassName.firstRepeated?_eq_none.mp hrepeated
      have hcheck : (assembled target rs permissions removesVoid).program.checkUnique = .ok () :=
        Program.checkUnique_eq_ok.mpr (hnames ▸ hnodup)
      exact .inl ⟨hnodup,
        congrArg (Except.map fun _ => assembled target rs permissions removesVoid) hcheck⟩
    | some c =>
      have hcheck : (assembled target rs permissions removesVoid).program.checkUnique =
          .error (Cause.duplicateClass c).failure := by
        rw [Program.checkUnique, hnames, hrepeated]
      exact .inr ⟨c, _, ClassName.two_le_count_of_firstRepeated? hrepeated, .inr rfl,
        congrArg (Except.map fun _ => assembled target rs permissions removesVoid) hcheck⟩

/-- Names of which one is there more than once do not all differ. -/
theorem not_nodup_of_two_le_count {cs : List ClassName} {c : ClassName} (h : 2 ≤ cs.count c) :
    ¬cs.Nodup := by
  intro hnodup
  have hone := List.nodup_iff_count_le_one.mp hnodup c
  omega

/-- A release is put together exactly and refused for its names only. It is built if and only if the
names of the replacement classes and of the application all differ. It then consists of the
replacement classes as they are, in order, and of the classes of the application with its calls
resolved by the merged redirections, for the level of the application and with the counters of that
resolution. A refusal names a class that is there more than once. -/
theorem build_exact (target : Program) (rs : Replacements) (permissions : PermissionTable)
    (removesVoid : Bool) :
    let resolution := (Resolver.resolve
      ⟨permissions, (RedirectionTable.merge rs).value, removesVoid⟩ target).value
    ((∃ release, (build target rs permissions removesVoid).value = .ok release) ↔
      (rs.classes.map (·.name) ++ target.classes.map (·.name)).Nodup) ∧
    (∀ release, (build target rs permissions removesVoid).value = .ok release →
      release = ⟨⟨rs.classes ++ resolution.program.classes, target.apiLevel⟩, resolution.tally⟩) ∧
    (∀ f, (build target rs permissions removesVoid).value = .error f →
      ∃ c, (f = (Cause.replacementClash c).failure ∨ f = (Cause.duplicateClass c).failure) ∧
        2 ≤ (rs.classes.map (·.name) ++ target.classes.map (·.name)).count c) := by
  intro resolution
  have hlevel : resolution.program.apiLevel = target.apiLevel := by
    rw [Resolver.program_resolve]
    rfl
  obtain ⟨hnodup, hok⟩ | ⟨c, f, htwice, hf, herror⟩ :=
    build_cases target rs permissions removesVoid
  · refine ⟨iff_of_true ⟨_, hok⟩ hnodup, ?_, ?_⟩
    · intro release hrelease
      rw [← Except.ok.inj (hok.symm.trans hrelease), assembled, ← hlevel]
    · intro f hrefused
      cases hok.symm.trans hrefused
  · refine ⟨iff_of_false ?_ (not_nodup_of_two_le_count htwice), ?_, ?_⟩
    · rintro ⟨release, hrelease⟩
      cases herror.symm.trans hrelease
    · intro release hrelease
      cases herror.symm.trans hrelease
    · intro f' hrefused
      obtain rfl := Except.error.inj (herror.symm.trans hrefused)
      exact ⟨c, hf, htwice⟩

end Release

end GatedCalls
