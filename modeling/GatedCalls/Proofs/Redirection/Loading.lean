import GatedCalls.Proofs.Redirection.Conflict
import GatedCalls.Proofs.Redirection.Library
import Mathlib.Data.List.Perm.Subperm

/-!
# Loads add exactly what markers say

A load that succeeds adds exactly the contributions of the library to what is known, and ships the
offered classes behind those that are there (`Markers.load_adds_exactly`). No redirection is lost by
that, so the growth that is reported is the difference of two counts that does not go below zero.
-/

namespace GatedCalls

namespace Replacements

/-! ### How many redirections there are -/

/-- The redirections are counted by their entries. -/
theorem redirectionCount_eq_length (rs : Replacements) :
    rs.redirectionCount = rs.entries.length := by
  rw [redirectionCount, Std.ExtTreeMap.foldl_eq_foldl_toList, entries, List.length_flatMap,
    List.sum_eq_foldl, List.foldl_map]
  simp

/-- No entry stands there twice. -/
theorem nodup_entries (rs : Replacements) : rs.entries.Nodup :=
  rs.pairwise_entries.imp fun {e e'} hahead heq => by
    subst heq
    exact isAhead_asymm e e hahead hahead

/-- Where no redirection is lost there are not fewer of them. -/
theorem redirectionCount_le {rs rs' : Replacements}
    (h : ∀ permission, ∀ x ∈ rs.redirectionsFor permission, x ∈ rs'.redirectionsFor permission) :
    rs.redirectionCount ≤ rs'.redirectionCount := by
  rw [redirectionCount_eq_length, redirectionCount_eq_length]
  refine (List.subperm_of_subset rs.nodup_entries fun e he => ?_).length_le
  exact mem_entries.mpr (h e.1 e.2 (mem_entries.mp he))

end Replacements

namespace Markers

variable {ms : Markers} {p : Program} {requested : PermissionSet}

/-- The offered classes of a library are its classes with the class marker that are public. -/
theorem offeredClasses_eq (ms : Markers) (p : Program) :
    ms.offeredClasses p = p.classes.filter fun c =>
      c.annotations.any (·.hasType ms.classMarker) && c.isPublic := by
  rw [offeredClasses, markedClasses, List.filter_filter]
  exact List.filter_congr fun c _ => Bool.and_comm ..

/-- The last report of a load that succeeds tells how many classes and redirections have come to
what was known. -/
theorem getLast?_log_load {known loaded : Replacements}
    (h : (ms.load p requested known).value = .ok loaded) :
    (ms.load p requested known).log.getLast? = some ⟨.info, .library,
      "Loaded " ++ toString (ms.offeredClasses p).length ++ " custom classes and " ++
        toString (loaded.redirectionCount - known.redirectionCount) ++ " redirections"⟩ := by
  obtain ⟨decoded, hdecode, rfl⟩ := exists_decoded_of_load h
  rw [load, hdecode, ← addSelected_eq]
  exact List.getLast?_concat

/-- A load adds exactly what the markers of the library say. For each permission the redirections
are those that were known and the contributions of the library; a permission is there only if it was
or has a contribution. The offered classes come behind those that are shipped already, in the order
of the library, whether or not a method of theirs contributes. No redirection is lost, and the last
report tells by how many they have grown. -/
theorem load_adds_exactly {known loaded : Replacements}
    (h : (ms.load p requested known).value = .ok loaded) :
    (∀ permission x, x ∈ loaded.redirectionsFor permission ↔
      x ∈ known.redirectionsFor permission ∨ ms.Contributes p requested permission x) ∧
    (∀ permission, permission ∈ loaded.redirections ↔
      permission ∈ known.redirections ∨ ∃ x, ms.Contributes p requested permission x) ∧
    loaded.classes = known.classes ++ p.classes.filter (fun c =>
      c.annotations.any (·.hasType ms.classMarker) && c.isPublic) ∧
    ∃ added, loaded.redirectionCount = known.redirectionCount + added ∧
      (ms.load p requested known).log.getLast? = some ⟨.info, .library,
        "Loaded " ++ toString (loaded.classes.length - known.classes.length) ++
          " custom classes and " ++ toString added ++ " redirections"⟩ := by
  have hlast := getLast?_log_load h
  obtain ⟨decoded, hdecode, rfl⟩ := exists_decoded_of_load h
  have hredirections : ∀ permission x,
      x ∈ ((known.addAll (selected requested decoded)).addClasses (ms.offeredClasses p)).redirectionsFor
        permission ↔
      x ∈ known.redirectionsFor permission ∨ ms.Contributes p requested permission x := by
    intro permission x
    rw [contributes_iff hdecode]
    exact Replacements.mem_redirectionsFor_addAll
  have hclasses :
      ((known.addAll (selected requested decoded)).addClasses (ms.offeredClasses p)).classes =
      known.classes ++ ms.offeredClasses p := by
    rw [Replacements.addClasses, Replacements.classes_addAll]
  refine ⟨hredirections, fun permission => ?_, offeredClasses_eq ms p ▸ hclasses, ?_⟩
  · simp only [contributes_iff hdecode]
    exact Replacements.mem_redirections_addAll
  · have hcount : known.redirectionCount ≤
        ((known.addAll (selected requested decoded)).addClasses
          (ms.offeredClasses p)).redirectionCount :=
      Replacements.redirectionCount_le fun permission x hx =>
        (hredirections permission x).mpr (.inl hx)
    refine ⟨_, (Nat.add_sub_of_le hcount).symm, ?_⟩
    rw [hlast, hclasses, List.length_append, Nat.add_sub_cancel_left]

end Markers

namespace LoadingSample

/-- Short markers. -/
def markers : Markers :=
  ⟨"LMarked;", "LReplaces;"⟩

/-- A method that replaces one of the class `Sensor`, for a permission. -/
def method (name permission : String) : Method where
  name := name
  modifiers := [.public, .static]
  isConstructor := false
  proto := ⟨[.object ⟨"Sensor"⟩, .primitive .int], .void⟩
  locals := some 0
  annotations := [⟨.build, .object ⟨"Replaces"⟩,
    [⟨"permission", .single ("\"" ++ permission ++ "\"")⟩, ⟨"defClass", .single "\"Sensor\""⟩]⟩]
  body := []

/-- A class that offers two methods. -/
def offering : ClassDef where
  name := ⟨"Stub"⟩
  modifiers := [.public]
  source := none
  superclass := none
  interfaces := []
  annotations := [⟨.build, .object ⟨"Marked"⟩, []⟩]
  fields := []
  methods := [method "start" "SENSE", method "stop" "CALL"]

/-- A library of the class that offers two methods and of one without a marker. -/
def library : Program :=
  ⟨[{ offering with annotations := [] }, offering], 19⟩

/-- Both methods are decoded. -/
theorem decodeAll_library : markers.decodeAll library =
    .ok (["SENSE", "CALL"].zip offering.methods |>.map fun (permission, m) =>
      (⟨offering, m, (m.annotations[0]?).getD default⟩, ⟨permission, .object ⟨"Sensor"⟩⟩)) := by
  cbv

/-- The library is loaded where nothing is known. -/
theorem load_library : ∃ loaded,
    (markers.load library (.ofList ["SENSE"]) .empty).value = .ok loaded := by
  rw [Markers.load, decodeAll_library]
  exact ⟨_, rfl⟩

/-- Of the two methods that are offered the first one comes to be called, as only its permission is
requested, and their class is shipped. -/
theorem load_adds_exactly_library : ∃ loaded,
    (markers.load library (.ofList ["SENSE"]) .empty).value = .ok loaded ∧
    (∃ x ∈ loaded.redirectionsFor "SENSE", x.callee.text = "LSensor;->start(I)V" ∧
      x.replacement.text = "LStub;->start(LSensor;I)V") ∧
    "CALL" ∉ loaded.redirections ∧ loaded.classes = [offering] := by
  obtain ⟨loaded, h⟩ := load_library
  obtain ⟨hredirections, hpermissions, hclasses, -⟩ := Markers.load_adds_exactly h
  refine ⟨loaded, h, ⟨⟨⟨"LSensor;", "start", ⟨[.primitive .int], .void⟩⟩,
    ⟨"LStub;", "start", ⟨[.object ⟨"Sensor"⟩, .primitive .int], .void⟩⟩⟩, ?_, by decide, by decide⟩,
    ?_, hclasses.trans (by cbv)⟩
  · refine (hredirections _ _).mpr (.inr ⟨offering, by simp [library], method "start" "SENSE",
      by simp [offering], _, .object ⟨"Sensor"⟩, [.primitive .int],
      ⟨by cbv, by decide, by decide, by decide, rfl⟩, by cbv, by simp, rfl, rfl, rfl⟩)
  · rw [hpermissions]
    rintro (hknown | ⟨x, -, -, -, -, marker, receiver, rest, -, -, hrequested, -⟩)
    · simp [Replacements.empty] at hknown
    · simp at hrequested

end LoadingSample

end GatedCalls
