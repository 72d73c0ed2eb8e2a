import GatedCalls.ClassDirectory.Walk
import GatedCalls.Proofs.Disk.Tree
import Mathlib.Data.String.Basic

/-!
# The walk through a tree

In a tree whose directories hold each name once, the walk finds each place that is picked once
(`mem_collect`), in the order of the places, name by name from the top down (`pairwise_collect`).
Both are by induction on the tree: what a directory contributes stands under the names of its
entries, these differ, and the walk visits them in order. Class files and directories are two things
to pick.
-/

namespace GatedCalls.Disk

/-- What is sorted by keys that differ has increasing keys. -/
theorem pairwise_lt_mergeSort {α κ : Type} [LinearOrder κ] {key : α → κ} {as : List α}
    (hnodup : (as.map key).Nodup) :
    (as.mergeSort fun a b => decide (key a ≤ key b)).Pairwise fun a b => key a < key b := by
  have hle : (as.mergeSort fun a b => decide (key a ≤ key b)).Pairwise
      fun a b => decide (key a ≤ key b) = true :=
    List.pairwise_mergeSort
      (fun a b c hab hbc => by
        simp only [decide_eq_true_eq] at *
        exact hab.trans hbc)
      (fun a b => by simpa using le_total (key a) (key b)) as
  have hne : ((as.mergeSort fun a b => decide (key a ≤ key b)).map key).Nodup :=
    ((List.mergeSort_perm as _).map key).nodup_iff.mpr hnodup
  refine hle.imp₂ (fun a b hab hne => ?_) (List.pairwise_map.mp hne)
  exact lt_of_le_of_ne (of_decide_eq_true hab) hne

/-- A list in a strict order is known by its members. -/
theorem eq_of_pairwise_lt {α : Type} [Preorder α] {as bs : List α} (has : as.Pairwise (· < ·))
    (hbs : bs.Pairwise (· < ·)) (hmem : ∀ a, a ∈ as ↔ a ∈ bs) : as = bs := by
  have hperm : as.Perm bs :=
    (List.perm_ext_iff_of_nodup (has.imp fun hab => hab.ne) (hbs.imp fun hab => hab.ne)).mpr hmem
  exact hperm.eq_of_pairwise (fun a b _ _ hab hba => absurd hba hab.asymm) has hbs

namespace Node

/-- Whether a class file stands at a place of a tree: a file with the name of one. -/
def HoldsClassFile (node : Node) (place : Location) : Prop :=
  (∃ content, node.kindAt? place = some (.file content)) ∧
    ∃ name ∈ place.getLast?, isClassFileName name = true

variable {pick : String → Node → Bool} {node : Node} {place : Location}

/-- The picked places that an entry of a directory contributes: its own, and those below it. -/
def collectEntry (pick : String → Node → Bool) (e : String × Node) : List Location :=
  (if pick e.1 e.2 then [[e.1]] else []) ++ (e.2.collect pick).map (e.1 :: ·)

/-- Each entry contributes on its own. -/
theorem collectEntries_eq_map (pick : String → Node → Bool) (es : Entries) :
    collectEntries pick es = es.map fun e => (e.1, collectEntry pick e) := by
  induction es with
  | nil => rw [collectEntries, List.map_nil]
  | cons e es ih => rw [collectEntries, ih, List.map_cons, collectEntry]

/-- What is put together are the contributions. -/
theorem mem_joinByName {found : List (String × List Location)} {place : Location} :
    place ∈ joinByName found ↔ ∃ e ∈ found, place ∈ e.2 := by
  simp [joinByName, List.mem_flatMap, List.mem_mergeSort]

/-- In a directory the places are found that its entries contribute. -/
theorem mem_collect_directory {es : Entries} :
    place ∈ (directory es).collect pick ↔ ∃ e ∈ es, place ∈ collectEntry pick e := by
  rw [collect, mem_joinByName, collectEntries_eq_map]
  simp

/-- An entry contributes its own place or one below it. -/
theorem mem_collectEntry {name : String} :
    place ∈ collectEntry pick (name, node) ↔
      ∃ rest, place = name :: rest ∧
        (rest = [] ∧ pick name node = true ∨ rest ∈ node.collect pick) := by
  rw [collectEntry, List.mem_append, List.mem_map]
  constructor
  · rintro (hown | ⟨rest, hrest, rfl⟩)
    · by_cases hpick : pick name node = true
      · exact ⟨[], by simpa [hpick] using hown, .inl ⟨rfl, hpick⟩⟩
      · simp [hpick] at hown
    · exact ⟨rest, rfl, .inr hrest⟩
  · rintro ⟨rest, rfl, ⟨rfl, hpick⟩ | hrest⟩
    · exact .inl (by simp [hpick])
    · exact .inr ⟨rest, hrest, rfl⟩

/-- The walk finds the places of a tree that are picked, and nothing else. -/
theorem mem_collect (h : node.NamesDiffer) :
    place ∈ node.collect pick ↔
      ∃ found, node.find? place = some found ∧ ∃ name ∈ place.getLast?, pick name found = true := by
  induction h generalizing place with
  | file content =>
    rw [collect]
    cases place <;> simp
  | directory es nodup inner ih =>
    rw [mem_collect_directory]
    constructor
    · rintro ⟨⟨name, node⟩, he, hplace⟩
      have hentry := (Entries.get?_eq_some nodup).mpr he
      obtain ⟨rest, rfl, ⟨rfl, hpick⟩ | hrest⟩ := mem_collectEntry.mp hplace
      · exact ⟨node, by simp [hentry], name, rfl, hpick⟩
      · obtain ⟨found, hfound, last, hlast, hpick⟩ := (ih _ he).mp hrest
        exact ⟨found, by simpa [hentry] using hfound, last,
          by simp [List.getLast?_cons, Option.mem_def.mp hlast], hpick⟩
    · rintro ⟨found, hfound, last, hlast, hpick⟩
      cases place with
      | nil => cases hlast
      | cons name rest =>
        rw [find?_directory_cons] at hfound
        obtain ⟨node, hentry, hfound⟩ := Option.bind_eq_some_iff.mp hfound
        refine ⟨(name, node), (Entries.get?_eq_some nodup).mp hentry, mem_collectEntry.mpr
          ⟨rest, rfl, ?_⟩⟩
        -- The place is that of the entry itself, or one below with the same last name.
        cases rest with
        | nil =>
          obtain rfl : name = last := by simpa using hlast
          obtain rfl : node = found := by simpa using hfound
          exact .inl ⟨rfl, hpick⟩
        | cons x rest =>
          exact .inr ((ih _ ((Entries.get?_eq_some nodup).mp hentry)).mpr
            ⟨found, hfound, last, by simpa using hlast, hpick⟩)

/-- What entries with different names contribute is put together in the order of the names. -/
theorem pairwise_joinByName {found : List (String × List Location)}
    (hnodup : (found.map (·.1)).Nodup)
    (hunder : ∀ e ∈ found, ∀ place ∈ e.2, ∃ rest, place = e.1 :: rest)
    (hsorted : ∀ e ∈ found, e.2.Pairwise (· < ·)) : (joinByName found).Pairwise (· < ·) := by
  have hperm := List.mergeSort_perm found fun a b => decide (a.1 ≤ b.1)
  rw [joinByName, List.pairwise_flatMap]
  refine ⟨fun e he => hsorted e (hperm.mem_iff.mp he), ?_⟩
  -- Places under different names are in the order of the names.
  refine (pairwise_lt_mergeSort hnodup).imp_of_mem fun {a b} ha hb hab x hx y hy => ?_
  obtain ⟨rest, rfl⟩ := hunder a (hperm.mem_iff.mp ha) x hx
  obtain ⟨rest', rfl⟩ := hunder b (hperm.mem_iff.mp hb) y hy
  exact List.cons_lt_cons_iff.mpr (.inl hab)

/-- The place of an entry comes before those below it, and these are in order. -/
theorem pairwise_collectEntry {e : String × Node} (h : (e.2.collect pick).Pairwise (· < ·))
    (hne : [] ∉ e.2.collect pick) : (collectEntry pick e).Pairwise (· < ·) := by
  have hbelow : ((e.2.collect pick).map (e.1 :: ·)).Pairwise (· < ·) :=
    h.map (e.1 :: ·) fun a b hab => List.cons_lt_cons_iff.mpr (.inr ⟨rfl, hab⟩)
  rw [collectEntry]
  refine List.pairwise_append.mpr ⟨by split <;> simp, hbelow, fun own hown below hbelow => ?_⟩
  obtain rfl : own = [e.1] := by
    split at hown
    · exact List.mem_singleton.mp hown
    · cases hown
  obtain ⟨rest, hrest, rfl⟩ := List.mem_map.mp hbelow
  obtain ⟨x, rest, rfl⟩ := List.exists_cons_of_ne_nil fun hnil => hne (hnil ▸ hrest)
  exact List.cons_lt_cons_iff.mpr (.inr ⟨rfl, List.nil_lt_cons x rest⟩)

/-- The walk finds places in their order, each once. -/
theorem pairwise_collect (h : node.NamesDiffer) : (node.collect pick).Pairwise (· < ·) := by
  induction h with
  | file content =>
    rw [collect]
    exact .nil
  | directory es nodup inner ih =>
    rw [collect, collectEntries_eq_map]
    refine pairwise_joinByName ?_ ?_ ?_
    · rwa [List.map_map]
    · intro f hf place hplace
      obtain ⟨e, -, rfl⟩ := List.mem_map.mp hf
      obtain ⟨rest, hrest, -⟩ := mem_collectEntry.mp hplace
      exact ⟨rest, hrest⟩
    · intro f hf
      obtain ⟨e, he, rfl⟩ := List.mem_map.mp hf
      refine pairwise_collectEntry (ih e he) fun hnil => ?_
      obtain ⟨-, -, name, hname, -⟩ := (mem_collect (inner e he)).mp hnil
      cases hname

/-- The walk finds the class files of a tree, and nothing else. -/
theorem mem_classFiles (h : node.NamesDiffer) :
    place ∈ node.classFiles ↔ node.HoldsClassFile place := by
  rw [classFiles, mem_collect h, HoldsClassFile]
  simp only [kindAt?_eq_file]
  constructor
  · rintro ⟨found, hfound, name, hname, hpick⟩
    obtain ⟨hfile, hclass⟩ := Bool.and_eq_true_iff.mp hpick
    cases found with
    | file content => exact ⟨⟨content, hfound⟩, name, hname, hclass⟩
    | directory es => cases hfile
  · rintro ⟨⟨content, hfound⟩, name, hname, hclass⟩
    exact ⟨_, hfound, name, hname, by simpa [isDirectory] using hclass⟩

/-- The walk finds the class files in the order of their places, each once. -/
theorem pairwise_classFiles (h : node.NamesDiffer) : node.classFiles.Pairwise (· < ·) :=
  pairwise_collect h

/-- The walk comes to the directories below the root of a tree, and to nothing else. -/
theorem mem_subdirectories (h : node.NamesDiffer) :
    place ∈ node.subdirectories ↔ place ≠ [] ∧ node.kindAt? place = some .directory := by
  rw [subdirectories, mem_collect h, kindAt?_eq_directory]
  constructor
  · rintro ⟨found, hfound, name, hname, hdirectory⟩
    cases found with
    | file content => cases hdirectory
    | directory es => exact ⟨List.ne_nil_of_mem (List.mem_of_getLast? hname), es, hfound⟩
  · rintro ⟨hne, es, hfound⟩
    exact ⟨_, hfound, place.getLast hne, List.getLast?_eq_some_getLast hne, rfl⟩

/-- A directory that holds only files has no directories below it. -/
theorem subdirectories_eq_nil {es : Entries} (h : ∀ e ∈ es, e.2.isDirectory = false) :
    (directory es).subdirectories = [] := by
  refine List.eq_nil_iff_forall_not_mem.mpr fun place hplace => ?_
  obtain ⟨⟨name, node⟩, he, hentry⟩ := mem_collect_directory.mp hplace
  obtain ⟨rest, -, ⟨-, hdirectory⟩ | hrest⟩ := mem_collectEntry.mp hentry
  · exact Bool.false_ne_true ((h _ he).symm.trans hdirectory)
  · cases node with
    | file content => rw [collect] at hrest; cases hrest
    | directory inner => cases h _ he

/-- The walk comes to the directories in the order of their places, to each once. -/
theorem pairwise_subdirectories (h : node.NamesDiffer) : node.subdirectories.Pairwise (· < ·) :=
  pairwise_collect h

end Node

end GatedCalls.Disk
