import GatedCalls.ClassDirectory.Basic
import GatedCalls.Proofs.Disk.Path
import GatedCalls.Proofs.Disk.Tree
import GatedCalls.Proofs.Text.Split
import Mathlib.Data.List.Induction

/-!
# Where classes stand

A class stands in a file whose place below the directory is made of the segments of its name, with
the ending of class files behind the last. Put together with slashes the names on the way to the
file are the name with the ending behind it (`intercalate_fileNames`). So files of classes with
different names stand at different places, and no file stands where a directory is needed for
another class, unless the name of that class begins with that of the first, the ending and a slash.
What then stands below the directory after all classes are written is `laidOut`, which writing one
class after the other amounts to: no class is overwritten, and nothing else is there.
-/

namespace GatedCalls

open Disk (Kind Location Path)

namespace ClassDef

/-- The names of the directories on the way to the file of a class. -/
def packages (c : ClassDef) : List String :=
  (Text.splitOf '/' c.name.path).dropLast

/-- The names on the way to the file of a class, that of the file last. -/
def fileNames (c : ClassDef) : List String :=
  c.packages ++ [(Text.splitOf '/' c.name.path).getLastD "" ++ classFileEnding]

/-- Whether each segment of the name of a class can be the name of a directory. -/
def IsPlaceable (c : ClassDef) : Prop :=
  ∀ s ∈ Text.splitOf '/' c.name.path, s ≠ "" ∧ s ≠ "." ∧ s ≠ ".."

instance (c : ClassDef) : Decidable c.IsPlaceable :=
  inferInstanceAs (Decidable (∀ s ∈ Text.splitOf '/' c.name.path, s ≠ "" ∧ s ≠ "." ∧ s ≠ ".."))

variable {c c' : ClassDef}

/-- The directory and the file of a class are found by the names on the way. -/
theorem place_eq (c : ClassDef) (directory : Path) :
    c.place directory = (directory.join c.packages, directory.join c.fileNames) := by
  rw [fileNames, Path.join_append]
  rfl

/-- The segments of a name are those of the packages and one more. -/
theorem exists_splitOf_eq (c : ClassDef) :
    ∃ last, Text.splitOf '/' c.name.path = c.packages ++ [last] ∧
      c.fileNames = c.packages ++ [last ++ classFileEnding] := by
  have hne := Text.splitOf_ne_nil '/' c.name.path
  refine ⟨(Text.splitOf '/' c.name.path).getLast hne, (List.dropLast_append_getLast hne).symm, ?_⟩
  rw [fileNames, List.getLastD_eq_getLast?, List.getLast?_eq_some_getLast hne, Option.getD_some]

/-- There is no file without a name. -/
theorem fileNames_ne_nil (c : ClassDef) : c.fileNames ≠ [] := by
  simp [fileNames]

/-- Put together, the names on the way to a file are the name of the class, with the ending. -/
theorem intercalate_fileNames (c : ClassDef) :
    ['/'].intercalate (c.fileNames.map String.toList) =
      c.name.path.toList ++ classFileEnding.toList := by
  obtain ⟨last, hsegments, hfile⟩ := c.exists_splitOf_eq
  have hname := Text.intercalate_splitOf '/' c.name.path
  rw [hsegments, List.map_append, List.map_singleton] at hname
  rw [hfile, List.map_append, List.map_singleton, String.toList_append,
    Text.intercalate_concat_append, hname]

/-- The place of a file tells the name of its class. -/
theorem name_eq_of_fileNames (h : c.fileNames = c'.fileNames) : c.name = c'.name := by
  have hpaths : c.name.path.toList = c'.name.path.toList := by
    have hjoined := c.intercalate_fileNames
    rw [h, c'.intercalate_fileNames] at hjoined
    exact (List.append_cancel_right hjoined).symm
  obtain ⟨⟨path⟩⟩ := c
  obtain ⟨⟨path'⟩⟩ := c'
  exact congrArg ClassName.mk (String.toList_inj.mp hpaths)

/-- Where a file stands on the way to that of another class, the name of this class begins with that
of the first, the ending and a slash. -/
theorem isPrefix_of_fileNames (h : c.fileNames <+: c'.packages) :
    (c.name.path ++ classFileEnding ++ "/").toList <+: c'.name.path.toList := by
  obtain ⟨last, hsegments, -⟩ := c'.exists_splitOf_eq
  obtain ⟨rest, hrest⟩ := h
  have hname := Text.intercalate_splitOf '/' c'.name.path
  rw [hsegments, ← hrest, List.append_assoc, List.map_append,
    Text.intercalate_append ['/'] (by simpa using c.fileNames_ne_nil) (by simp),
    c.intercalate_fileNames] at hname
  exact ⟨_, by rw [String.toList_append, String.toList_append]; exact hname⟩

/-- Where the name of a class begins with that of another one, the ending and a slash, the file of
the latter stands on the way to that of the former. -/
theorem fileNames_isPrefix_of
    (h : (c.name.path ++ classFileEnding ++ "/").toList <+: c'.name.path.toList) :
    c.fileNames <+: c'.packages := by
  obtain ⟨rest, hrest⟩ := h
  obtain ⟨last, hsegments, hfile⟩ := c.exists_splitOf_eq
  have hpieces : Text.splitAt '/' c.name.path.toList =
      c.packages.map String.toList ++ [last.toList] := by
    have hlists := congrArg (List.map String.toList) hsegments
    simpa [Text.splitOf, Function.comp_def] using hlists
  have hlonger : Text.splitAt '/' (c.name.path.toList ++ classFileEnding.toList) =
      c.packages.map String.toList ++ [last.toList ++ classFileEnding.toList] :=
    Text.splitAt_append_of_not_mem (by decide) hpieces
  have hname : c'.name.path.toList =
      c.name.path.toList ++ classFileEnding.toList ++ '/' :: rest := by
    rw [← hrest]
    simp
  -- The rest of the name has a last piece, which belongs to the file of the longer name.
  have hsplit : Text.splitOf '/' c'.name.path =
      c.fileNames ++ (Text.splitAt '/' rest).map String.ofList := by
    rw [Text.splitOf, hname, Text.splitAt_append_cons, hlonger, List.map_append, hfile]
    simp [Function.comp_def, ← String.toList_append]
  rw [packages, hsplit, List.dropLast_append_of_ne_nil (by simp [Text.splitAt_ne_nil])]
  exact List.prefix_append _ _

/-- The name of a file with the ending is that of a class file. -/
theorem isClassFileName_append {last : String} (h : last ≠ "") :
    isClassFileName (last ++ classFileEnding) = true := by
  have hne : last ++ classFileEnding ≠ classFileEnding := by
    intro heq
    have hlist := congrArg String.toList heq
    rw [String.toList_append, List.append_left_eq_self] at hlist
    exact h (String.toList_eq_nil_iff.mp hlist)
  simp [isClassFileName, hne]

/-- What ends with the ending of class files is no segment that leads elsewhere. -/
theorem append_classFileEnding_ne (last : String) :
    last ++ classFileEnding ≠ "" ∧ last ++ classFileEnding ≠ "." ∧
      last ++ classFileEnding ≠ ".." := by
  refine ⟨?_, ?_, ?_⟩ <;>
  · intro heq
    have hlength := congrArg (·.toList.length) heq
    simp [classFileEnding] at hlength

namespace IsPlaceable

/-- The directories of a class that can be placed have names that can be followed. -/
theorem packages (h : c.IsPlaceable) : ∀ s ∈ c.packages, s ≠ "" ∧ s ≠ "." ∧ s ≠ ".." :=
  fun s hs => h s (List.dropLast_subset _ hs)

/-- A class that can be placed has names on the way that can be followed. -/
theorem fileNames (h : c.IsPlaceable) : ∀ s ∈ c.fileNames, s ≠ "" ∧ s ≠ "." ∧ s ≠ ".." := by
  intro s hs
  obtain hs | hs := List.mem_append.mp hs
  · exact h.packages s hs
  · rw [List.mem_singleton.mp hs]
    exact append_classFileEnding_ne _

/-- A class that can be placed stands in a class file. -/
theorem isClassFileName_getLast? (h : c.IsPlaceable) :
    ∃ name ∈ c.fileNames.getLast?, isClassFileName name = true := by
  obtain ⟨last, hsegments, hfile⟩ := c.exists_splitOf_eq
  have hlast : last ≠ "" := (h last (by rw [hsegments]; simp)).1
  exact ⟨last ++ classFileEnding, by rw [hfile]; simp, isClassFileName_append hlast⟩

end IsPlaceable

/-- Whether classes can be kept in one directory: their names differ, each can be placed, and none
is in the way of another. -/
structure Storable (classes : List ClassDef) : Prop where
  /-- The names differ. -/
  nodup : (classes.map (·.name)).Nodup
  /-- Each segment of a name can be the name of a directory. -/
  placeable : ∀ c ∈ classes, c.IsPlaceable
  /-- The file of no class stands where another one has a directory. -/
  apart : ∀ c ∈ classes, ∀ c' ∈ classes,
    ¬(c.name.path ++ classFileEnding ++ "/").toList <+: c'.name.path.toList

/-- What stands below a directory after the classes have been written to it one after the other. -/
def laidOut (classes : List ClassDef) : Location → Option Kind :=
  classes.foldl
    (fun kinds c rest =>
      if rest = c.fileNames then some (.file c.print.toUTF8)
      else if rest <+: c.packages then some .directory
      else kinds rest)
    fun rest => if rest = [] then some .directory else none

variable {classes : List ClassDef} {rest : Location} {content : ByteArray}

/-- Before any class is written the directory is empty. -/
theorem laidOut_nil (rest : Location) :
    laidOut [] rest = if rest = [] then some .directory else none :=
  rfl

/-- One more class is written. -/
theorem laidOut_concat (classes : List ClassDef) (c : ClassDef) (rest : Location) :
    laidOut (classes ++ [c]) rest =
      if rest = c.fileNames then some (.file c.print.toUTF8)
      else if rest <+: c.packages then some .directory
      else laidOut classes rest := by
  rw [laidOut, List.foldl_append]
  rfl

/-- The directory itself is there. -/
theorem laidOut_root (classes : List ClassDef) : laidOut classes [] = some .directory := by
  induction classes using List.reverseRecOn with
  | nil => rfl
  | append_singleton classes c ih =>
    rw [laidOut_concat, if_neg c.fileNames_ne_nil.symm, if_pos List.nil_prefix]

/-- A file that is there is that of a class. -/
theorem exists_of_laidOut_file (h : laidOut classes rest = some (.file content)) :
    ∃ c ∈ classes, rest = c.fileNames ∧ content = c.print.toUTF8 := by
  induction classes using List.reverseRecOn with
  | nil =>
    rw [laidOut_nil] at h
    split at h <;> cases h
  | append_singleton classes c ih =>
    rw [laidOut_concat] at h
    split at h
    · next hrest =>
      cases h
      exact ⟨c, by simp, hrest, rfl⟩
    split at h
    · cases h
    · obtain ⟨c', hc', hfile⟩ := ih h
      exact ⟨c', List.mem_append_left _ hc', hfile⟩

/-- A directory that is there is the whole one, or on the way to the file of a class. -/
theorem exists_of_laidOut_directory (h : laidOut classes rest = some .directory) :
    rest = [] ∨ ∃ c ∈ classes, rest <+: c.packages := by
  induction classes using List.reverseRecOn with
  | nil =>
    rw [laidOut_nil] at h
    split at h
    · next hrest => exact .inl hrest
    · cases h
  | append_singleton classes c ih =>
    rw [laidOut_concat] at h
    split at h
    · cases h
    split at h
    · next hrest => exact .inr ⟨c, by simp, hrest⟩
    · refine (ih h).imp_right ?_
      rintro ⟨c', hc', hrest⟩
      exact ⟨c', List.mem_append_left _ hc', hrest⟩

namespace Storable

/-- Of classes that can be kept together, those at the beginning can. -/
theorem of_append {classes' : List ClassDef} (h : Storable (classes ++ classes')) :
    Storable classes where
  nodup := by
    have hnodup := h.nodup
    rw [List.map_append] at hnodup
    exact (List.nodup_append.mp hnodup).1
  placeable c hc := h.placeable c (List.mem_append_left _ hc)
  apart c hc c' hc' := h.apart c (List.mem_append_left _ hc) c' (List.mem_append_left _ hc')

/-- One more class can be kept with the others if it can be placed, has a name of its own, and its
file is not on the way to a class of theirs, nor a file of theirs on the way to it. -/
theorem concat (h : Storable classes) {c : ClassDef} (hplaceable : c.IsPlaceable)
    (hname : c.name ∉ classes.map (·.name))
    (hto : ∀ c' ∈ classes,
      ¬(c'.name.path ++ classFileEnding ++ "/").toList <+: c.name.path.toList)
    (hfrom : ∀ c' ∈ classes,
      ¬(c.name.path ++ classFileEnding ++ "/").toList <+: c'.name.path.toList) :
    Storable (classes ++ [c]) where
  nodup := by
    rw [List.map_append, List.map_singleton, List.nodup_append]
    refine ⟨h.nodup, by simp, fun x hx y hy heq => hname ?_⟩
    exact List.mem_singleton.mp hy ▸ heq ▸ hx
  placeable c' hc' := by
    obtain hc' | hc' := List.mem_append.mp hc'
    · exact h.placeable c' hc'
    · exact List.mem_singleton.mp hc' ▸ hplaceable
  apart c₁ h₁ c₂ h₂ := by
    rw [List.mem_append, List.mem_singleton] at h₁ h₂
    obtain h₁ | rfl := h₁ <;> obtain h₂ | rfl := h₂
    · exact h.apart c₁ h₁ c₂ h₂
    · exact hto c₁ h₁
    · exact hfrom c₂ h₂
    · -- The file of a class is longer than its name.
      intro hbegin
      have hlength := hbegin.length_le
      simp only [String.toList_append, List.length_append] at hlength
      have hpositive : 0 < classFileEnding.toList.length := by decide
      omega

/-- No file stands on the way to another. -/
theorem not_isPrefix_packages (h : Storable classes) (hc : c ∈ classes) (hc' : c' ∈ classes) :
    ¬c.fileNames <+: c'.packages :=
  fun hbegin => h.apart c hc c' hc' (isPrefix_of_fileNames hbegin)

/-- Different classes have different files. -/
theorem nodup_fileNames (h : Storable classes) : (classes.map (·.fileNames)).Nodup := by
  have hnames := List.pairwise_map.mp h.nodup
  exact List.pairwise_map.mpr (hnames.imp fun hne heq => hne (name_eq_of_fileNames heq))

/-- The file of each class is there in the end. -/
theorem laidOut_fileNames (h : Storable classes) (hc : c ∈ classes) :
    laidOut classes c.fileNames = some (.file c.print.toUTF8) := by
  induction classes using List.reverseRecOn with
  | nil => cases hc
  | append_singleton classes last ih =>
    have hlast : last ∈ classes ++ [last] := by simp
    rw [laidOut_concat]
    obtain hc' | hc' := List.mem_append.mp hc
    · -- What is written last is neither at the place of the file nor on the way to it.
      have hfiles : c.fileNames ≠ last.fileNames := by
        have hnodup := h.nodup_fileNames
        rw [List.map_append, List.nodup_append] at hnodup
        exact hnodup.2.2 _ (List.mem_map_of_mem hc') _ (by simp)
      rw [if_neg hfiles, if_neg (h.not_isPrefix_packages hc hlast), ih h.of_append hc']
    · rw [List.mem_singleton.mp hc', if_pos rfl]

/-- The directories on the way to each file are there in the end. -/
theorem laidOut_packages (h : Storable classes) (hc : c ∈ classes) (hrest : rest <+: c.packages) :
    laidOut classes rest = some .directory := by
  induction classes using List.reverseRecOn with
  | nil => cases hc
  | append_singleton classes last ih =>
    have hfile : rest ≠ last.fileNames := by
      rintro rfl
      exact h.not_isPrefix_packages (by simp) hc hrest
    rw [laidOut_concat, if_neg hfile]
    split
    · rfl
    · next hlast =>
      obtain hc' | hc' := List.mem_append.mp hc
      · exact ih h.of_append hc'
      · exact absurd (List.mem_singleton.mp hc' ▸ hrest) hlast

/-- In the end exactly the files of the classes are there. -/
theorem laidOut_eq_file (h : Storable classes) :
    laidOut classes rest = some (.file content) ↔
      ∃ c ∈ classes, rest = c.fileNames ∧ content = c.print.toUTF8 := by
  refine ⟨exists_of_laidOut_file, ?_⟩
  rintro ⟨c, hc, rfl, rfl⟩
  exact h.laidOut_fileNames hc

end Storable

end ClassDef

end GatedCalls
