import GatedCalls.Proofs.ClassDirectory.Finding
import GatedCalls.Proofs.ClassDirectory.Writing
import GatedCalls.Proofs.Smali.Class

/-!
# Reading back what was written

The walk through a directory in which classes are laid out finds their files, in order
(`classFiles_eq`), and each file is read as the class that was written to it. So a program that is
written to a directory is read from it with the same classes, sorted by their files (`read_write`).
-/

namespace GatedCalls

open Disk (Kind Location Node Path)

namespace ClassDirectory

open ClassDef (Storable laidOut)

variable {d : Disk} {goal staging : Path} {classes : List ClassDef}

/-- Classes in the order in which they are found in a directory. -/
def sortedByFile (classes : List ClassDef) : List ClassDef :=
  classes.mergeSort fun a b => decide (a.fileNames ≤ b.fileNames)

/-- Sorting keeps the classes. -/
theorem sortedByFile_perm (classes : List ClassDef) : (sortedByFile classes).Perm classes :=
  List.mergeSort_perm ..

/-- Classes that can be kept in one directory are sorted strictly. -/
theorem pairwise_sortedByFile (h : Storable classes) :
    (sortedByFile classes).Pairwise fun a b => a.fileNames < b.fileNames :=
  Disk.pairwise_lt_mergeSort h.nodup_fileNames

/-- The class files of a tree in which classes are laid out are the files of these classes. -/
theorem classFiles_eq {node : Node} (hnames : node.NamesDiffer) (hstorable : Storable classes)
    (hheld : ∀ rest, node.kindAt? rest = laidOut classes rest) :
    node.classFiles = (sortedByFile classes).map (·.fileNames) := by
  refine Disk.eq_of_pairwise_lt (Node.pairwise_classFiles hnames)
    (List.pairwise_map.mpr (pairwise_sortedByFile hstorable)) fun place => ?_
  rw [Node.mem_classFiles hnames, Node.HoldsClassFile, hheld, List.mem_map]
  constructor
  · rintro ⟨⟨content, hfile⟩, -⟩
    obtain ⟨c, hc, rfl, -⟩ := hstorable.laidOut_eq_file.mp hfile
    exact ⟨c, (sortedByFile_perm classes).mem_iff.mpr hc, rfl⟩
  · rintro ⟨c, hc, rfl⟩
    have hmem := (sortedByFile_perm classes).mem_iff.mp hc
    exact ⟨⟨_, hstorable.laidOut_fileNames hmem⟩,
      (hstorable.placeable c hmem).isClassFileName_getLast?⟩

/-- Where classes are laid out, the file system takes the paths of the directories below the goal if
it takes those of the files of the classes. -/
theorem checkPath_subdirectories {node : Node} (hnames : node.NamesDiffer)
    (hplaceable : ∀ c ∈ classes, c.IsPlaceable) (hgoal : Disk.checkPath goal = .ok ())
    (hpaths : ∀ c ∈ classes, Disk.checkPath (goal.join c.fileNames) = .ok ())
    (hheld : ∀ rest, node.kindAt? rest = laidOut classes rest) :
    ∀ place ∈ node.subdirectories, Disk.checkPath (goal.join place) = .ok () := by
  intro place hplace
  obtain ⟨hne, hdirectory⟩ := (Node.mem_subdirectories hnames).mp hplace
  obtain hroot | ⟨c, hc, hon⟩ := ClassDef.exists_of_laidOut_directory (hheld place ▸ hdirectory)
  · exact absurd hroot hne
  · -- The directory is on the way to the file of a class.
    obtain ⟨rest, hrest⟩ : place <+: c.fileNames := hon.trans (List.prefix_append _ _)
    have hfileNames : ∀ s ∈ place ++ rest, s ≠ "" := fun s hs =>
      ((hplaceable c hc).fileNames s (hrest ▸ hs)).1
    obtain ⟨hfront, hbehind⟩ := List.forall_mem_append.mp hfileNames
    exact Disk.Path.checkPath_of_join hgoal hfront hbehind (hrest ▸ hpaths c hc)

/-- A program is read from a directory whose class files hold the texts of its classes, in this
order, if the directories below it can be opened and each class is read from its own text. -/
theorem ends_read_of_classFiles {es : Disk.Entries} (hdirectory : d.isDirectory goal = true)
    (hlist : d.list goal = .ok es)
    (hopen : ∀ place ∈ (Node.directory es).subdirectories, Disk.checkPath (goal.join place) = .ok ())
    (hfiles : (Node.directory es).classFiles = classes.map (·.fileNames))
    (htexts : ∀ c ∈ classes, d.readText (goal.join c.fileNames) = .ok c.print)
    (hread : ∀ c ∈ classes, ClassDef.read c.print = .ok c) (apiLevel : UInt32) :
    (read goal apiLevel).Ends d (.ok ⟨classes, apiLevel⟩) d := by
  have hfind : (find goal).Ends d (.ok (classes.map fun c => goal.join c.fileNames)) d := by
    have hfound := ends_find hlist hopen
    rw [hfiles, List.map_map] at hfound
    exact hfound
  have hclass : ∀ c ∈ classes, (ClassDef.readFrom (goal.join c.fileNames)).Ends d (.ok c) d := by
    intro c hc
    refine (Run.ends_reading (htexts c hc) _).bind ?_
    rw [hread c hc]
    exact Run.ends_ofExcept (.ok c) d
  refine (Run.ends_disk d).bind ?_
  rw [hdirectory]
  refine hfind.bind ((Run.ends_mapM_map fun c hc => ?_).bind
    ((Run.ends_report _ _ _ d).bind (Run.ends_pure _ d)))
  exact (Run.ends_report _ _ _ d).bind ((hclass c hc).within _)

/-- The text of a class is read from its file below a directory. -/
theorem readText_fileNames (h : d.CanFollow goal) {c : ClassDef} (hplaceable : c.IsPlaceable)
    (haccept : (goal.join c.fileNames).IsAcceptable)
    (hfile : d.kindAt? (d.placeOf goal ++ c.fileNames) = some (.file c.print.toUTF8)) :
    d.readText (goal.join c.fileNames) = .ok c.print := by
  obtain ⟨last, -, hfileNames⟩ := c.exists_splitOf_eq
  obtain ⟨ahead, hsegments⟩ := goal.exists_segments_join c.packages (last ++ classFileEnding)
  rw [← hfileNames] at hsegments
  rw [← d.placeOf_join goal fun s hs => (hplaceable.fileNames s hs).1] at hfile
  exact (h.join hplaceable.fileNames haccept).readText_eq hsegments
    (ClassDef.append_classFileEnding_ne last).1 hfile

/-- A program is read from a directory whose entries are those of its classes, if the file system
takes the paths below the goal and the files hold the texts of the classes. -/
theorem ends_read_of_laidOut {es : Disk.Entries} (hdirectory : d.isDirectory goal = true)
    (hlist : d.list goal = .ok es) (hnames : (Node.directory es).NamesDiffer)
    (hstorable : Storable classes)
    (hheld : ∀ rest, (Node.directory es).kindAt? rest = laidOut classes rest)
    (hgoal : Disk.checkPath goal = .ok ())
    (hpaths : ∀ c ∈ classes, Disk.checkPath (goal.join c.fileNames) = .ok ())
    (htexts : ∀ c ∈ classes, d.readText (goal.join c.fileNames) = .ok c.print)
    (hread : ∀ c ∈ classes, ClassDef.read c.print = .ok c) (apiLevel : UInt32) :
    (read goal apiLevel).Ends d (.ok ⟨sortedByFile classes, apiLevel⟩) d := by
  have hmem : ∀ c ∈ sortedByFile classes, c ∈ classes := fun c =>
    (sortedByFile_perm classes).mem_iff.mp
  exact ends_read_of_classFiles hdirectory hlist
    (checkPath_subdirectories hnames hstorable.placeable hgoal hpaths hheld)
    (classFiles_eq hnames hstorable hheld) (fun c hc => htexts c (hmem c hc))
    (fun c hc => hread c (hmem c hc)) apiLevel

/-- A directory in which classes are laid out is listed, and their files hold their texts. -/
theorem exists_list (hnames : d.root.NamesDiffer) (h : d.CanFollow goal)
    (hstorable : Storable classes) (haccept : IsAccepted goal classes)
    (hheld : d.HoldsClasses (d.placeOf goal) classes) :
    d.isDirectory goal = true ∧ ∃ es, d.list goal = .ok es ∧ (Node.directory es).NamesDiffer ∧
      (∀ rest, (Node.directory es).kindAt? rest = laidOut classes rest) ∧
      ∀ c ∈ classes, d.readText (goal.join c.fileNames) = .ok c.print := by
  have hplace := hheld.kindAt?_place
  obtain ⟨es, hes, -⟩ := Disk.exists_entriesAt hplace
  refine ⟨h.isDirectory_eq_true hplace, es, h.list_eq hes, hnames.find? hes, fun rest => ?_,
    fun c hc => ?_⟩
  · rw [← hheld, Disk.kindAt?, Node.kindAt?_append, hes, Option.bind_some]
  · exact readText_fileNames h (hstorable.placeable c hc) (haccept.files c hc)
      ((hheld _).trans (hstorable.laidOut_fileNames hc))

/-- A program is read from a directory in which its classes are laid out. -/
theorem ends_read (hnames : d.root.NamesDiffer) (h : d.CanFollow goal)
    (hstorable : Storable classes) (haccept : IsAccepted goal classes)
    (hread : ∀ c ∈ classes, ClassDef.read c.print = .ok c)
    (hheld : d.HoldsClasses (d.placeOf goal) classes)
    (apiLevel : UInt32) :
    (read goal apiLevel).Ends d (.ok ⟨sortedByFile classes, apiLevel⟩) d := by
  obtain ⟨hdirectory, es, hlist, hnames', hlaidOut, htexts⟩ :=
    exists_list hnames h hstorable haccept hheld
  exact ends_read_of_laidOut hdirectory hlist hnames' hstorable hlaidOut haccept.acceptable.1
    (fun c hc => (haccept.files c hc).1) htexts hread apiLevel

/-- A program is read back as it was written. Its classes can be kept in one directory, the goal is
plain and vacant, and the file system takes the paths of the files below it and of those in the
staging directory beside it. Then writing succeeds, and reading the goal gives exactly the classes
that were written, each once, in the order of their files, with the level of the reader. -/
theorem read_write (hnames : d.root.NamesDiffer) (hplain : goal.IsPlain)
    (hstaging : staging? goal = some staging) (hvacant : IsVacant d goal staging) {p : Program}
    (hstorable : Storable p.classes) (hread : ∀ c ∈ p.classes, ClassDef.read c.print = .ok c)
    (haccept : IsAccepted goal p.classes) (haccept' : IsAccepted staging p.classes)
    (apiLevel : UInt32) :
    ∃ d', (write p goal).Ends d (.ok ()) d' ∧
      ∃ classes, (read goal apiLevel).Ends d' (.ok ⟨classes, apiLevel⟩) d' ∧
        classes.Perm p.classes ∧ classes.Pairwise fun a b => a.fileNames < b.fileNames := by
  obtain ⟨d', hwrite, hwritten⟩ :=
    exists_write hplain hstaging hvacant hstorable haccept' haccept.acceptable
  have hheld : d'.HoldsClasses (d'.placeOf goal) p.classes :=
    hwritten.placeOf goal ▸ hwritten.holdsClasses
  have hgoal : d.CanFollow goal := ⟨hplain, haccept.acceptable, hvacant.start⟩
  have hcan : d'.CanFollow goal := hgoal.of_becomes hwritten (by simp)
  exact ⟨d', hwrite, sortedByFile p.classes,
    ends_read (hwritten.namesDiffer hnames) hcan hstorable haccept hread hheld apiLevel,
    sortedByFile_perm p.classes, pairwise_sortedByFile hstorable⟩

/-! ### A program and a disk -/

/-- A public class without members. -/
def sampleClass (path : String) : ClassDef :=
  ⟨⟨path⟩, [.public], none, some ⟨"java/lang/Object"⟩, [], [], [], []⟩

/-- A program of two classes, not in the order of their files. -/
def sampleProgram : Program :=
  ⟨[sampleClass "com/example/b/Second", sampleClass "com/example/a/First"], 19⟩

/-- A disk with an empty directory, beside which a staging directory was left behind. -/
def sampleDisk : Disk :=
  ⟨.directory [("work", .directory [("out", .directory []),
    (".out.partial", .directory [("Old.smali", .file ByteArray.empty)])])], ["work"]⟩

/-- A class without members is read back. -/
theorem read_print_sampleClass {path : String} (h : Text.InLine path.toList) :
    ClassDef.read (sampleClass path).print = .ok (sampleClass path) :=
  ClassDef.read_print ⟨h, by simp [sampleClass]; decide, by simp [sampleClass],
    by simp [sampleClass], trivial, trivial, trivial⟩

/-- Names in the directories of the sample disk differ. -/
theorem namesDiffer_sampleDisk : sampleDisk.root.NamesDiffer := by
  have hout : (Node.directory []).NamesDiffer := .directory [] (by decide) (by simp)
  have hstaging : (Node.directory [("Old.smali", .file ByteArray.empty)]).NamesDiffer :=
    .directory _ (by decide) (by simp [Node.NamesDiffer.file])
  have hwork : (Node.directory [("out", .directory []),
      (".out.partial", .directory [("Old.smali", .file ByteArray.empty)])]).NamesDiffer :=
    .directory _ (by decide) (by simp [hout, hstaging])
  exact .directory _ (by decide) (by simp [hwork])

/-- The sample program is written to the empty directory of the sample disk and read from it. -/
theorem read_write_sample :
    staging? ⟨false, ["out"]⟩ = some ⟨false, [".out.partial"]⟩ ∧
    ∃ d', (write sampleProgram ⟨false, ["out"]⟩).Ends sampleDisk (.ok ()) d' ∧
      ∃ classes, (read ⟨false, ["out"]⟩ 19).Ends d' (.ok ⟨classes, 19⟩) d' ∧
        classes.Perm sampleProgram.classes ∧
        classes.Pairwise fun a b => a.fileNames < b.fileNames := by
  have hstaging : staging? ⟨false, ["out"]⟩ = some ⟨false, [".out.partial"]⟩ := by decide
  have hvacant : IsVacant sampleDisk ⟨false, ["out"]⟩ ⟨false, [".out.partial"]⟩ :=
    ⟨rfl, Disk.noFileTo_of_directory rfl, .inr rfl, fun content hfile => by cases hfile⟩
  have hstorable : Storable sampleProgram.classes := ⟨by decide, by decide, by decide⟩
  have hread : ∀ c ∈ sampleProgram.classes, ClassDef.read c.print = .ok c := by
    simp only [sampleProgram, List.forall_mem_cons]
    exact ⟨read_print_sampleClass (by decide), read_print_sampleClass (by decide),
      by simp⟩
  exact ⟨hstaging, read_write namesDiffer_sampleDisk (by decide) hstaging hvacant hstorable hread
    ⟨by decide, by decide⟩ ⟨by decide, by decide⟩ 19⟩

end ClassDirectory

end GatedCalls
