import GatedCalls.Proofs.ClassDirectory.Finding
import GatedCalls.Proofs.Disk.Relisting
import GatedCalls.Proofs.Text.ByteOrder

/-!
# What is found in a directory

The class files of a directory and the directories below it can be enumerated in the order of their
places, and there is only one such enumeration (`Enumerates.unique`). Finding opens these
directories one after the other and then gives these files, in whatever order the disk lists its
directories (`find_exact`). The file system takes a path only up to some length, so a directory that
can be listed by its path may have another one in it that cannot (`find_longPath`).
-/

namespace GatedCalls

open Disk (Location Node Path Relists)
open Text (bytes)

/-- Whether a name has an extension: the part behind its last dot, if something stands ahead of
it. -/
def HasExtension (name extension : String) : Prop :=
  ∃ stem, stem ≠ "" ∧ name = stem ++ "." ++ extension ∧ '.' ∉ extension.toList

/-- The names of class files are those with the extension of class files. -/
theorem isClassFileName_iff {name : String} :
    isClassFileName name = true ↔ HasExtension name "smali" := by
  have hending : classFileEnding = "." ++ "smali" := rfl
  unfold isClassFileName HasExtension
  rw [Bool.and_eq_true_iff, bne_iff_ne, List.isSuffixOf_iff_suffix]
  constructor
  · rintro ⟨⟨stem, hstem⟩, hne⟩
    have hname : name = String.ofList stem ++ classFileEnding := by
      rw [← String.toList_inj, String.toList_append, String.toList_ofList, hstem]
    refine ⟨String.ofList stem, fun hempty => hne ?_, ?_, by decide⟩
    · rw [hname, hempty, String.empty_append]
    · rw [hname, hending, String.append_assoc]
  · rintro ⟨stem, hstem, rfl, -⟩
    rw [String.append_assoc, ← hending]
    refine ⟨⟨stem.toList, (String.toList_append ..).symm⟩, fun hempty => hstem ?_⟩
    rw [← String.toList_inj, String.toList_append] at hempty
    exact String.toList_inj.mp (List.self_eq_append_left.mp hempty.symm)

namespace Disk

/-- Whether a class file stands at a place below a directory. -/
def HoldsClassFileBelow (d : Disk) (dir place : Location) : Prop :=
  (∃ content, d.kindAt? (dir ++ place) = some (.file content)) ∧
    ∃ name ∈ place.getLast?, HasExtension name "smali"

/-- Whether a directory stands at a place below another one. -/
def HoldsDirectoryBelow (d : Disk) (dir place : Location) : Prop :=
  place ≠ [] ∧ d.kindAt? (dir ++ place) = some .directory

/-- Whether a list holds the places of one kind and no others, each once, in the order in which
their names are compared one by one, as bytes. -/
structure Enumerates (IsMember : Location → Prop) (places : List Location) : Prop where
  /-- The list holds the places of this kind and no others. -/
  mem_iff : ∀ place, place ∈ places ↔ IsMember place
  /-- Each place comes before all later ones in the order of bytes, so none is listed twice. -/
  increasing : places.Pairwise fun a b => a.map bytes < b.map bytes

/-- There is one enumeration only. -/
theorem Enumerates.unique {IsMember : Location → Prop} {places places' : List Location}
    (h : Enumerates IsMember places) (h' : Enumerates IsMember places') : places = places' := by
  refine eq_of_pairwise_lt (h.increasing.imp Text.map_bytes_lt_map_bytes.mp)
    (h'.increasing.imp Text.map_bytes_lt_map_bytes.mp) fun place => ?_
  rw [h.mem_iff, h'.mem_iff]

/-- The walk enumerates the class files below a directory. -/
theorem enumerates_classFiles {d : Disk} {dir : Location} {es : Entries}
    (hnames : d.root.NamesDiffer) (hes : d.root.find? dir = some (.directory es)) :
    Enumerates (d.HoldsClassFileBelow dir) (Node.directory es).classFiles where
  mem_iff place := by
    rw [Node.mem_classFiles (hnames.find? hes), Node.HoldsClassFile, HoldsClassFileBelow, kindAt?,
      Node.kindAt?_append, hes, Option.bind_some]
    simp only [isClassFileName_iff]
  increasing := (Node.pairwise_classFiles (hnames.find? hes)).imp Text.map_bytes_lt_map_bytes.mpr

/-- The walk enumerates the directories below a directory. -/
theorem enumerates_subdirectories {d : Disk} {dir : Location} {es : Entries}
    (hnames : d.root.NamesDiffer) (hes : d.root.find? dir = some (.directory es)) :
    Enumerates (d.HoldsDirectoryBelow dir) (Node.directory es).subdirectories where
  mem_iff place := by
    rw [Node.mem_subdirectories (hnames.find? hes), HoldsDirectoryBelow, kindAt?,
      Node.kindAt?_append, hes, Option.bind_some]
  increasing :=
    (Node.pairwise_subdirectories (hnames.find? hes)).imp Text.map_bytes_lt_map_bytes.mpr

/-- In whatever order directories are listed, the same is enumerated. -/
theorem Enumerates.congr {IsMember IsMember' : Location → Prop} {places : List Location}
    (h : Enumerates IsMember places) (hiff : ∀ place, IsMember place ↔ IsMember' place) :
    Enumerates IsMember' places :=
  ⟨fun place => (h.mem_iff place).trans (hiff place), h.increasing⟩

/-! ### A long path to the same place -/

/-- The path of as many dots. -/
def dots (n : Nat) : Path :=
  ⟨false, List.replicate n "."⟩

/-- Dots stay where they are. -/
theorem follow_dots {d : Disk} {place : Location} (h : d.kindAt? place = some .directory) (n : Nat) :
    d.follow place (List.replicate n ".") = .ok place := by
  obtain ⟨es, -, hentries⟩ := exists_entriesAt h
  induction n with
  | zero => rw [List.replicate_zero, follow]
  | succ n ih => rw [List.replicate_succ, follow, hentries]; simpa using ih

/-- A dot is added behind a slash. -/
theorem text_dots_succ (n : Nat) : (dots (n + 2)).text = (dots (n + 1)).text ++ "/" ++ "." := by
  have hlast : (dots (n + 1)).segments.getLast? = some "." := by
    rw [dots, List.getLast?_replicate]
    simp
  have hpush : (dots (n + 1)).push "." = dots (n + 2) := by
    rw [Path.push, if_neg (by rw [hlast]; decide), dots, dots, ← List.replicate_succ']
  rw [← hpush, Path.text_push, if_neg]
  rw [hlast]
  simp [dots]

/-- Each dot but the first has a slash ahead of it. -/
theorem utf8ByteSize_text_dots (n : Nat) : (dots (n + 1)).text.utf8ByteSize = 2 * n + 1 := by
  induction n with
  | zero => decide
  | succ n ih =>
    rw [text_dots_succ, String.utf8ByteSize_append, String.utf8ByteSize_append, ih,
      show "/".utf8ByteSize = 1 from rfl, show ".".utf8ByteSize = 1 from rfl]
    omega

/-- There is no NUL among dots and slashes. -/
theorem nul_not_mem_text_dots (n : Nat) : '\x00' ∉ (dots (n + 1)).text.toList := by
  induction n with
  | zero => decide
  | succ n ih => rw [text_dots_succ]; simp [ih]

/-- As many dots as the file system takes lead to where they start. -/
theorem resolve_dots {d : Disk} (hstart : d.kindAt? d.workingDirectory = some .directory) {n : Nat}
    (hn : 2 * n + 1 < pathLimit) : d.resolve (dots (n + 1)) = .ok d.workingDirectory := by
  have hsize := utf8ByteSize_text_dots n
  have hne : (dots (n + 1)).text ≠ "" := fun hempty => by
    rw [hempty] at hsize
    simp at hsize
  have hcheck : checkPath (dots (n + 1)) = .ok () :=
    Path.checkPath_eq_ok.mpr ⟨nul_not_mem_text_dots n, hne, hsize ▸ hn⟩
  rw [resolve, hcheck]
  exact follow_dots hstart (n + 1)

/-- With a name behind them the dots may be too long a path. -/
theorem checkPath_dots_join {n : Nat} {name : String} (hname : '\x00' ∉ name.toList)
    (hn : pathLimit ≤ 2 * n + 2 + name.utf8ByteSize) :
    checkPath ((dots (n + 1)).join [name]) = .error .nameTooLong := by
  have htext : ((dots (n + 1)).join [name]).text = (dots (n + 1)).text ++ "/" ++ name := by
    rw [Path.join, List.foldl_cons, List.foldl_nil, Path.text_push, if_neg]
    rw [dots, List.getLast?_replicate]
    simp
  refine Path.checkPath_eq_nameTooLong.mpr ⟨?_, ?_⟩
  · rw [htext]
    simp [nul_not_mem_text_dots n, hname]
  · rw [htext, String.utf8ByteSize_append, String.utf8ByteSize_append, utf8ByteSize_text_dots,
      show "/".utf8ByteSize = 1 from rfl]
    omega

end Disk

namespace ClassDirectory

open Disk (Enumerates)

/-- What is found in a directory. Below it the disk holds class files and directories, and both can
be enumerated. In whatever order the directories of the disk are listed, exactly these class files
are found, each once and in this order, if the file system takes the path of each of these
directories; the first of them whose path it does not take is the failure. -/
theorem find_exact {d : Disk} {p : Path} {dir : Location} (hnames : d.root.NamesDiffer)
    (hplace : d.resolve p = .ok dir) (hdirectory : d.kindAt? dir = some .directory) :
    ∃ files directories, Enumerates (d.HoldsClassFileBelow dir) files ∧
      Enumerates (d.HoldsDirectoryBelow dir) directories ∧
      ∀ d', Relists d d' →
        ((∀ q ∈ directories, Disk.checkPath (p.join q) = .ok ()) →
          (find p).Ends d' (.ok (files.map p.join)) d') ∧
        ∀ ahead q behind fault, directories = ahead ++ q :: behind →
          (∀ r ∈ ahead, Disk.checkPath (p.join r) = .ok ()) →
          Disk.checkPath (p.join q) = .error fault →
          (find p).Ends d' (.error (Cause.readingDirectory (p.join q).text fault).failure) d' := by
  obtain ⟨es, hes, -⟩ := Disk.exists_entriesAt hdirectory
  have hfiles := Disk.enumerates_classFiles hnames hes
  have hdirectories := Disk.enumerates_subdirectories hnames hes
  refine ⟨_, _, hfiles, hdirectories, fun d' hrelists => ?_⟩
  -- The other disk lists other entries, with the same class files and directories below.
  obtain ⟨fs, hfs, hentries⟩ := Disk.exists_entriesAt ((hrelists.kindAt?_eq dir).trans hdirectory)
  have hlist : d'.list p = .ok fs := by
    rw [Disk.list, hrelists.resolve_eq, hplace]
    exact hentries
  have hsameFiles : (Node.directory fs).classFiles = (Node.directory es).classFiles :=
    (Disk.enumerates_classFiles hrelists.namesDiffer hfs).unique
      (hfiles.congr fun place => by simp only [Disk.HoldsClassFileBelow, hrelists.kindAt?_eq])
  have hsameDirectories :
      (Node.directory fs).subdirectories = (Node.directory es).subdirectories :=
    (Disk.enumerates_subdirectories hrelists.namesDiffer hfs).unique
      (hdirectories.congr fun place => by
        simp only [Disk.HoldsDirectoryBelow, hrelists.kindAt?_eq])
  constructor
  · intro hopen
    rw [← hsameFiles]
    exact ends_find hlist (hsameDirectories ▸ hopen)
  · intro ahead q behind fault hwalk hahead hrefused
    exact ends_find_error hlist (hsameDirectories.trans hwalk) hahead hrefused

/-- The entries of a directory in which names of files and of directories begin with each other. -/
def nestedEntries : Disk.Entries :=
  [("b.smali", .file ByteArray.empty),
    ("b", .directory [("X.smali", .file ByteArray.empty), (".smali", .file ByteArray.empty)]),
    ("b.txt", .file ByteArray.empty), ("a.smali", .directory [])]

/-- A disk with this directory. -/
def nestedDisk : Disk :=
  ⟨.directory [("app", .directory nestedEntries)], []⟩

/-- Names in the directories of the disk differ. -/
theorem namesDiffer_nestedDisk : nestedDisk.root.NamesDiffer := by
  have ha : (Node.directory []).NamesDiffer := .directory [] (by decide) (by simp)
  have hb : (Node.directory [("X.smali", .file ByteArray.empty),
      (".smali", .file ByteArray.empty)]).NamesDiffer :=
    .directory _ (by decide) (by simp [Node.NamesDiffer.file])
  have happ : (Node.directory nestedEntries).NamesDiffer :=
    .directory _ (by decide) (by simp [nestedEntries, Node.NamesDiffer.file, ha, hb])
  exact .directory _ (by decide) (by simp [happ])

/-- The class files of the directory, the one in `b` first. -/
theorem classFiles_nestedEntries :
    (Node.directory nestedEntries).classFiles = [["b", "X.smali"], ["b.smali"]] := by
  have hnames : isClassFileName "b.smali" = true ∧ isClassFileName "X.smali" = true ∧
      isClassFileName ".smali" = false ∧ isClassFileName "b.txt" = false := by decide
  simp [nestedEntries, Node.classFiles, Node.collect, Node.collectEntries, Node.joinByName,
    List.mergeSort, Node.isDirectory, hnames]

/-- The directories below the directory. -/
theorem subdirectories_nestedEntries :
    (Node.directory nestedEntries).subdirectories = [["a.smali"], ["b"]] := by
  simp [nestedEntries, Node.subdirectories, Node.collect, Node.collectEntries, Node.joinByName,
    List.mergeSort, Node.isDirectory]

/-- In whatever order the directories of this disk are listed, its two class files are found. -/
theorem find_exact_nested :
    nestedDisk.resolve ⟨false, ["app"]⟩ = .ok ["app"] ∧
    ∀ d', Relists nestedDisk d' → (find ⟨false, ["app"]⟩).Ends d'
      (.ok [⟨false, ["app", "b", "X.smali"]⟩, ⟨false, ["app", "b.smali"]⟩]) d' := by
  have hfollow : nestedDisk.CanFollow ⟨false, ["app"]⟩ := ⟨by decide, by decide, rfl⟩
  have hplace : nestedDisk.resolve ⟨false, ["app"]⟩ = .ok ["app"] :=
    hfollow.resolve_of_directory rfl
  obtain ⟨files, directories, hfiles, hdirectories, hfind⟩ :=
    find_exact namesDiffer_nestedDisk hplace rfl
  have hes : nestedDisk.root.find? ["app"] = some (.directory nestedEntries) := rfl
  obtain rfl : files = [["b", "X.smali"], ["b.smali"]] :=
    classFiles_nestedEntries ▸ hfiles.unique (Disk.enumerates_classFiles namesDiffer_nestedDisk hes)
  obtain rfl : directories = [["a.smali"], ["b"]] := subdirectories_nestedEntries ▸
    hdirectories.unique (Disk.enumerates_subdirectories namesDiffer_nestedDisk hes)
  refine ⟨hplace, fun d' hrelists => (hfind d' hrelists).1 ?_⟩
  simp only [List.forall_mem_cons, Disk.Path.checkPath_eq_ok]
  decide

/-- A disk with a class file in a directory of the root. -/
def shallowDisk : Disk :=
  ⟨.directory [("a", .directory [("Main.smali", .file ByteArray.empty)])], []⟩

/-- By a path of 4095 bytes the root of this disk is listed, but the directory in it is not: the
class file is not found. -/
theorem find_longPath :
    shallowDisk.root.NamesDiffer ∧ shallowDisk.resolve (Disk.dots 2048) = .ok [] ∧
    Enumerates (shallowDisk.HoldsClassFileBelow []) [["a", "Main.smali"]] ∧
    (find (Disk.dots 2048)).Ends shallowDisk (.error (Cause.readingDirectory
      ((Disk.dots 2048).join ["a"]).text .nameTooLong).failure) shallowDisk ∧
    ¬(find (Disk.dots 2048)).Ends shallowDisk
      (.ok ([["a", "Main.smali"]].map (Disk.dots 2048).join)) shallowDisk := by
  have ha : (Node.directory [("Main.smali", .file ByteArray.empty)]).NamesDiffer :=
    .directory _ (by decide) (by simp [Node.NamesDiffer.file])
  have hnames : shallowDisk.root.NamesDiffer := .directory _ (by decide) (by simp [ha])
  have hplace : shallowDisk.resolve (Disk.dots 2048) = .ok [] :=
    Disk.resolve_dots (n := 2047) rfl (by decide)
  have hes : shallowDisk.root.find? [] = some shallowDisk.root := rfl
  have hfiles : shallowDisk.root.classFiles = [["a", "Main.smali"]] := by
    have hname : isClassFileName "Main.smali" = true := by decide
    simp [shallowDisk, Node.classFiles, Node.collect, Node.collectEntries, Node.joinByName,
      Node.isDirectory, hname]
  have hdirectories : shallowDisk.root.subdirectories = [] ++ [["a"]] := by
    simp [shallowDisk, Node.subdirectories, Node.collect, Node.collectEntries, Node.joinByName,
      Node.isDirectory]
  have hlist : shallowDisk.list (Disk.dots 2048) =
      .ok [("a", .directory [("Main.smali", .file ByteArray.empty)])] := by
    rw [Disk.list, hplace]
    rfl
  have hrefused : Disk.checkPath ((Disk.dots 2048).join ["a"]) = .error .nameTooLong :=
    Disk.checkPath_dots_join (n := 2047) (by decide) (by decide)
  have hfails := ends_find_error hlist hdirectories (List.forall_mem_nil _) hrefused
  refine ⟨hnames, hplace, hfiles ▸ Disk.enumerates_classFiles hnames hes, hfails, fun hfound => ?_⟩
  cases (hfails.unique hfound).1

end ClassDirectory

end GatedCalls
