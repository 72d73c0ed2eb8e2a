import Mathlib.Data.List.Nodup
import Mathlib.Data.List.Perm.Subperm
import GatedCalls.Proofs.ClassDirectory.Relocation
import GatedCalls.Proofs.Disk.Files

/-!
# Which files a program that is written leaves

The name of a class is taken as it is, so its file need not be below the directory to which a
program is written: a segment `..` leads out of it, and two names can lead to one file. What a
program leaves is told from where its files are (`ClassDef.filePlace`), for any goal and any classes
(`leavesFiles_of_write`).
-/

namespace GatedCalls

open Disk (Location Path placeAlong stepAlong)

variable {d d' : Disk} {directory goal staging : Path}

/-! ### Classes -/

namespace ClassDef

/-- The place of the file of a class that is written below a place. -/
def filePlace (c : ClassDef) (place : Location) : Location :=
  placeAlong place c.fileNames

/-- Of classes that are written below a place one after the other, the last one with its file at the
place `q`. -/
def lastAt? (place : Location) (classes : List ClassDef) (q : Location) : Option ClassDef :=
  classes.reverse.find? fun c => c.filePlace place = q

/-- The class whose file was written last at a place is one of those with their files there. -/
theorem filePlace_of_lastAt? {place q : Location} {classes : List ClassDef} {c : ClassDef}
    (h : lastAt? place classes q = some c) : c ∈ classes ∧ c.filePlace place = q :=
  ⟨List.mem_reverse.mp (List.mem_of_find?_eq_some h), by simpa using List.find?_some h⟩

/-- A class that is the only one with its file at a place is the last one there. -/
theorem lastAt?_filePlace {place : Location} {classes : List ClassDef} {c : ClassDef} (hc : c ∈ classes)
    (honly : ∀ c' ∈ classes, c'.filePlace place = c.filePlace place → c' = c) :
    lastAt? place classes (c.filePlace place) = some c := by
  cases hlast : lastAt? place classes (c.filePlace place) with
  | none =>
    have hnone := List.find?_eq_none.mp hlast c (List.mem_reverse.mpr hc)
    exact absurd (decide_eq_true rfl) hnone
  | some c' =>
    obtain ⟨hc', hplace⟩ := filePlace_of_lastAt? hlast
    rw [honly c' hc' hplace]

/-- The first of the classes was written before the others. -/
theorem lastAt?_cons (place : Location) (c : ClassDef) (classes : List ClassDef) (q : Location) :
    lastAt? place (c :: classes) q =
      (lastAt? place classes q).or (if q = c.filePlace place then some c else none) := by
  rw [lastAt?, List.reverse_cons, List.find?_append, lastAt?]
  congr 1
  by_cases hq : q = c.filePlace place
  · simp [hq]
  · simp [hq, Ne.symm hq]

/-- Writing a class leaves its file, and all others. -/
theorem leavesFiles_of_writeBelow {c : ClassDef} {file : Path}
    (h : (c.writeBelow directory).Ends d (.ok file) d') :
    d.LeavesFiles d' fun q =>
      if q = c.filePlace (d.destination directory) then some c.print.toUTF8 else d.fileAt? q := by
  obtain ⟨made, hmake, hput⟩ := exists_of_ends_writeBelow h
  have hmade := (Disk.addsDirectories_of_makeDirectories hmake).leavesFiles
  have hwritten := Disk.leavesFiles_of_putFile hput
  refine (hmade.trans hwritten).congr fun q => ?_
  rw [hmade.destination, d.destination_join, hmade.fileAt?]
  rfl

end ClassDef

namespace ClassDirectory

open ClassDef (lastAt?)

/-- Writing classes leaves the files of the classes, where two have the same place that of the later
one, and all others. -/
theorem leavesFiles_of_writeClasses {classes : List ClassDef} {apiLevel : UInt32}
    (h : (writeClasses ⟨classes, apiLevel⟩ directory).Ends d (.ok ()) d') :
    d.LeavesFiles d' fun q =>
      ((lastAt? (d.destination directory) classes q).map (·.print.toUTF8)).or (d.fileAt? q) := by
  induction classes generalizing d with
  | nil =>
    obtain ⟨-, rfl⟩ := h.unique (Run.ends_pure () d)
    exact .refl _
  | cons c classes ih =>
    obtain ⟨file, next, hfirst, hrest⟩ := exists_of_ends_writeClasses_cons h
    have hnext := ClassDef.leavesFiles_of_writeBelow hfirst
    refine (hnext.trans (ih hrest)).congr fun q => ?_
    rw [hnext.destination, hnext.fileAt?, ClassDef.lastAt?_cons]
    cases lastAt? (d.destination directory) classes q with
    | some c' => rfl
    | none => split <;> rfl

/-! ### The staging directory and the goal -/

/-- The staging directory of a goal is beside the place to which the path of the goal leads. -/
theorem exists_destination_staging (h : staging? goal = some staging) (d : Disk) :
    ∃ place name, d.destination goal = place ++ [name] ∧
      d.destination staging = place ++ ["." ++ name ++ ".partial"] := by
  obtain ⟨name, parent, hname, hparent, rfl⟩ := eq_push_of_staging? h
  obtain ⟨hempty, hdot, hup⟩ := stagingName_plain name
  refine ⟨d.destination parent, name, d.destination_of_fileName? hname hparent, ?_⟩
  rw [Disk.destination_push, stepAlong, if_neg (not_or.mpr ⟨hempty, hdot⟩), if_neg hup]

/-- Making the staging directory leaves all files, but for those below one that is found. -/
theorem leavesFiles_of_prepare (h : (prepare staging).Ends d (.ok ()) d') :
    d.LeavesFiles d' fun q =>
      if d.destination staging <+: q ∧ d.pathExists staging = true then none else d.fileAt? q := by
  obtain ⟨cleared, hcleared, hmake⟩ :=
    exists_of_ends_cleared (Run.isSettled_makeDirectories staging) h
  have hmade := (Disk.addsDirectories_of_makeDirectories
    (Run.eq_ok_of_ends_makeDirectories hmake)).leavesFiles
  obtain ⟨hmissing, rfl⟩ | ⟨hthere, hremove⟩ := hcleared
  · exact hmade.congr fun q => by simp [hmissing]
  · have hremoved := Disk.leavesFiles_of_removeWhere hremove
    exact (hremoved.trans hmade).congr fun q => by simp [hthere, hremoved.fileAt?]

/-- Moving the staging directory moves the files below it, and leaves all others. -/
theorem leavesFiles_of_publish {place : Location} {name name' : String}
    (hgoal : d.destination goal = place ++ [name']) (hstaging : d.destination staging = place ++ [name])
    (hne : name ≠ name') (h : (publish staging goal).Ends d (.ok ()) d') :
    d.LeavesFiles d' fun q =>
      if d.destination goal <+: q then
        d.fileAt? (d.destination staging ++ q.drop (d.destination goal).length)
      else if d.destination staging <+: q then none else d.fileAt? q := by
  obtain ⟨cleared, hcleared, hmove⟩ := exists_of_ends_cleared (Run.isSettled_changing _ _) h
  have hclear : d.LeavesFiles cleared d.fileAt? := by
    obtain ⟨-, rfl⟩ | ⟨-, hremove⟩ := hcleared
    · exact .refl _
    · exact Disk.leavesFiles_of_removeDirectory hremove
  have hmoved := Disk.leavesFiles_of_moveDirectory ((hclear.destination staging).trans hstaging)
    ((hclear.destination goal).trans hgoal) hne (Run.eq_ok_of_ends_changing hmove)
  refine (hclear.trans hmoved).congr fun q => ?_
  rw [hgoal, hstaging, hclear.fileAt?, hclear.fileAt?]

/-- The files once classes are written to a staging directory: that of the last class with its file
at a place, or what stood there, unless it was taken away with a staging directory that was
found. -/
def stagedFiles (d : Disk) (staging : Path) (classes : List ClassDef) (q : Location) :
    Option ByteArray :=
  ((lastAt? (d.destination staging) classes q).map (·.print.toUTF8)).or
    (if d.destination staging <+: q ∧ d.pathExists staging = true then none else d.fileAt? q)

/-- Which files classes leave that are staged. -/
theorem leavesFiles_of_stage {p : Program} {prepared filled : Disk}
    (hprepare : (prepare staging).Ends d (.ok ()) prepared)
    (hfill : (writeClasses p staging).Ends prepared (.ok ()) filled) :
    d.LeavesFiles filled (stagedFiles d staging p.classes) := by
  have hprepared := leavesFiles_of_prepare hprepare
  refine (hprepared.trans (leavesFiles_of_writeClasses hfill)).congr fun q => ?_
  rw [hprepared.destination, hprepared.fileAt?]
  rfl

/-- The files once a program is written: below the goal what was staged below the staging directory,
below that none, and anywhere else what was staged there. -/
def writtenFiles (d : Disk) (goal staging : Path) (classes : List ClassDef) (q : Location) :
    Option ByteArray :=
  if d.destination goal <+: q then
    stagedFiles d staging classes (d.destination staging ++ q.drop (d.destination goal).length)
  else if d.destination staging <+: q then none
  else stagedFiles d staging classes q

/-- Which files a program leaves that is written. -/
theorem leavesFiles_of_write {p : Program} (h : (write p goal).Ends d (.ok ()) d')
    (hstaging : staging? goal = some staging) :
    d.LeavesFiles d' (writtenFiles d goal staging p.classes) := by
  obtain ⟨-, staging', prepared, filled, hstaging', hprepare, hfill, hpublish⟩ :=
    exists_of_ends_write h
  obtain rfl := Option.some.inj (hstaging.symm.trans hstaging')
  obtain ⟨place, name, hgoal, hbeside⟩ := exists_destination_staging hstaging d
  have hfilled := leavesFiles_of_stage hprepare hfill
  have hpublished := leavesFiles_of_publish ((hfilled.destination goal).trans hgoal)
    ((hfilled.destination staging).trans hbeside) (stagingName_ne name) hpublish
  refine (hfilled.trans hpublished).congr fun q => ?_
  rw [hfilled.destination, hfilled.destination, hfilled.fileAt?, hfilled.fileAt?, writtenFiles]

/-! ### Staying below the goal -/

/-- Whether the file of each class that is written below a place is there, and no two have the
same. -/
structure KeepApart (place : Location) (classes : List ClassDef) : Prop where
  /-- No file is outside of the place. -/
  below : ∀ c ∈ classes, place <+: c.filePlace place
  /-- No class takes the file of another one. -/
  distinct : ∀ c ∈ classes, ∀ c' ∈ classes, c.filePlace place = c'.filePlace place → c = c'

/-- Whether all files that a change has created or changed are below a place. -/
def ChangesOnlyBelow (d d' : Disk) (place : Location) : Prop :=
  ∀ q content, d'.fileAt? q = some content → d.fileAt? q ≠ some content → place <+: q

/-- Whether the files below a place are those of classes, exactly one for each class. -/
def HoldsOneForEach (d : Disk) (place : Location) (classes : List ClassDef) : Prop :=
  ∃ file : ClassDef → Location,
    (∀ c ∈ classes, d.fileAt? (place ++ file c) = some c.print.toUTF8) ∧
    (∀ c ∈ classes, ∀ c' ∈ classes, file c = file c' → c = c') ∧
    ∀ rest content, d.fileAt? (place ++ rest) = some content → ∃ c ∈ classes, file c = rest

/-- Whether a staging directory that was left behind with files in it is found through its path. -/
def FindsLeftBehind (d : Disk) (staging : Path) : Prop :=
  ∀ rest content, d.fileAt? (d.destination staging ++ rest) = some content →
    d.pathExists staging = true

/-- Classes of different names that can be followed keep apart. -/
theorem keepApart_of_isPlaceable {classes : List ClassDef} (hnodup : (classes.map (·.name)).Nodup)
    (hplaceable : ∀ c ∈ classes, c.IsPlaceable) (place : Location) : KeepApart place classes := by
  have hplace : ∀ c ∈ classes, c.filePlace place = place ++ c.fileNames := fun c hc => by
    have hnames := (hplaceable c hc).fileNames
    rw [ClassDef.filePlace, Disk.placeAlong_eq _ fun s hs => (hnames s hs).2, Path.namesIn,
      List.filter_eq_self.mpr fun s hs => by simpa using (hnames s hs).1]
  refine ⟨fun c hc => ⟨_, (hplace c hc).symm⟩, fun c hc c' hc' heq => ?_⟩
  rw [hplace c hc, hplace c' hc'] at heq
  exact List.inj_on_of_nodup_map hnodup hc hc'
    (ClassDef.name_eq_of_fileNames (List.append_cancel_left heq))

/-- A staging directory that was left behind is found if the goal is reached through directories
that are there. -/
theorem findsLeftBehind_of_isReached (hreached : IsReached d goal)
    (hstaging : staging? goal = some staging) (hprepare : (prepare staging).Ends d (.ok ()) d') :
    FindsLeftBehind d staging := by
  obtain ⟨lead, base, goal', h⟩ := hreached
  obtain ⟨staging', -, hstaging', -⟩ :=
    exists_staging_of_append h.segments h.plain h.names_ne_nil hstaging
  obtain ⟨front, name, -, hnames', -, hplain'⟩ := exists_of_staging? h.plain hstaging'
  have hon := h.leadsOn_staging hstaging hstaging'
  -- No file is on the way to it, so its path is followed to the end.
  obtain ⟨hcan, hfree⟩ := canFollow_of_prepare hplain' (by simp [hnames'])
    (h.ends_prepare hstaging hstaging' hprepare).1
  obtain ⟨cleared, -, hmake⟩ :=
    exists_of_ends_cleared (Run.isSettled_makeDirectories staging) hprepare
  obtain ⟨hpath, -⟩ := Disk.leads_of_makeDirectories hon.text_ne_empty
    (Run.eq_ok_of_ends_makeDirectories hmake)
  intro rest content hfile
  rw [hon.pathExists_eq hpath, hcan.pathExists_eq hfree, Option.isSome_iff_ne_none]
  intro hnone
  have hplace : (d.seenFrom base).placeOf staging' = d.destination staging := by
    rw [Disk.placeOf, hon.start_eq, Disk.destination, hon.placeAlong_eq hplain']
  rw [hplace] at hnone
  have hbelow := Disk.Node.kindAt?_append_eq_none hnone rest
  cases hbelow.symm.trans (Disk.fileAt?_eq_some.mp hfile)

section Written

variable {classes : List ClassDef}

/-- What stands below the goal was staged below the staging directory. -/
theorem writtenFiles_below (d : Disk) (goal staging : Path) (classes : List ClassDef)
    (rest : Location) : writtenFiles d goal staging classes (d.destination goal ++ rest) =
      stagedFiles d staging classes (d.destination staging ++ rest) := by
  rw [writtenFiles, if_pos (List.prefix_append _ _), List.drop_left]

/-- If a staging directory that was left behind is found, what is staged below it are files of the
classes. -/
theorem filePlace_of_stagedFiles (hfinds : FindsLeftBehind d staging) {rest : Location}
    {content : ByteArray}
    (h : stagedFiles d staging classes (d.destination staging ++ rest) = some content) :
    ∃ c ∈ classes, c.filePlace (d.destination staging) = d.destination staging ++ rest := by
  unfold stagedFiles at h
  cases hlast : lastAt? (d.destination staging) classes (d.destination staging ++ rest) with
  | some c => exact ⟨c, ClassDef.filePlace_of_lastAt? hlast⟩
  | none =>
    rw [hlast, Option.map_none, Option.none_or] at h
    split at h
    · cases h
    · next hnot => exact absurd ⟨List.prefix_append _ _, hfinds rest content h⟩ hnot

/-- A file that is created or changed outside of the goal is that of a class whose name leads out of
the staging directory. -/
theorem filePlace_of_writtenFiles {q : Location} {content : ByteArray}
    (h : writtenFiles d goal staging classes q = some content) (hgoal : ¬d.destination goal <+: q)
    (hnew : d.fileAt? q ≠ some content) :
    ∃ c ∈ classes, ¬d.destination staging <+: q ∧ q = c.filePlace (d.destination staging) ∧
      content = c.print.toUTF8 := by
  rw [writtenFiles, if_neg hgoal] at h
  split at h
  case isTrue => cases h
  case isFalse hstaging =>
    rw [stagedFiles, if_neg fun hbelow => hstaging hbelow.1] at h
    cases hlast : lastAt? (d.destination staging) classes q with
    | none =>
      rw [hlast, Option.map_none, Option.none_or] at h
      exact absurd h hnew
    | some c =>
      obtain ⟨hc, hplace⟩ := ClassDef.filePlace_of_lastAt? hlast
      rw [hlast] at h
      exact ⟨c, hc, hstaging, hplace.symm, (Option.some.inj h).symm⟩

/-- Classes whose files are all below the staging directory and apart are left below the goal, one
file for each. -/
theorem KeepApart.holdsOneForEach (h : KeepApart (d.destination staging) classes)
    (hfinds : FindsLeftBehind d staging)
    (hwritten : d.LeavesFiles d' (writtenFiles d goal staging classes)) :
    HoldsOneForEach d' (d.destination goal) classes := by
  -- From the staging directory the name of each class leads on to a place below it.
  obtain ⟨file, hfile⟩ : ∃ file : ClassDef → Location, ∀ c ∈ classes,
      c.filePlace (d.destination staging) = d.destination staging ++ file c :=
    ⟨fun c => (c.filePlace (d.destination staging)).drop (d.destination staging).length,
      fun c hc => List.prefix_iff_eq_append.mp (h.below c hc) |>.symm⟩
  refine ⟨file, fun c hc => ?_, fun c hc c' hc' heq => ?_, fun rest content hrest => ?_⟩
  · have hlast := ClassDef.lastAt?_filePlace hc fun c' hc' heq => h.distinct c' hc' c hc heq
    rw [hwritten.fileAt?, writtenFiles_below, ← hfile c hc, stagedFiles, hlast]
    rfl
  · exact h.distinct c hc c' hc' (by rw [hfile c hc, hfile c' hc', heq])
  · rw [hwritten.fileAt?, writtenFiles_below] at hrest
    obtain ⟨c, hc, hplace⟩ := filePlace_of_stagedFiles hfinds hrest
    exact ⟨c, hc, List.append_cancel_left ((hfile c hc).symm.trans hplace)⟩

/-- If exactly one file is left for each class below the goal, the files of the classes are all
below the staging directory, and apart. -/
theorem keepApart_of_holdsOneForEach (hnodup : classes.Nodup) (hfinds : FindsLeftBehind d staging)
    (hwritten : d.LeavesFiles d' (writtenFiles d goal staging classes))
    (hholds : HoldsOneForEach d' (d.destination goal) classes) :
    KeepApart (d.destination staging) classes := by
  obtain ⟨file, hprints, hinjective, -⟩ := hholds
  -- There are as many files as classes, and each is at the place of a class.
  have hdistinct : (classes.map fun c => d.destination staging ++ file c).Nodup :=
    hnodup.map_on fun c hc c' hc' heq => hinjective c hc c' hc' (List.append_cancel_left heq)
  have hsubset : (classes.map fun c => d.destination staging ++ file c) ⊆
      classes.map (·.filePlace (d.destination staging)) := by
    intro q hq
    obtain ⟨c, hc, rfl⟩ := List.mem_map.mp hq
    have hfile := hprints c hc
    rw [hwritten.fileAt?, writtenFiles_below] at hfile
    obtain ⟨c', hc', hplace⟩ := filePlace_of_stagedFiles hfinds hfile
    exact List.mem_map.mpr ⟨c', hc', hplace⟩
  have hperm := (List.subperm_of_subset hdistinct hsubset).perm_of_length_le (by simp)
  refine ⟨fun c hc => ?_, List.inj_on_of_nodup_map (hperm.nodup_iff.mp hdistinct)⟩
  have hmem := hperm.mem_iff.mpr
    (List.mem_map_of_mem (f := (·.filePlace (d.destination staging))) hc)
  obtain ⟨c', -, hplace⟩ := List.mem_map.mp hmem
  exact ⟨file c', hplace⟩

end Written

/-- Where the files of a program are that was written. Each file that was created or changed is
below the goal, or it is that of a class whose name leads out of the staging directory. If a staging
directory that was left behind is found, as it is where the goal is reached through directories that
are there, exactly the files of the classes are below the goal, one for each, and no others were
created or changed, if and only if the names of all classes lead to places below the staging
directory, no two to the same. -/
theorem write_confined_iff {p : Program} (h : (write p goal).Ends d (.ok ()) d') :
    ∃ staging, staging? goal = some staging ∧
      (∀ q content, d'.fileAt? q = some content → d.fileAt? q ≠ some content →
        d.destination goal <+: q ∨ ∃ c ∈ p.classes, ¬d.destination staging <+: q ∧
          q = c.filePlace (d.destination staging) ∧ content = c.print.toUTF8) ∧
      (IsReached d goal → FindsLeftBehind d staging) ∧
      (FindsLeftBehind d staging →
        (ChangesOnlyBelow d d' (d.destination goal) ∧
            HoldsOneForEach d' (d.destination goal) p.classes ↔
          KeepApart (d.destination staging) p.classes)) := by
  obtain ⟨hnodup, staging, prepared, -, hstaging, hprepare, -⟩ := exists_of_ends_write h
  have hwritten := leavesFiles_of_write h hstaging
  have hnew : ∀ q content, d'.fileAt? q = some content → d.fileAt? q ≠ some content →
      d.destination goal <+: q ∨ ∃ c ∈ p.classes, ¬d.destination staging <+: q ∧
        q = c.filePlace (d.destination staging) ∧ content = c.print.toUTF8 := by
    intro q content hfile hchanged
    rw [hwritten.fileAt?] at hfile
    exact or_iff_not_imp_left.mpr fun hgoal => filePlace_of_writtenFiles hfile hgoal hchanged
  refine ⟨staging, hstaging, hnew,
    fun hreached => findsLeftBehind_of_isReached hreached hstaging hprepare,
    fun hfinds => ⟨fun ⟨_, hholds⟩ => ?_, fun hapart => ⟨?_, ?_⟩⟩⟩
  · exact keepApart_of_holdsOneForEach (List.Nodup.of_map _ hnodup) hfinds hwritten hholds
  · intro q content hfile hchanged
    obtain hgoal | ⟨c, hc, hstaging, rfl, -⟩ := hnew q content hfile hchanged
    · exact hgoal
    · exact absurd (hapart.below c hc) hstaging
  · exact hapart.holdsOneForEach hfinds hwritten

/-- The two classes of the sample program are below the goal, and nothing else has changed. -/
theorem write_confined_iff_sample :
    ∃ d', (write sampleProgram ⟨false, ["out"]⟩).Ends sampleDisk (.ok ()) d' ∧
      ChangesOnlyBelow sampleDisk d' ["work", "out"] ∧
      HoldsOneForEach d' ["work", "out"] sampleProgram.classes := by
  have hstaging : staging? ⟨false, ["out"]⟩ = some ⟨false, [".out.partial"]⟩ := by decide
  have hvacant : IsVacant sampleDisk ⟨false, ["out"]⟩ ⟨false, [".out.partial"]⟩ :=
    ⟨rfl, Disk.noFileTo_of_directory rfl, .inr rfl, fun content hfile => by cases hfile⟩
  obtain ⟨d', hwrite, -⟩ := exists_write (by decide) hstaging hvacant (p := sampleProgram)
    ⟨by decide, by decide, by decide⟩ ⟨by decide, by decide⟩ (by decide)
  obtain ⟨staging, -, -, hfinds, hiff⟩ := write_confined_iff hwrite
  have hreached : IsReached sampleDisk ⟨false, ["out"]⟩ :=
    isReached_of_isPlain (by decide) (by decide) rfl
  exact ⟨d', hwrite, (hiff (hfinds hreached)).mpr
    (keepApart_of_isPlaceable (by decide) (by decide) _)⟩

/-! ### A class that leaves the goal -/

/-- A disk without files. -/
def emptyDisk : Disk :=
  ⟨.directory [], []⟩

/-- A program with a class whose name leads out of the directory to which it is written. -/
def leavingProgram : Program :=
  ⟨[sampleClass "../Evil"], 19⟩

/-- The empty disk once the staging directory has been made. -/
def leavingMade : Disk :=
  emptyDisk.update [] (·.put ".out.partial" (.directory []))

/-- The disk once the class has been written. -/
def leavingFilled : Disk :=
  leavingMade.update [] (·.put "Evil.smali" (.file (sampleClass "../Evil").print.toUTF8))

/-- The disk once the staging directory has been moved. -/
def leavingPublished : Disk :=
  (leavingFilled.update [] (·.erase ".out.partial")).update [] (·.put "out" (.directory []))

/-- The paths that are followed are such that the file system takes. -/
theorem checkPath_leaving : Disk.checkPath ⟨false, ["out"]⟩ = .ok () ∧
    Disk.checkPath ⟨false, [".out.partial"]⟩ = .ok () ∧
    Disk.checkPath ⟨false, [".out.partial", ".."]⟩ = .ok () ∧
    Disk.checkPath ⟨false, [".out.partial", "..", "Evil.smali"]⟩ = .ok () := by
  simp only [Disk.Path.checkPath_eq_ok]
  decide

/-- The directory of the class is the one beside the staging directory, which is there. -/
theorem ends_writeClasses_leavingProgram :
    (writeClasses leavingProgram ⟨false, [".out.partial"]⟩).Ends leavingMade (.ok ())
      leavingFilled := by
  obtain ⟨-, -, hpackage, hfile⟩ := checkPath_leaving
  have hpresent : leavingMade.makeDirectory ⟨false, [".out.partial", ".."]⟩ =
      .error .alreadyExists := by
    rw [Disk.makeDirectory, Disk.target, hpackage]
    rfl
  have hthere : leavingMade.isDirectory ⟨false, [".out.partial", ".."]⟩ = true := by
    rw [Disk.isDirectory, Disk.node?, Disk.resolve, hpackage]
    rfl
  have hput : leavingMade.putFile ⟨false, [".out.partial", "..", "Evil.smali"]⟩
      (sampleClass "../Evil").print.toUTF8 = .ok leavingFilled := by
    rw [Disk.putFile, Disk.target, hfile]
    rfl
  have hmake := Disk.makeDirectories_of_present (by decide) hpresent (by simp) hthere
  exact ends_writeClasses_cons (ClassDef.ends_writeBelow hmake hput) (Run.ends_pure PUnit.unit _)

/-- The program is written to the goal, which is empty then. -/
theorem ends_write_leavingProgram :
    (write leavingProgram ⟨false, ["out"]⟩).Ends emptyDisk (.ok ()) leavingPublished := by
  obtain ⟨hgoal, hpath, -⟩ := checkPath_leaving
  have hvacant : emptyDisk.pathExists ⟨false, ["out"]⟩ = false := by
    rw [Disk.pathExists, Disk.node?, Disk.resolve, hgoal]
    rfl
  have hprepare : (prepare ⟨false, [".out.partial"]⟩).Ends emptyDisk (.ok ()) leavingMade := by
    have hmissing : emptyDisk.pathExists ⟨false, [".out.partial"]⟩ = false := by
      rw [Disk.pathExists, Disk.node?, Disk.resolve, hpath]
      rfl
    have hmake : emptyDisk.makeDirectory ⟨false, [".out.partial"]⟩ = .ok leavingMade := by
      rw [Disk.makeDirectory, Disk.target, hpath]
      rfl
    exact ends_cleared_of_missing hmissing _ _
      (Run.ends_makeDirectories (Disk.makeDirectories_of_ok (by decide) hmake))
  have hpublish : (publish ⟨false, [".out.partial"]⟩ ⟨false, ["out"]⟩).Ends leavingFilled (.ok ())
      leavingPublished := by
    have hmissing : leavingFilled.pathExists ⟨false, ["out"]⟩ = false := by
      rw [Disk.pathExists, Disk.node?, Disk.resolve, hgoal]
      rfl
    have hmove : leavingFilled.moveDirectory ⟨false, [".out.partial"]⟩ ⟨false, ["out"]⟩ =
        .ok leavingPublished := by
      rw [Disk.moveDirectory, Disk.target, Disk.target, hpath, hgoal]
      rfl
    exact ends_cleared_of_missing hmissing _ _ (Run.ends_changing hmove _)
  exact ends_write (by decide) (ends_checkVacant_of_missing hvacant) (by decide) hprepare
    ends_writeClasses_leavingProgram hpublish

/-- Its class is beside the goal. -/
theorem write_leaves_goal :
    (write leavingProgram ⟨false, ["out"]⟩).Ends emptyDisk (.ok ()) leavingPublished ∧
      ¬ChangesOnlyBelow emptyDisk leavingPublished (emptyDisk.destination ⟨false, ["out"]⟩) ∧
      ¬HoldsOneForEach leavingPublished (emptyDisk.destination ⟨false, ["out"]⟩)
        leavingProgram.classes := by
  have hgoal : emptyDisk.destination ⟨false, ["out"]⟩ = ["out"] := by decide
  rw [hgoal]
  refine ⟨ends_write_leavingProgram, fun honly => ?_, fun ⟨file, hprints, _⟩ => ?_⟩
  · have hfile : leavingPublished.fileAt? ["Evil.smali"] =
        some (sampleClass "../Evil").print.toUTF8 := rfl
    have hnone : emptyDisk.fileAt? ["Evil.smali"] = none := rfl
    have hbelow := honly ["Evil.smali"] _ hfile (by simp [hnone])
    exact absurd hbelow (by decide)
  · have hprint := hprints (sampleClass "../Evil") (by simp [leavingProgram])
    have hempty : ∀ rest, leavingPublished.fileAt? (["out"] ++ rest) = none := by
      rintro (_ | ⟨s, rest⟩) <;> rfl
    rw [hempty] at hprint
    cases hprint

end ClassDirectory

end GatedCalls
