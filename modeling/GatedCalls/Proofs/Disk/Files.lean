import GatedCalls.Proofs.Disk.Changes

/-!
# The files that operations leave

An operation that succeeds changes files at one place only, the `destination` to which the segments
of its path lead one by one, or moves those that stand below it, whichever way the path goes.
Directories are another matter: a path that is not plain may leave one again that is made on its
way. Making directories changes no files.
-/

namespace GatedCalls.Disk

variable {d d' d'' : Disk} {p : Path} {dir : Location} {es : Entries} {name : String}

/-! ### Files -/

/-- The content of a file. -/
def Kind.content? : Kind → Option ByteArray
  | file content => some content
  | directory => none

/-- The content of the file at a place, if a file stands there. -/
def fileAt? (d : Disk) (q : Location) : Option ByteArray :=
  (d.kindAt? q).bind Kind.content?

/-- The file at a place is what stands there. -/
theorem fileAt?_eq_some {q : Location} {content : ByteArray} :
    d.fileAt? q = some content ↔ d.kindAt? q = some (.file content) := by
  unfold fileAt?
  cases d.kindAt? q with
  | none => simp
  | some kind => cases kind <;> simp [Kind.content?]

/-- Whether a disk is another one after a change that leaves these files: the working directory is
the same, and at each place stands the file that `files` says, or none. -/
structure LeavesFiles (d d' : Disk) (files : Location → Option ByteArray) : Prop where
  workingDirectory : d'.workingDirectory = d.workingDirectory
  fileAt? : ∀ q, d'.fileAt? q = files q

namespace LeavesFiles

/-- No change leaves all files. -/
theorem refl (d : Disk) : d.LeavesFiles d d.fileAt? :=
  ⟨rfl, fun _ => rfl⟩

/-- Paths lead to the same places as before. -/
theorem destination {files : Location → Option ByteArray} (h : d.LeavesFiles d' files) (p : Path) :
    d'.destination p = d.destination p :=
  destination_congr h.workingDirectory p

/-- One change after another. -/
theorem trans {files files' : Location → Option ByteArray} (h : d.LeavesFiles d' files)
    (h' : d'.LeavesFiles d'' files') : d.LeavesFiles d'' files' :=
  ⟨h'.workingDirectory.trans h.workingDirectory, h'.fileAt?⟩

/-- Changes that leave the same files at all places are one change. -/
theorem congr {files files' : Location → Option ByteArray} (h : d.LeavesFiles d' files)
    (hfiles : ∀ q, files q = files' q) : d.LeavesFiles d' files' :=
  ⟨h.workingDirectory, fun q => (h.fileAt? q).trans (hfiles q)⟩

end LeavesFiles

/-- What stands at all places tells the files. -/
theorem Becomes.leavesFiles {kinds : Location → Option Kind} (h : d.Becomes d' kinds) :
    d.LeavesFiles d' fun q => (kinds q).bind Kind.content? :=
  ⟨h.workingDirectory, fun q => by rw [Disk.fileAt?, h.kindAt?]⟩

/-! ### Directories -/

/-- Where directories are made all files stay. -/
theorem AddsDirectories.leavesFiles {places : Location → Prop} (h : d.AddsDirectories d' places) :
    d.LeavesFiles d' d.fileAt? := by
  refine ⟨h.workingDirectory, fun q => ?_⟩
  unfold fileAt?
  obtain hsame | ⟨-, hvacant, hmade⟩ := h.kindAt? q
  · rw [hsame]
  · rw [hvacant, hmade]
    rfl

/-! ### Files, removal and moving -/

/-- A file that is put stands where its path leads, and all others stay. -/
theorem leavesFiles_of_putFile {content : ByteArray} (h : d.putFile p content = .ok d') :
    d.LeavesFiles d' fun q => if q = d.destination p then some content else d.fileAt? q := by
  refine (becomes_of_putFile h).2.leavesFiles.congr fun q => ?_
  split <;> rfl

/-- No file is left where a directory is taken away, and all others stay. -/
theorem leavesFiles_of_removeWhere {mayRemove : Entries → Bool}
    (h : d.removeWhere p mayRemove = .ok d') :
    d.LeavesFiles d' fun q => if d.destination p <+: q then none else d.fileAt? q := by
  refine (becomes_of_removeWhere h).2.leavesFiles.congr fun q => ?_
  split <;> rfl

/-- Taking an empty directory away leaves all files. -/
theorem leavesFiles_of_removeDirectory (h : d.removeDirectory p = .ok d') :
    d.LeavesFiles d' d.fileAt? := by
  obtain ⟨inner, hinner, hempty⟩ := (becomes_of_removeWhere h).1
  obtain rfl := List.isEmpty_iff.mp hempty
  refine (leavesFiles_of_removeWhere h).congr fun q => ?_
  split
  case isFalse => rfl
  case isTrue hq =>
    obtain ⟨rest, rfl⟩ := hq
    rw [fileAt?, kindAt?, Node.kindAt?_append, hinner]
    cases rest <;> rfl

/-- The files below a directory that is moved to another name beside it stand below that name, and
all others stay. -/
theorem leavesFiles_of_moveDirectory {source goal : Path} {place : Location} {name name' : String}
    (hsource : d.destination source = place ++ [name])
    (hgoal : d.destination goal = place ++ [name']) (hne : name ≠ name')
    (h : d.moveDirectory source goal = .ok d') :
    d.LeavesFiles d' fun q =>
      if place ++ [name'] <+: q then d.fileAt? (place ++ [name] ++ q.drop (place ++ [name']).length)
      else if place ++ [name] <+: q then none else d.fileAt? q := by
  have hother : d.destination source ≠ d.destination goal := by simpa [hsource, hgoal] using hne
  obtain ⟨-, hmoved⟩ := becomes_of_moveDirectory hother h
  rw [hsource, hgoal] at hmoved
  refine hmoved.leavesFiles.congr fun q => ?_
  split
  · rfl
  · split <;> rfl

end GatedCalls.Disk
