import GatedCalls.Proofs.ClassDirectory.Layout
import GatedCalls.Proofs.Disk.Operations
import GatedCalls.Proofs.Program
import GatedCalls.Proofs.Run

/-!
# Writing a class directory

Each step of writing a program is done if it starts from a disk that is as the step before leaves
it, and `Becomes` says what stands where afterwards. The staging directory is made empty
(`exists_prepare`); a class is written without a file in its way (`exists_writeBelow`), so by
induction on the classes all are laid out in the staging directory (`exists_writeClasses`); and what
is there is moved to the goal (`exists_publish`). Together they write the program (`exists_write`).
-/

namespace GatedCalls

open Disk (Kind Location Path)

variable {d : Disk} {directory goal staging : Path}

namespace Disk

open ClassDef (Storable laidOut)

/-- Whether classes are laid out below a place, and nothing else is there. -/
def HoldsClasses (d : Disk) (place : Location) (classes : List ClassDef) : Prop :=
  ∀ rest, d.kindAt? (place ++ rest) = laidOut classes rest

variable {place : Location} {classes : List ClassDef}

/-- After a change that lays classes out below a place they are there. -/
theorem Becomes.holdsClasses {d' : Disk} {kinds : Location → Option Kind}
    (h : d.Becomes d' fun q =>
      if place <+: q then laidOut classes (q.drop place.length) else kinds q) :
    d'.HoldsClasses place classes := by
  intro rest
  rw [h.kindAt?, if_pos (List.prefix_append _ _), List.drop_left]

namespace HoldsClasses

/-- Classes are laid out below a directory. -/
theorem kindAt?_place (h : d.HoldsClasses place classes) : d.kindAt? place = some .directory := by
  rw [← List.append_nil place, h, ClassDef.laidOut_root]

/-- No file is on the way to one more class: it would be that of a class that is in its way. -/
theorem noFileTo_packages {c : ClassDef} (h : d.HoldsClasses place classes)
    (hstorable : Storable (classes ++ [c])) : d.NoFileTo (place ++ c.packages) := by
  intro q hq content hfile
  obtain habove | ⟨rest, rfl⟩ := List.prefix_or_prefix_of_prefix hq (List.prefix_append _ _)
  · cases hfile.symm.trans (kindAt?_of_isPrefix h.kindAt?_place habove)
  · rw [h] at hfile
    obtain ⟨c', hc', rfl, -⟩ := ClassDef.exists_of_laidOut_file hfile
    exact hstorable.not_isPrefix_packages (List.mem_append_left _ hc') (by simp)
      ((List.prefix_append_right_inj _).mp hq)

/-- No directory is in the place of one more class: it would be on the way to the file of a
class. -/
theorem ne_directory {c : ClassDef} (h : d.HoldsClasses place classes)
    (hstorable : Storable (classes ++ [c])) :
    d.kindAt? (place ++ c.fileNames) ≠ some .directory := by
  intro hdirectory
  rw [h] at hdirectory
  obtain hempty | ⟨c', hc', hbegin⟩ := ClassDef.exists_of_laidOut_directory hdirectory
  · exact c.fileNames_ne_nil hempty
  · exact hstorable.not_isPrefix_packages (by simp) (List.mem_append_left _ hc') hbegin

end HoldsClasses

end Disk

namespace ClassDef

/-- A class is written in stages: the directories on the way are made, and its file is put there. -/
theorem ends_writeBelow {c : ClassDef} {made : Disk}
    (hmake : d.makeDirectories (directory.join c.packages) = (.ok (), made))
    (hput : made.putFile (directory.join c.fileNames) c.print.toUTF8 = .ok d') :
    (c.writeBelow directory).Ends d (.ok (directory.join c.fileNames)) d' := by
  rw [writeBelow, place_eq]
  exact (Run.ends_makeDirectories hmake).bind
    ((Run.ends_changing hput _).bind (Run.ends_pure _ d'))

/-- A class is written where no file stands on the way and no directory in its place: the
directories on the way are there then, and the file. -/
theorem exists_writeBelow (h : d.CanFollow directory) {c : ClassDef} (hplaceable : c.IsPlaceable)
    (haccept : (directory.join c.fileNames).IsAcceptable)
    (hfree : d.NoFileTo (d.placeOf directory ++ c.packages))
    (hfile : d.kindAt? (d.placeOf directory ++ c.fileNames) ≠ some .directory) :
    ∃ d', (c.writeBelow directory).Ends d (.ok (directory.join c.fileNames)) d' ∧
      d.Becomes d' fun q =>
        if q = d.placeOf directory ++ c.fileNames then some (.file c.print.toUTF8)
        else if q <+: d.placeOf directory ++ c.packages then some .directory
        else d.kindAt? q := by
  obtain ⟨last, -, hfileNames⟩ := c.exists_splitOf_eq
  have hnames := hplaceable.fileNames
  rw [hfileNames] at hnames
  have hacceptPackages : (directory.join c.packages).IsAcceptable :=
    h.acceptable.of_join (fun s hs => (hplaceable.packages s hs).1)
      (fun s hs => (hnames s (List.mem_append_right _ hs)).1) (hfileNames ▸ haccept)
  obtain ⟨made, hmake, hmade⟩ :=
    h.exists_makeDirectories_join hplaceable.packages hacceptPackages hfree
  -- The directories on the way are there now, and in the place of the file is what was there before.
  have hcan : made.CanFollow directory :=
    h.of_becomes hmade (by rw [if_pos (List.prefix_append _ _)])
  have hway : made.kindAt? (made.placeOf directory ++ c.packages) = some .directory := by
    rw [hmade.placeOf, hmade.kindAt?, if_pos (List.prefix_refl _)]
  have hvacant : made.kindAt? (made.placeOf directory ++
      (c.packages ++ [last ++ classFileEnding])) ≠ some .directory := by
    rw [hmade.placeOf, hmade.kindAt?, if_neg]
    · exact hfileNames ▸ hfile
    · intro hbegin
      have hlength := hbegin.length_le
      simp only [List.length_append, List.length_singleton] at hlength
      omega
  obtain ⟨written, hput, hwritten⟩ :=
    hcan.exists_putFile_join hnames (hfileNames ▸ haccept) hway hvacant c.print.toUTF8
  rw [← hfileNames] at hput
  refine ⟨written, ends_writeBelow hmake hput, (hmade.trans hwritten).congr fun q => ?_⟩
  rw [hmade.placeOf, hmade.kindAt?, hfileNames]

end ClassDef

namespace ClassDirectory

open ClassDef (Storable laidOut)

/-- Whether the file system takes the paths of a directory and of the files of classes below it. -/
structure IsAccepted (directory : Path) (classes : List ClassDef) : Prop where
  /-- It takes the path of the directory. -/
  acceptable : directory.IsAcceptable
  /-- It takes the path of the file of each class. -/
  files : ∀ c ∈ classes, (directory.join c.fileNames).IsAcceptable

/-- What stands at all places where classes have been laid out in a staging directory: the
directories on the way to it are there, and nothing else has changed. -/
def staged (d : Disk) (staging : Path) (classes : List ClassDef) (q : Location) : Option Kind :=
  if d.placeOf staging <+: q then laidOut classes (q.drop (d.placeOf staging).length)
  else if q <+: d.placeOf staging then some .directory
  else d.kindAt? q

/-- What stands at all places where classes that were laid out in a staging directory have been
moved to the goal: they are laid out there, and nothing is left of the staging directory. -/
def published (d : Disk) (goal staging : Path) (classes : List ClassDef) (q : Location) : Option Kind :=
  if d.placeOf goal <+: q then laidOut classes (q.drop (d.placeOf goal).length)
  else if d.placeOf staging <+: q then none
  else if q <+: d.placeOf staging then some .directory
  else d.kindAt? q

/-- The staging directory is there where classes have been laid out in it. -/
@[simp]
theorem staged_placeOf (d : Disk) (staging : Path) (classes : List ClassDef) :
    staged d staging classes (d.placeOf staging) = some .directory := by
  simp [staged, ClassDef.laidOut_root]

/-- The goal is there where classes have been moved to it. -/
@[simp]
theorem published_placeOf (d : Disk) (goal staging : Path) (classes : List ClassDef) :
    published d goal staging classes (d.placeOf goal) = some .directory := by
  simp [published, ClassDef.laidOut_root]

/-! ### Filling a directory -/

/-- Writing one more class to a directory in which others are laid out lays out that class too. -/
theorem exists_writeNext {done : List ClassDef} {c : ClassDef} (h : d.CanFollow directory)
    (hstorable : Storable (done ++ [c])) (haccept : (directory.join c.fileNames).IsAcceptable)
    (hheld : d.HoldsClasses (d.placeOf directory) done) :
    ∃ d', (c.writeBelow directory).Ends d (.ok (directory.join c.fileNames)) d' ∧
      d.Becomes d' fun q =>
        if d.placeOf directory <+: q then
          laidOut (done ++ [c]) (q.drop (d.placeOf directory).length)
        else d.kindAt? q := by
  obtain ⟨d', hwrite, hbecomes⟩ := c.exists_writeBelow h (hstorable.placeable c (by simp)) haccept
    (hheld.noFileTo_packages hstorable) (hheld.ne_directory hstorable)
  refine ⟨d', hwrite, hbecomes.congr fun q => ?_⟩
  by_cases hq : d.placeOf directory <+: q
  · obtain ⟨rest, rfl⟩ := hq
    simp only [List.append_cancel_left_eq, List.prefix_append_right_inj, hheld rest,
      List.prefix_append, if_true, List.drop_left, ClassDef.laidOut_concat]
  · have hfile : q ≠ d.placeOf directory ++ c.fileNames := fun heq =>
      hq (heq ▸ List.prefix_append _ _)
    rw [if_neg hq, if_neg hfile]
    split
    · next hway =>
      -- What is on the way but not below the directory is above it.
      obtain habove | hbelow := List.prefix_or_prefix_of_prefix hway (List.prefix_append _ _)
      · rw [Disk.kindAt?_of_isPrefix hheld.kindAt?_place habove]
      · exact absurd hbelow hq
    · rfl

/-- Classes are written one after the other. -/
theorem ends_writeClasses_cons {c : ClassDef} {classes : List ClassDef} {apiLevel : UInt32}
    {file : Path} {next : Disk} (hfirst : (c.writeBelow directory).Ends d (.ok file) next)
    (hrest : (writeClasses ⟨classes, apiLevel⟩ directory).Ends next (.ok ()) d') :
    (writeClasses ⟨c :: classes, apiLevel⟩ directory).Ends d (.ok ()) d' :=
  (hfirst.bind (Run.ends_report _ _ _ next)).bind hrest

/-- Writing classes to a directory in which others are laid out lays out all of them there, and
changes nothing anywhere else. -/
theorem exists_writeClasses {done classes : List ClassDef} (h : d.CanFollow directory)
    (hstorable : Storable (done ++ classes)) (haccept : IsAccepted directory classes)
    (hheld : d.HoldsClasses (d.placeOf directory) done)
    (apiLevel : UInt32) :
    ∃ d', (writeClasses ⟨classes, apiLevel⟩ directory).Ends d (.ok ()) d' ∧
      d.Becomes d' fun q =>
        if d.placeOf directory <+: q then
          laidOut (done ++ classes) (q.drop (d.placeOf directory).length)
        else d.kindAt? q := by
  -- On the classes that are left; those that are laid out grow by the first of them.
  induction classes generalizing d done with
  | nil =>
    refine ⟨d, Run.ends_pure () d, Disk.becomes_self fun q => ?_⟩
    split
    · next hq =>
      obtain ⟨rest, rfl⟩ := hq
      rw [hheld, List.append_nil, List.drop_left]
    · rfl
  | cons c classes ih =>
    have hsplit : done ++ c :: classes = done ++ [c] ++ classes := by simp
    rw [hsplit] at hstorable ⊢
    obtain ⟨hfile, hfiles⟩ := List.forall_mem_cons.mp haccept.files
    obtain ⟨next, hwrite, hnext⟩ := exists_writeNext h hstorable.of_append hfile hheld
    have hheld' : next.HoldsClasses (next.placeOf directory) (done ++ [c]) :=
      hnext.placeOf directory ▸ hnext.holdsClasses
    have hcan : next.CanFollow directory :=
      h.of_becomes hnext (by simp [ClassDef.laidOut_root])
    obtain ⟨d', hrest, hd'⟩ := ih hcan hstorable ⟨haccept.acceptable, hfiles⟩ hheld'
    refine ⟨d', ends_writeClasses_cons hwrite hrest, (hnext.trans hd').congr fun q => ?_⟩
    rw [hnext.placeOf]
    split
    · rfl
    · next hq => rw [hnext.kindAt?, if_neg hq]

/-! ### The staging directory -/

/-- The name of a staging directory is another one than that of its goal. -/
theorem stagingName_ne (name : String) : "." ++ name ++ ".partial" ≠ name := fun heq => by
  have hlength := congrArg (·.toList.length) heq
  simp at hlength
  omega

/-- The name of a staging directory leads down. -/
theorem stagingName_plain (name : String) :
    "." ++ name ++ ".partial" ≠ "" ∧ "." ++ name ++ ".partial" ≠ "." ∧
      "." ++ name ++ ".partial" ≠ ".." := by
  have hlong : ∀ s, s.toList.length ≤ 2 → "." ++ name ++ ".partial" ≠ s := by
    intro s hs heq
    rw [← heq] at hs
    simp at hs
  exact ⟨hlong "" (by decide), hlong "." (by decide), hlong ".." (by decide)⟩

/-- A goal with a staging directory has a name and a parent, to which the name of the staging
directory is added. -/
theorem eq_push_of_staging? (h : staging? goal = some staging) :
    ∃ name parent, goal.fileName? = some name ∧ goal.parent? = some parent ∧
      staging = parent.push ("." ++ name ++ ".partial") := by
  unfold staging? at h
  cases hname : goal.fileName? with
  | none => simp [hname] at h
  | some name =>
    cases hparent : goal.parent? with
    | none => simp [hname, Path.sibling?, hparent] at h
    | some parent =>
      refine ⟨name, parent, rfl, rfl, ?_⟩
      simpa [hname, Path.sibling?, hparent] using h.symm

/-- The path of a staging directory ends with a name that leads down. -/
theorem exists_segments_staging (h : staging? goal = some staging) :
    ∃ front name, staging.segments = front ++ [name] ∧ name ≠ "" ∧ name ≠ "." ∧ name ≠ ".." := by
  obtain ⟨name, parent, -, -, rfl⟩ := eq_push_of_staging? h
  obtain ⟨front, hsegments, -⟩ := parent.segments_push ("." ++ name ++ ".partial")
  exact ⟨front, _, hsegments, stagingName_plain name⟩

/-- The path of a staging directory has a text. -/
theorem text_staging_ne (h : staging? goal = some staging) : staging.text ≠ "" := by
  obtain ⟨front, name, hsegments, hname, -⟩ := exists_segments_staging h
  refine Path.text_ne_empty ?_
  rw [Path.names, hsegments, Path.namesIn_append, Path.namesIn_cons hname]
  simp

/-- The staging directory of a goal stands beside it, under another name. -/
theorem exists_of_staging? (hplain : goal.IsPlain) (h : staging? goal = some staging) :
    ∃ front name, goal.names = front ++ [name] ∧ staging.names = front ++ ["." ++ name ++ ".partial"] ∧
      staging.isAbsolute = goal.isAbsolute ∧ staging.IsPlain := by
  obtain hnone | ⟨front, name, hnames⟩ := List.eq_nil_or_concat' goal.names
  · rw [staging?, Path.fileName?_eq_none hplain hnone] at h
    cases h
  · obtain ⟨parent, hparent, habsolute, hsegments, hparentNames⟩ := Path.parent?_eq hplain hnames
    obtain ⟨hempty, hdot, hup⟩ := stagingName_plain name
    rw [staging?, Path.fileName?_eq hplain hnames] at h
    obtain rfl : parent.push ("." ++ name ++ ".partial") = staging := by
      simpa [Path.sibling?, hparent] using h
    refine ⟨front, name, hnames, ?_, by rw [Path.isAbsolute_push, habsolute], ?_⟩
    · rw [Path.names_push _ hempty, hparentNames]
    · have hparentPlain : parent.IsPlain := fun s hs => hplain s (hsegments.subset hs)
      exact hparentPlain.push ⟨hdot, hup⟩

/-- What stands at the goal and beside it before a program is written there: the goal is missing or
an empty directory, the staging directory is missing or a directory, and no file stands on the way
to them. -/
structure IsVacant (d : Disk) (goal staging : Path) : Prop where
  /-- The path starts from a directory. -/
  start : d.kindAt? (d.start goal) = some .directory
  /-- No file stands on the way. -/
  ancestors : d.NoFileTo (d.placeOf goal).dropLast
  /-- The goal is missing or empty. -/
  goal : d.IsEmptyAt (d.placeOf goal)
  /-- The staging directory is missing, or one that was left behind. -/
  staging : ∀ content, d.kindAt? (d.placeOf staging) ≠ some (.file content)

/-- Where nothing is in the way a run goes on. -/
theorem ends_cleared_of_missing {p : Path} (hmissing : d.pathExists p = false)
    (remove : Disk → Except Disk.Fault Disk) (cause : Disk.Fault → Cause) {rest : Run Unit}
    (hrest : rest.Ends d (.ok ()) d') :
    Run.Ends (do
      if (← Run.disk).pathExists p then Run.changing remove cause
      rest) d (.ok ()) d' := by
  refine (Run.ends_disk d).bind ?_
  rw [hmissing]
  exact hrest

/-- A directory that is in the way is taken away before a run goes on, if that is possible. Then
nothing stands there. -/
theorem exists_cleared {p : Path} (h : d.CanFollow p) (hfree : d.NoFileTo (d.placeOf p))
    (remove : Disk → Except Disk.Fault Disk) (cause : Disk.Fault → Cause)
    (hremove : d.kindAt? (d.placeOf p) = some .directory → ∃ d', remove d = .ok d' ∧
      d.Becomes d' fun q => if d.placeOf p <+: q then none else d.kindAt? q) :
    ∃ cleared,
      (d.Becomes cleared fun q => if d.placeOf p <+: q then none else d.kindAt? q) ∧
      ∀ {rest : Run Unit} {d' : Disk}, rest.Ends cleared (.ok ()) d' →
        Run.Ends (do
          if (← Run.disk).pathExists p then Run.changing remove cause
          rest) d (.ok ()) d' := by
  have hexists := h.pathExists_eq hfree
  obtain hnone | hdirectory := hfree.kindAt?_eq
  · have hmissing : d.pathExists p = false := by rw [hexists, hnone]; rfl
    refine ⟨d, Disk.becomes_self fun q => ?_,
      fun hrest => ends_cleared_of_missing hmissing remove cause hrest⟩
    split
    · next hq =>
      obtain ⟨rest, rfl⟩ := hq
      exact Disk.Node.kindAt?_append_eq_none hnone rest
    · rfl
  · obtain ⟨cleared, hremove, hcleared⟩ := hremove hdirectory
    refine ⟨cleared, hcleared, fun hrest => (Run.ends_disk d).bind ?_⟩
    rw [hexists, hdirectory]
    exact (Run.ends_changing hremove cause).bind hrest

/-- Nothing below a place is below another one beside it. -/
theorem not_isPrefix_beside {name name' : String} (hne : name ≠ name') (front rest : Location) :
    ¬front ++ [name] <+: front ++ [name'] ++ rest := by
  rw [List.append_assoc, List.prefix_append_right_inj]
  simpa using hne

/-- With no file in the way, a staging directory is made that is empty. -/
theorem exists_prepare (h : d.CanFollow staging) {front : List String} {name : String}
    (hnames : staging.names = front ++ [name]) (hfree : d.NoFileTo (d.placeOf staging)) :
    ∃ d', (prepare staging).Ends d (.ok ()) d' ∧ d.Becomes d' (staged d staging []) := by
  -- What was left behind is taken away.
  obtain ⟨cleared, hcleared, hgoesOn⟩ := exists_cleared h hfree (·.removeTree staging)
    (Cause.removing staging.text) (h.exists_removeTree hnames)
  have hstart : ¬d.placeOf staging <+: d.start staging := fun hbegin =>
    Disk.not_placeOf_isPrefix hnames (hbegin.trans (List.prefix_append _ _))
  have hcan : cleared.CanFollow staging := h.of_start hcleared (by rw [if_neg hstart]; exact h.start)
  have hfree' : cleared.NoFileTo (cleared.placeOf staging) := by
    intro q hq content hfile
    rw [hcleared.placeOf] at hq
    rw [hcleared.kindAt?] at hfile
    split at hfile
    · cases hfile
    · exact hfree q hq content hfile
  -- The directory is made anew.
  obtain ⟨d', hmake, hmade⟩ := Disk.exists_makeDirectories hcan.plain hcan.start
    (fun _ => hcan.acceptable) hfree'
  refine ⟨d', hgoesOn (Run.ends_makeDirectories hmake), (hcleared.trans hmade).congr fun q => ?_⟩
  rw [hcleared.placeOf, hcleared.kindAt?, staged]
  by_cases hq : d.placeOf staging <+: q
  · obtain ⟨rest, rfl⟩ := hq
    have hroot : d.placeOf staging ++ rest <+: d.placeOf staging ↔ rest = [] :=
      ⟨fun hbegin => by
        have hlength := hbegin.length_le
        rw [List.length_append] at hlength
        exact List.eq_nil_of_length_eq_zero (by omega), fun hrest => by simp [hrest]⟩
    simp [ClassDef.laidOut_nil, hroot]
  · rw [if_neg hq, if_neg hq]

/-- What stands in the staging directory is moved to the goal beside it, where nothing is but
possibly an empty directory. -/
theorem exists_publish (hstaging : d.CanFollow staging) (hgoal : d.CanFollow goal)
    {front : List String} {name name' : String} (hnames : staging.names = front ++ [name'])
    (hnames' : goal.names = front ++ [name]) (hbeside : d.start staging = d.start goal)
    (hne : name' ≠ name) (hplace : d.kindAt? (d.placeOf staging) = some .directory)
    (hvacant : d.IsEmptyAt (d.placeOf goal)) :
    ∃ d', (publish staging goal).Ends d (.ok ()) d' ∧ d.Becomes d' fun q =>
      if d.placeOf goal <+: q then
        d.kindAt? (d.placeOf staging ++ q.drop (d.placeOf goal).length)
      else if d.placeOf staging <+: q then none
      else d.kindAt? q := by
  have hstagingPlace := Disk.placeOf_eq d hnames
  have hgoalPlace := Disk.placeOf_eq d hnames'
  have hfront : d.kindAt? (d.start goal ++ front) = some .directory := by
    rw [hstagingPlace, hbeside] at hplace
    exact Disk.Node.kindAt?_directory_of_append hplace
  have hfree : d.NoFileTo (d.placeOf goal) := by
    rw [hgoalPlace]
    exact (Disk.noFileTo_of_directory hfront).concat (hgoalPlace ▸ hvacant.ne_file)
  -- An empty directory at the goal is taken away.
  obtain ⟨cleared, hcleared, hgoesOn⟩ := exists_cleared hgoal hfree (·.removeDirectory goal)
    (Cause.removing goal.text) fun hdirectory => hgoal.exists_removeDirectory hnames' <| by
      obtain hnone | hempty := hvacant
      · cases hnone.symm.trans hdirectory
      · exact hempty
  have houtside : ¬d.placeOf goal <+: d.start goal ++ front := Disk.not_placeOf_isPrefix hnames'
  have hstart : ¬d.placeOf goal <+: d.start goal := fun hbegin =>
    houtside (hbegin.trans (List.prefix_append _ _))
  have hapart : ∀ rest, ¬d.placeOf goal <+: d.placeOf staging ++ rest := by
    rw [hgoalPlace, hstagingPlace, hbeside]
    exact not_isPrefix_beside hne.symm _
  have hstagingCan : cleared.CanFollow staging :=
    hstaging.of_start hcleared (by rw [hbeside, if_neg hstart]; exact hgoal.start)
  have hgoalCan : cleared.CanFollow goal :=
    hgoal.of_start hcleared (by rw [if_neg hstart]; exact hgoal.start)
  -- Then the staging directory is moved there.
  obtain ⟨d', hmove, hmoved⟩ := hstagingCan.exists_moveDirectory hnames
    (by
      rw [hcleared.placeOf, hcleared.kindAt?, if_neg, hplace]
      exact fun hbegin => hapart [] (by simpa using hbegin))
    hgoalCan hnames' (by rw [hcleared.start, hcleared.kindAt?, if_neg houtside, hfront])
    (by rw [hcleared.placeOf, hcleared.kindAt?, if_pos (List.prefix_refl _)])
    (by
      rw [hcleared.placeOf, hcleared.start, ← hbeside]
      exact Disk.not_placeOf_isPrefix hnames)
  refine ⟨d', hgoesOn (Run.ends_changing hmove _), (hcleared.trans hmoved).congr fun q => ?_⟩
  simp only [hcleared.placeOf, hcleared.kindAt?, if_neg (hapart _)]
  split
  · rfl
  · rfl

/-- In a staging directory that is made empty the classes are laid out, and nothing else changes but
that the directories on the way to it are there. -/
theorem exists_stage (h : d.CanFollow staging) {front : List String} {name : String}
    (hnames : staging.names = front ++ [name]) (hfree : d.NoFileTo (d.placeOf staging))
    {p : Program} (hstorable : Storable p.classes) (haccept : IsAccepted staging p.classes) :
    ∃ prepared filled, (prepare staging).Ends d (.ok ()) prepared ∧
      (writeClasses p staging).Ends prepared (.ok ()) filled ∧
        d.Becomes filled (staged d staging p.classes) := by
  obtain ⟨prepared, hprepare, hprepared⟩ := exists_prepare h hnames hfree
  have hcan : prepared.CanFollow staging :=
    h.of_becomes hprepared (by simp)
  have hheld : prepared.HoldsClasses (prepared.placeOf staging) [] :=
    hprepared.placeOf staging ▸ hprepared.holdsClasses
  have hfromNone : Storable ([] ++ p.classes) := hstorable
  obtain ⟨filled, hfill, hfilled⟩ :=
    exists_writeClasses hcan hfromNone haccept hheld p.apiLevel
  refine ⟨prepared, filled, hprepare, hfill, (hprepared.trans hfilled).congr fun q => ?_⟩
  rw [hprepared.placeOf, hprepared.kindAt?, staged, staged]
  by_cases hq : d.placeOf staging <+: q
  · rw [if_pos hq, if_pos hq]
    rfl
  · rw [if_neg hq, if_neg hq, if_neg hq]

/-! ### The goal -/

/-- Where nothing is at a goal but possibly an empty directory, that is so still when classes are
laid out in the staging directory beside it. -/
theorem isEmptyAt_of_stage {filled : Disk} {classes : List ClassDef} {front : List String}
    {name : String} (hnames : staging.names = front ++ ["." ++ name ++ ".partial"])
    (hnames' : goal.names = front ++ [name]) (hbeside : d.start staging = d.start goal)
    (hfilled : d.Becomes filled (staged d staging classes))
    (hvacant : d.IsEmptyAt (d.placeOf goal)) : filled.IsEmptyAt (filled.placeOf goal) := by
  rw [hfilled.placeOf]
  refine hvacant.congr fun rest => ?_
  rw [hfilled.kindAt?, staged, Disk.placeOf_eq d hnames, Disk.placeOf_eq d hnames', hbeside, if_neg,
    if_neg]
  · intro hbegin
    exact not_isPrefix_beside (stagingName_ne name).symm (d.start goal ++ front) []
      (by simpa using (List.prefix_append _ rest).trans hbegin)
  · exact not_isPrefix_beside (stagingName_ne name) _ rest

/-- What is laid out in the staging directory is moved to the goal, where nothing is but possibly an
empty directory. Then below the goal the classes are laid out, and the directories on the way to it
are there; below the staging directory there is nothing, and everywhere else what was there before
the staging directory was made. -/
theorem exists_publish_stage {filled : Disk} {classes : List ClassDef} (hstaging : d.CanFollow staging)
    (hplain : goal.IsPlain) (haccept : goal.IsAcceptable) {front : List String} {name : String}
    (hnames : staging.names = front ++ ["." ++ name ++ ".partial"])
    (hnames' : goal.names = front ++ [name]) (habsolute : staging.isAbsolute = goal.isAbsolute)
    (hfilled : d.Becomes filled (staged d staging classes))
    (hvacant : filled.IsEmptyAt (filled.placeOf goal)) :
    ∃ d', (publish staging goal).Ends filled (.ok ()) d' ∧
      d.Becomes d' (published d goal staging classes) := by
  have hbeside := filled.start_of_isAbsolute habsolute
  have hstagingCan : filled.CanFollow staging :=
    hstaging.of_becomes hfilled (by simp)
  have hgoalCan : filled.CanFollow goal := ⟨hplain, haccept, hbeside ▸ hstagingCan.start⟩
  have hheld := hfilled.holdsClasses
  obtain ⟨d', hpublish, hpublished⟩ := exists_publish hstagingCan hgoalCan hnames hnames' hbeside
    (stagingName_ne name) (hfilled.placeOf staging ▸ hheld.kindAt?_place) hvacant
  refine ⟨d', hpublish, (hfilled.trans hpublished).congr fun q => ?_⟩
  rw [hfilled.placeOf, hfilled.placeOf, hheld, hfilled.kindAt?, staged, published]
  by_cases hq : d.placeOf staging <+: q
  · rw [if_pos hq, if_pos hq]
  · rw [if_neg hq, if_neg hq, if_neg hq]

/-- The check of a goal passes where nothing is. -/
theorem ends_checkVacant_of_missing (hmissing : d.pathExists goal = false) :
    (checkVacant goal).Ends d (.ok ()) d := by
  refine (Run.ends_disk d).bind ?_
  rw [hmissing]
  exact Run.ends_pure () d

/-- The check of a goal passes where nothing is or an empty directory. -/
theorem ends_checkVacant (h : d.CanFollow goal) (hfree : d.NoFileTo (d.placeOf goal))
    (hvacant : d.IsEmptyAt (d.placeOf goal)) : (checkVacant goal).Ends d (.ok ()) d := by
  obtain hnone | hempty := hvacant
  · exact ends_checkVacant_of_missing (by rw [h.pathExists_eq hfree, hnone]; rfl)
  · refine (Run.ends_disk d).bind ?_
    rw [h.pathExists_eq hfree, Disk.kindAt?_of_find? hempty]
    refine (Run.ends_reading (h.list_eq hempty) _).bind ?_
    exact Run.ends_pure () d

/-- A program is written in stages. -/
theorem ends_write {p : Program} {prepared filled : Disk} (hnodup : p.names.Nodup)
    (hvacant : (checkVacant goal).Ends d (.ok ()) d) (hstaging : staging? goal = some staging)
    (hprepare : (prepare staging).Ends d (.ok ()) prepared)
    (hfill : (writeClasses p staging).Ends prepared (.ok ()) filled)
    (hpublish : (publish staging goal).Ends filled (.ok ()) d') :
    (write p goal).Ends d (.ok ()) d' := by
  have hunique : (Run.ofExcept p.checkUnique).Ends d (.ok ()) d := by
    rw [Program.checkUnique_eq_ok.mpr hnodup]
    exact Run.ends_ofExcept (.ok ()) d
  refine hunique.bind (hvacant.bind ?_)
  rw [hstaging]
  exact hprepare.bind ((hfill.tryCatch _).bind (hpublish.bind (Run.ends_report _ _ _ d')))

/-- A program whose classes can be kept in one directory is written to a goal that is vacant. Then
below the goal the classes are laid out, and the directories on the way to it are there; below the
staging directory there is nothing, and everywhere else what was there before. -/
theorem exists_write (hplain : goal.IsPlain) (hstaging : staging? goal = some staging)
    (hvacant : IsVacant d goal staging) {p : Program} (hstorable : Storable p.classes)
    (haccept : IsAccepted staging p.classes) (hacceptGoal : goal.IsAcceptable) :
    ∃ d', (write p goal).Ends d (.ok ()) d' ∧ d.Becomes d' (published d goal staging p.classes) := by
  obtain ⟨front, name, hnames, hnames', habsolute, hplain'⟩ := exists_of_staging? hplain hstaging
  have hbeside := d.start_of_isAbsolute habsolute
  have hgoalPlace := Disk.placeOf_eq d hnames
  have hstagingPlace := Disk.placeOf_eq d hnames'
  rw [hbeside] at hstagingPlace
  have hfront : d.NoFileTo (d.start goal ++ front) := by
    have hancestors := hvacant.ancestors
    rwa [hgoalPlace, List.dropLast_concat] at hancestors
  have hgoalFree : d.NoFileTo (d.placeOf goal) := by
    rw [hgoalPlace]
    exact hfront.concat (hgoalPlace ▸ hvacant.goal.ne_file)
  have hstagingFree : d.NoFileTo (d.placeOf staging) := by
    rw [hstagingPlace]
    exact hfront.concat (hstagingPlace ▸ hvacant.staging)
  have hgoalCan : d.CanFollow goal := ⟨hplain, hacceptGoal, hvacant.start⟩
  have hstagingCan : d.CanFollow staging :=
    ⟨hplain', haccept.acceptable, hbeside ▸ hvacant.start⟩
  obtain ⟨prepared, filled, hprepare, hfill, hfilled⟩ :=
    exists_stage hstagingCan hnames' hstagingFree hstorable haccept
  -- At the goal nothing has changed by that, so the staging directory can be moved there.
  have hvacant' := isEmptyAt_of_stage hnames' hnames hbeside hfilled hvacant.goal
  obtain ⟨d', hpublish, hpublished⟩ := exists_publish_stage hstagingCan hplain hacceptGoal hnames'
    hnames habsolute hfilled hvacant'
  have hcheck := ends_checkVacant hgoalCan hgoalFree hvacant.goal
  exact ⟨d', ends_write hstorable.nodup hcheck hstaging hprepare hfill hpublish, hpublished⟩

end ClassDirectory

end GatedCalls
