import GatedCalls.Proofs.ClassDirectory.Confinement
import GatedCalls.Proofs.ClassDirectory.Publishing

/-!
# What a failed write leaves

A program is written in stages, and each of them can fail. Before the staging directory is made
nothing has changed. While it is made, directories on the way to the goal are made, and no others
(`leavesNoOutput_of_prepare`). Classes are written below it, if their names can be followed, so it
can be taken away again with all that was written (`leavesNoOutput_of_fill`). The last stage has no
such care: a staging directory that cannot be moved to the goal stays (`leavesStaged_of_publish`),
which only some goals can bring about (`IsPublishable`).
-/

namespace GatedCalls

open Disk (Location Path)

variable {d d' d'' : Disk} {directory goal staging : Path}

/-! ### Classes -/

/-- Writing a class with a name that can be followed changes something only below the directory,
whether it succeeds or not. -/
theorem ClassDef.changesBelow_of_writeBelow {c : ClassDef} (hplaceable : c.IsPlaceable)
    (hleads : d.Leads (d.start directory) directory.segments) {result : Except Failure Path}
    (h : (c.writeBelow directory).Ends d result d') :
    d.ChangesBelow d' (d.destination directory) := by
  obtain ⟨result', made, hmake, hput⟩ := cases_of_ends_writeBelow h
  have hmade := Disk.changesBelow_of_makeDirectories hleads hplaceable.packages hmake
  obtain ⟨-, rfl⟩ | ⟨-, hput⟩ := hput
  · exact hmade
  · have hplace : made.destination (directory.join c.fileNames) =
        d.destination directory ++ c.fileNames := by
      have hnames := hplaceable.fileNames
      rw [Disk.destination_join, hmade.keeps.destination,
        Disk.placeAlong_eq _ fun s hs => (hnames s hs).2, Path.namesIn,
        List.filter_eq_self.mpr fun s hs => by simpa using (hnames s hs).1]
    refine hmade.trans ⟨(Disk.keepsDirectories_of_putFile hput).2, fun q hq => ?_⟩
    rw [(Disk.becomes_of_putFile hput).2.kindAt?, if_neg]
    rintro rfl
    exact hq (hplace ▸ List.prefix_append _ _)

namespace ClassDirectory

/-- Writing classes with names that can be followed changes something only below the directory,
whether it succeeds or not. -/
theorem changesBelow_of_writeClasses {classes : List ClassDef} {apiLevel : UInt32}
    (hplaceable : ∀ c ∈ classes, c.IsPlaceable)
    (hleads : d.Leads (d.start directory) directory.segments) {result : Except Failure Unit}
    (h : (writeClasses ⟨classes, apiLevel⟩ directory).Ends d result d') :
    d.ChangesBelow d' (d.destination directory) := by
  induction classes generalizing d with
  | nil =>
    obtain ⟨-, rfl⟩ := h.unique (Run.ends_pure () d)
    exact .refl _ _
  | cons c classes ih =>
    obtain ⟨hc, hplaceable⟩ := List.forall_mem_cons.mp hplaceable
    obtain ⟨e, -, hfailed⟩ | ⟨file, next, hfirst, hrest⟩ := cases_of_ends_writeClasses_cons h
    · exact ClassDef.changesBelow_of_writeBelow hc hleads hfailed
    · have hnext := ClassDef.changesBelow_of_writeBelow hc hleads hfirst
      have hlater := ih hplaceable (hnext.keeps.leads hleads) hrest
      exact hnext.trans (hnext.keeps.destination directory ▸ hlater)

/-! ### What a failure leaves -/

/-- Whether a place is on the way to the directory in which a goal stands. -/
def IsParentPlace (d : Disk) (goal : Path) (q : Location) : Prop :=
  ∃ parent, goal.parent? = some parent ∧ d.IsOnWay parent q

/-- Whether a place is that of a staging directory that was left behind, or is below it. -/
def IsLeftBehind (d : Disk) (staging : Path) (q : Location) : Prop :=
  d.kindAt? (d.destination staging) = some .directory ∧ d.destination staging <+: q

/-- Whether all that is different at a place after a change is that a directory was made there, on
the way to the directory of a goal, or that a staging directory was taken away that was left
behind. -/
def IsRestored (d d' : Disk) (goal staging : Path) (q : Location) : Prop :=
  d'.kindAt? q = d.kindAt? q ∨
    (d.kindAt? q = none ∨ IsLeftBehind d staging q) ∧
      (d'.kindAt? q = none ∨ IsParentPlace d goal q ∧ d'.kindAt? q = some .directory)

/-- What stands at a place tells whether it is as it was. -/
theorem IsRestored.congr {q : Location} (h : IsRestored d d' goal staging q)
    (hsame : d''.kindAt? q = d'.kindAt? q) : IsRestored d d'' goal staging q := by
  unfold IsRestored
  rw [hsame]
  exact h

/-- Whether a failed write has left no partial output. The goal is as it was, no staging directory
is there, and the files are those that were there, but for those in a staging directory that was
left behind. Directories may have been made on the way to the goal. -/
structure LeavesNoOutput (d d' : Disk) (goal staging : Path) : Prop where
  /-- What stands at the goal and below it is as it was, unless the path of the goal passes through
  there and leads up again. -/
  atGoal : ∀ q, d.destination goal <+: q → ¬IsParentPlace d goal q → d'.kindAt? q = d.kindAt? q
  /-- The path of the staging directory leads to no directory. -/
  notStaged : d'.isDirectory staging = false
  /-- No file is written and none is lost, but for those of an earlier write that was cut short. -/
  files : ∀ q, ¬IsLeftBehind d staging q → d'.fileAt? q = d.fileAt? q
  /-- Nothing else has changed but for the directories on the way to the goal. -/
  places : ∀ q, IsRestored d d' goal staging q

/-- A place at the goal or below is neither at the staging directory nor below. -/
theorem not_isPrefix_of_goal (hstaging : staging? goal = some staging) {q : Location}
    (hq : d.destination goal <+: q) : ¬d.destination staging <+: q := by
  obtain ⟨place, name, hgoal, hbeside⟩ := exists_destination_staging hstaging d
  obtain ⟨rest, rfl⟩ := hq
  rw [hgoal, hbeside]
  exact not_isPrefix_beside (stagingName_ne name) place rest

/-- Where all places are as they were, in this sense, and no staging directory is there, no output
is left. -/
theorem leavesNoOutput_of_isRestored (hstaging : staging? goal = some staging)
    (hplaces : ∀ q, IsRestored d d' goal staging q) (hnone : d'.isDirectory staging = false) :
    LeavesNoOutput d d' goal staging where
  atGoal q hq hparent := by
    obtain hsame | ⟨hvacant | hleft, hnow⟩ := hplaces q
    · exact hsame
    · rw [hvacant]
      exact hnow.resolve_right fun hmade => hparent hmade.1
    · exact absurd hleft.2 (not_isPrefix_of_goal hstaging hq)
  notStaged := hnone
  files q hq := by
    unfold Disk.fileAt?
    obtain hsame | ⟨hvacant | hleft, hnow⟩ := hplaces q
    · rw [hsame]
    · obtain hnow | ⟨-, hnow⟩ := hnow
      · rw [hvacant, hnow]
      · rw [hvacant, hnow]
        rfl
    · exact absurd hleft hq
  places := hplaces

/-! ### Making the staging directory -/

/-- The way to a staging directory leads to the directory in which the goal stands. -/
theorem isParentPlace_of_isOnWay (hstaging : staging? goal = some staging) {q : Location}
    (h : d.IsOnWay staging q) (hq : q ≠ d.destination staging) : IsParentPlace d goal q := by
  obtain ⟨name, parent, -, hparent, rfl⟩ := eq_push_of_staging? hstaging
  obtain hway | rfl := h.of_push
  · exact ⟨parent, hparent, hway⟩
  · exact absurd (d.destination_push parent _).symm hq

/-- So does the way to its parent, which is spelled as that of the goal, but for what means
nothing. -/
theorem isParentPlace_of_parent (hstaging : staging? goal = some staging) {above : Path} {q : Location}
    (habove : staging.parent? = some above) (h : d.IsOnWay above q) : IsParentPlace d goal q := by
  obtain ⟨name, parent, -, hparent, rfl⟩ := eq_push_of_staging? hstaging
  obtain ⟨front, hfront, rfl⟩ := h
  obtain ⟨habsolute, last, between, behind, -, -, hsegments, -⟩ :=
    Path.exists_segments_of_parent? habove
  obtain ⟨ahead, hpush, hahead, -⟩ := parent.segments_push ("." ++ name ++ ".partial")
  have hshorter : front <+: ahead := by
    obtain heq | hbefore := List.prefix_concat_iff.mp
      (hpush ▸ hsegments ▸ hfront.trans (List.prefix_append _ _))
    · have hlength := congrArg List.length (hsegments.symm.trans hpush)
      have hle := heq ▸ hfront.length_le
      simp only [List.length_append, List.length_cons, List.length_nil] at hlength hle
      omega
    · exact hbefore
  refine ⟨parent, hparent, front, hshorter.trans hahead, ?_⟩
  rw [d.start_of_isAbsolute habsolute, d.start_of_isAbsolute (Path.isAbsolute_push _ _)]

/-- A staging directory that was left behind, or none, is taken away, and nothing else. -/
theorem kindAt?_of_cleared {cleared : Disk} (h : cleared = d ∨ d.removeTree staging = .ok cleared) :
    cleared.workingDirectory = d.workingDirectory ∧ ∀ q, cleared.kindAt? q = d.kindAt? q ∨
      IsLeftBehind d staging q ∧ cleared.kindAt? q = none := by
  obtain rfl | hremove := h
  · exact ⟨rfl, fun _ => .inl rfl⟩
  · obtain ⟨⟨inner, hinner, -⟩, hremoved⟩ := Disk.becomes_of_removeWhere hremove
    refine ⟨hremoved.workingDirectory, fun q => ?_⟩
    rw [hremoved.kindAt?]
    split
    case isTrue hq => exact .inr ⟨⟨Disk.kindAt?_of_find? hinner, hq⟩, rfl⟩
    case isFalse => exact .inl rfl

/-- Directories that are made then, on the way to the directory of the goal, leave no other
change. -/
theorem isRestored_of_addsDirectories {cleared : Disk} {places : Location → Prop} {q : Location}
    (hcleared : cleared = d ∨ d.removeTree staging = .ok cleared)
    (hmade : cleared.AddsDirectories d' places) (hq : places q → IsParentPlace cleared goal q) :
    IsRestored d d' goal staging q := by
  obtain ⟨hstart, hkinds⟩ := kindAt?_of_cleared hcleared
  have hbefore : cleared.kindAt? q = none → d.kindAt? q = none ∨ IsLeftBehind d staging q :=
    fun hvacant => (hkinds q).imp (fun hsame => hsame.symm.trans hvacant) And.left
  obtain hsame | ⟨hplace, hvacant, hdirectory⟩ := hmade.kindAt? q
  · obtain hkind | ⟨hleft, hvacant⟩ := hkinds q
    · exact .inl (hsame.trans hkind)
    · exact .inr ⟨.inr hleft, .inl (hsame.trans hvacant)⟩
  · obtain ⟨parent, hparent, hway⟩ := hq hplace
    exact .inr ⟨hbefore hvacant, .inr ⟨⟨parent, hparent, hway.congr hstart.symm⟩, hdirectory⟩⟩

/-- Where the staging directory could not be made no output is left. -/
theorem leavesNoOutput_of_prepare (hstaging : staging? goal = some staging) {f : Failure}
    (h : (prepare staging).Ends d (.error f) d') : d' = d ∨ LeavesNoOutput d d' goal staging := by
  obtain ⟨fault, -, -, rfl⟩ | ⟨cleared, hcleared, hmake⟩ :=
    cases_of_ends_cleared (Run.isSettled_makeDirectories staging) h
  · exact .inl rfl
  obtain ⟨made, hmake, hresult⟩ := Run.exists_of_ends_makeDirectories hmake
  cases made with
  | ok a => cases hresult
  | error fault =>
    refine .inr (leavesNoOutput_of_isRestored hstaging (fun q => ?_)
      (Disk.isDirectory_of_makeDirectories_error hmake))
    exact isRestored_of_addsDirectories (hcleared.imp And.right And.right)
      (Disk.addsDirectories_of_makeDirectories_error hmake)
      fun ⟨_, habove, hway⟩ => isParentPlace_of_parent hstaging habove hway

/-! ### Filling the staging directory -/

/-- A staging directory that has been made replaces none, or one that was left behind. -/
theorem vacant_or_isLeftBehind {cleared prepared : Disk} {places : Location → Prop} {q : Location}
    (hcleared : cleared = d ∨ d.removeTree staging = .ok cleared)
    (hmade : cleared.AddsDirectories prepared places)
    (hthere : prepared.kindAt? (d.destination staging) = some .directory)
    (hq : d.destination staging <+: q) : d.kindAt? q = none ∨ IsLeftBehind d staging q := by
  cases hkind : d.kindAt? (d.destination staging) with
  | none =>
    obtain ⟨rest, rfl⟩ := hq
    exact .inl (Disk.Node.kindAt?_append_eq_none hkind rest)
  | some kind =>
    cases kind with
    | directory => exact .inr ⟨hkind, hq⟩
    | file content =>
      -- A file is neither taken away nor replaced.
      obtain hsame | ⟨⟨hdirectory, -⟩, -⟩ := (kindAt?_of_cleared hcleared).2 (d.destination staging)
      · have hfile := hsame.trans hkind
        rw [hmade.kindAt?_eq (by simp [hfile]), hfile] at hthere
        cases hthere
      · cases hkind.symm.trans hdirectory

/-- Once the staging directory is made its path leads there, through directories. It replaces none,
or one that was left behind, and all that does not stand in it is as it was. -/
theorem isRestored_of_prepare (hstaging : staging? goal = some staging)
    (h : (prepare staging).Ends d (.ok ()) d') :
    d'.destination staging = d.destination staging ∧
      d'.Leads (d'.start staging) staging.segments ∧
      (∀ q, d.destination staging <+: q → d.kindAt? q = none ∨ IsLeftBehind d staging q) ∧
      ∀ q, ¬d.destination staging <+: q → IsRestored d d' goal staging q := by
  obtain ⟨cleared, hcleared, hmake⟩ :=
    exists_of_ends_cleared (Run.isSettled_makeDirectories staging) h
  have hcleared := hcleared.imp And.right And.right
  have hmake := Run.eq_ok_of_ends_makeDirectories hmake
  have hmade := Disk.addsDirectories_of_makeDirectories hmake
  obtain ⟨-, hleads⟩ := Disk.leads_of_makeDirectories (text_staging_ne hstaging) hmake
  have hclearedPlace : cleared.destination staging = d.destination staging :=
    Disk.destination_congr (kindAt?_of_cleared hcleared).1 staging
  have hplace : d'.destination staging = d.destination staging :=
    (hmade.keepsDirectories.destination staging).trans hclearedPlace
  refine ⟨hplace, hleads, fun q hq => vacant_or_isLeftBehind hcleared hmade ?_ hq, fun q hq => ?_⟩
  · exact hplace ▸ hleads.directories _ (List.prefix_refl _)
  · exact isRestored_of_addsDirectories hcleared hmade fun hway =>
      isParentPlace_of_isOnWay hstaging hway fun heq =>
        hq (heq ▸ hclearedPlace ▸ List.prefix_refl _)

/-- Where the classes could not all be written the staging directory is taken away, and no output is
left. -/
theorem leavesNoOutput_of_fill (hstaging : staging? goal = some staging) {p : Program}
    (hplaceable : ∀ c ∈ p.classes, c.IsPlaceable) {f : Failure} {prepared partly : Disk}
    {result : Except Failure Unit} (hprepare : (prepare staging).Ends d (.ok ()) prepared)
    (hfill : (writeClasses p staging).Ends prepared (.error f) partly)
    (hdiscard : Run.Ends (do discard staging; throw f : Run Unit) partly result d') :
    LeavesNoOutput d d' goal staging := by
  obtain ⟨hpreparedPlace, hleads, hvacant, houtside⟩ := isRestored_of_prepare hstaging hprepare
  -- All that is written is below it, so its path still leads there, and it can be taken away.
  have hbelow := changesBelow_of_writeClasses hplaceable hleads hfill
  have hpartlyPlace : partly.destination staging = d.destination staging :=
    (hbelow.keeps.destination staging).trans hpreparedPlace
  obtain ⟨front, name, hsegments, hname⟩ := exists_segments_staging hstaging
  obtain ⟨removed, hremove⟩ := Disk.exists_removeTree_of_leads
    (checkPath_of_prepare hstaging hprepare) hsegments hname (hbelow.keeps.leads hleads)
  obtain ⟨-, hdiscarded | ⟨fault, hrefused, -⟩⟩ := cases_of_ends_discard hdiscard
  case inr => cases hremove.symm.trans hrefused
  have hremoved := (Disk.becomes_of_removeWhere hdiscarded).2
  rw [hpartlyPlace] at hremoved
  refine leavesNoOutput_of_isRestored hstaging (fun q => ?_) ?_
  · by_cases hq : d.destination staging <+: q
    · exact .inr ⟨hvacant q hq, .inl (by rw [hremoved.kindAt?, if_pos hq])⟩
    · refine (houtside q hq).congr ?_
      rw [hremoved.kindAt?, if_neg hq, hbelow.kindAt? q (hpreparedPlace ▸ hq)]
  · rw [← Bool.not_eq_true]
    intro hdirectory
    obtain ⟨-, hleads'⟩ := Disk.isDirectory_iff.mp hdirectory
    have hplace : d'.kindAt? (d'.destination staging) = some .directory :=
      hleads'.directories _ (List.prefix_refl _)
    rw [Disk.destination_congr hremoved.workingDirectory, hpartlyPlace, hremoved.kindAt?,
      if_pos (List.prefix_refl _)] at hplace
    cases hplace

/-! ### Moving the staging directory -/

/-- Whether a failed write has left its output beside the goal: the staging directory is there with
the files of all classes, though it could not be moved. All that is neither there nor at the goal is
as it was. -/
structure LeavesStaged (d d' : Disk) (goal staging : Path) (classes : List ClassDef) (f : Failure) :
    Prop where
  /-- It is the removal of an empty goal or the move to the goal that has failed. -/
  failure : ∃ fault, f = (Cause.removing goal.text fault).failure ∨
    f = (Cause.moving staging.text goal.text fault).failure
  /-- The staging directory is there. -/
  staged : d'.kindAt? (d.destination staging) = some .directory
  /-- The files are those of the classes, below the staging directory, and those that were there. -/
  files : d.LeavesFiles d' (stagedFiles d staging classes)
  /-- Elsewhere nothing has changed but for the directories on the way to the goal. -/
  places : ∀ q, ¬d.destination staging <+: q → ¬d.destination goal <+: q →
    IsRestored d d' goal staging q

/-- Where the staging directory could not be moved it stays. -/
theorem leavesStaged_of_publish (hstaging : staging? goal = some staging) {p : Program}
    (hplaceable : ∀ c ∈ p.classes, c.IsPlaceable) {f : Failure} {prepared filled : Disk}
    (hprepare : (prepare staging).Ends d (.ok ()) prepared)
    (hfill : (writeClasses p staging).Ends prepared (.ok ()) filled)
    (hpublish : (publish staging goal).Ends filled (.error f) d') :
    LeavesStaged d d' goal staging p.classes f := by
  obtain ⟨hpreparedPlace, hleads, -, houtside⟩ := isRestored_of_prepare hstaging hprepare
  have hbelow := changesBelow_of_writeClasses hplaceable hleads hfill
  have hfiles := leavesFiles_of_stage hprepare hfill
  have hthere : filled.kindAt? (d.destination staging) = some .directory :=
    hbelow.keeps.directory _ (hpreparedPlace ▸ hleads.directories _ (List.prefix_refl _))
  have hfilled : ∀ q, ¬d.destination staging <+: q → IsRestored d filled goal staging q :=
    fun q hq => (houtside q hq).congr (hbelow.kindAt? q (hpreparedPlace ▸ hq))
  obtain ⟨fault, hresult, -, rfl⟩ | ⟨cleared, hcleared, hmove⟩ :=
    cases_of_ends_cleared (Run.isSettled_changing _ _) hpublish
  · exact ⟨⟨fault, .inl (Except.error.inj hresult)⟩, hthere, hfiles, fun q hq _ => hfilled q hq⟩
  · obtain ⟨hok, -⟩ | ⟨fault, hresult, -, rfl⟩ := Run.cases_of_ends_changing hmove
    · cases hok
    have hfailure : ∃ fault, f = (Cause.removing goal.text fault).failure ∨
        f = (Cause.moving staging.text goal.text fault).failure :=
      ⟨fault, .inr (Except.error.inj hresult)⟩
    obtain ⟨-, rfl⟩ | ⟨-, hremove⟩ := hcleared
    · exact ⟨hfailure, hthere, hfiles, fun q hq _ => hfilled q hq⟩
    · -- An empty directory at the goal has been taken away, beside the staging directory.
      have hremoved := (Disk.becomes_of_removeWhere hremove).2
      rw [hfiles.destination goal] at hremoved
      have hfilesRemoved := Disk.leavesFiles_of_removeDirectory hremove
      refine ⟨hfailure, ?_, (hfiles.trans hfilesRemoved).congr hfiles.fileAt?,
        fun q hq hgoal => (hfilled q hq).congr (by rw [hremoved.kindAt?, if_neg hgoal])⟩
      rw [hremoved.kindAt?, if_neg, hthere]
      exact fun hbegin => not_isPrefix_of_goal hstaging hbegin (List.prefix_refl _)

/-- What a failed write leaves, if the names of the classes can be followed: the disk as it was, or
no partial output, or the staging directory with all classes, which could not be moved. That happens
only where the path of the goal leads through a directory that is missing, or through the goal
itself or its staging directory, is too long, or has a slash behind the name of a file. -/
theorem write_failed {p : Program} {f : Failure} (hplaceable : ∀ c ∈ p.classes, c.IsPlaceable)
    (h : (write p goal).Ends d (.error f) d') :
    d' = d ∨ ∃ staging, staging? goal = some staging ∧
      (LeavesNoOutput d d' goal staging ∨
        ¬IsPublishable d goal ∧ LeavesStaged d d' goal staging p.classes f) := by
  obtain ⟨-, hsame⟩ | ⟨hnodup, hvacant, staging, hstaging, hstaged⟩ := cases_of_ends_write h
  · exact .inl hsame
  cases hstaged with
  | prepare hprepare =>
    exact (leavesNoOutput_of_prepare hstaging hprepare).imp_right
      fun hnothing => ⟨staging, hstaging, .inl hnothing⟩
  | fill hprepare hfill hdiscard =>
    exact .inr ⟨staging, hstaging,
      .inl (leavesNoOutput_of_fill hstaging hplaceable hprepare hfill hdiscard)⟩
  | publish hprepare hfill hpublish =>
    refine .inr ⟨staging, hstaging, .inr ⟨fun hpublishable => ?_,
      leavesStaged_of_publish hstaging hplaceable hprepare hfill hpublish⟩⟩
    obtain ⟨_, hpublished⟩ := exists_publish_of_isPublishable hpublishable hstaging hnodup hplaceable
      hvacant hprepare hfill
    cases (hpublish.unique hpublished).1

/-- A program with two classes, one of which needs a directory where the other has its file. -/
def clashingProgram : Program :=
  ⟨[sampleClass "Main", sampleClass "Main.smali/Inner"], 19⟩

/-- It fails to be written to the directory of the sample disk, and leaves no partial output. -/
theorem write_failed_clashingProgram :
    ∃ f d', (write clashingProgram ⟨false, ["out"]⟩).Ends sampleDisk (.error f) d' ∧
      (d' = sampleDisk ∨
        LeavesNoOutput sampleDisk d' ⟨false, ["out"]⟩ ⟨false, [".out.partial"]⟩) := by
  have hplaceable : ∀ c ∈ clashingProgram.classes, c.IsPlaceable := by decide
  have hstaging : staging? ⟨false, ["out"]⟩ = some ⟨false, [".out.partial"]⟩ := by decide
  obtain ⟨result, d', hwrite⟩ := isSettled_write clashingProgram ⟨false, ["out"]⟩ sampleDisk
  cases result with
  | ok a =>
    -- If it were written the classes could be kept in one directory.
    obtain ⟨hnodup, staging, prepared, filled, hstaging, hprepare, hfill, hpublish⟩ :=
      exists_of_ends_write hwrite
    obtain ⟨-, hstorable, -⟩ :=
      becomes_of_steps (by decide) hstaging hnodup hplaceable hprepare hfill hpublish
    have hapart := hstorable.apart (sampleClass "Main") (by simp [clashingProgram])
      (sampleClass "Main.smali/Inner") (by simp [clashingProgram])
    exact absurd (by decide) hapart
  | error f =>
    have hpublishable : IsPublishable sampleDisk ⟨false, ["out"]⟩ :=
      ⟨isReached_of_isPlain (by decide) (by decide) rfl, Path.checkPath_eq_ok.mpr (by decide),
        by simp⟩
    refine ⟨f, d', hwrite, (write_failed hplaceable hwrite).imp_right ?_⟩
    rintro ⟨staging, hsame, hnothing | ⟨hnot, -⟩⟩
    · obtain rfl := Option.some.inj (hstaging.symm.trans hsame)
      exact hnothing
    · exact absurd hpublishable hnot

/-! ### A staging directory that stays -/

/-- A disk with a file where a program is to be written. -/
def occupiedDisk : Disk :=
  ⟨.directory [("out", .file "x".toUTF8)], []⟩

/-- A program of one class. -/
def mainProgram : Program :=
  ⟨[sampleClass "Main"], 19⟩

/-- The disk once the staging directory has been made. -/
def occupiedMade : Disk :=
  occupiedDisk.update [] (·.put ".out.partial" (.directory []))

/-- The disk once the class has been written. -/
def occupiedFilled : Disk :=
  occupiedMade.update [".out.partial"] (·.put "Main.smali" (.file (sampleClass "Main").print.toUTF8))

/-- The paths that are followed are such that the file system takes. -/
theorem checkPath_occupied : Disk.checkPath ⟨false, ["out", ""]⟩ = .ok () ∧
    Disk.checkPath ⟨false, [".out.partial"]⟩ = .ok () ∧
    Disk.checkPath ⟨false, [".out.partial", "Main.smali"]⟩ = .ok () := by
  simp only [Disk.Path.checkPath_eq_ok]
  decide

/-- The class is written to the staging directory. -/
theorem ends_writeClasses_mainProgram :
    (writeClasses mainProgram ⟨false, [".out.partial"]⟩).Ends occupiedMade (.ok ())
      occupiedFilled := by
  obtain ⟨-, hpath, hfile⟩ := checkPath_occupied
  have hpresent : occupiedMade.makeDirectory ⟨false, [".out.partial"]⟩ = .error .alreadyExists := by
    rw [Disk.makeDirectory, Disk.target, hpath]
    rfl
  have hthere : occupiedMade.isDirectory ⟨false, [".out.partial"]⟩ = true := by
    rw [Disk.isDirectory, Disk.node?, Disk.resolve, hpath]
    rfl
  have hput : occupiedMade.putFile ⟨false, [".out.partial", "Main.smali"]⟩
      (sampleClass "Main").print.toUTF8 = .ok occupiedFilled := by
    rw [Disk.putFile, Disk.target, hfile]
    rfl
  have hmake := Disk.makeDirectories_of_present (by decide) hpresent (by simp) hthere
  exact ends_writeClasses_cons (ClassDef.ends_writeBelow hmake hput) (Run.ends_pure PUnit.unit _)

/-- The staging directory cannot be moved to where the file is. -/
theorem ends_write_mainProgram :
    (write mainProgram ⟨false, ["out", ""]⟩).Ends occupiedDisk
      (.error (Cause.moving ".out.partial" "out/" .notDirectory).failure) occupiedFilled := by
  obtain ⟨hgoal, hpath, -⟩ := checkPath_occupied
  -- Through its path, with a slash behind the name, the file is not seen.
  have hvacant : occupiedDisk.pathExists ⟨false, ["out", ""]⟩ = false := by
    rw [Disk.pathExists, Disk.node?, Disk.resolve, hgoal]
    rfl
  have hprepare : (prepare ⟨false, [".out.partial"]⟩).Ends occupiedDisk (.ok ()) occupiedMade := by
    have hmissing : occupiedDisk.pathExists ⟨false, [".out.partial"]⟩ = false := by
      rw [Disk.pathExists, Disk.node?, Disk.resolve, hpath]
      rfl
    have hmake : occupiedDisk.makeDirectory ⟨false, [".out.partial"]⟩ = .ok occupiedMade := by
      rw [Disk.makeDirectory, Disk.target, hpath]
      rfl
    exact ends_cleared_of_missing hmissing _ _
      (Run.ends_makeDirectories (Disk.makeDirectories_of_ok (by decide) hmake))
  have hpublish : (publish ⟨false, [".out.partial"]⟩ ⟨false, ["out", ""]⟩).Ends occupiedFilled
      (.error (Cause.moving ".out.partial" "out/" .notDirectory).failure) occupiedFilled := by
    have hmissing : occupiedFilled.pathExists ⟨false, ["out", ""]⟩ = false := by
      rw [Disk.pathExists, Disk.node?, Disk.resolve, hgoal]
      rfl
    have hmove : occupiedFilled.moveDirectory ⟨false, [".out.partial"]⟩ ⟨false, ["out", ""]⟩ =
        .error .notDirectory := by
      rw [Disk.moveDirectory, Disk.target, Disk.target, hpath, hgoal]
      rfl
    refine (Run.ends_disk _).bind ?_
    rw [hmissing]
    exact Run.ends_changing_error hmove _
  have hunique : (Run.ofExcept mainProgram.checkUnique).Ends occupiedDisk (.ok ()) occupiedDisk := by
    rw [Program.checkUnique_eq_ok.mpr (by decide)]
    exact Run.ends_ofExcept (.ok ()) occupiedDisk
  have hstaging : staging? ⟨false, ["out", ""]⟩ = some ⟨false, [".out.partial"]⟩ := by decide
  refine hunique.bind ((ends_checkVacant_of_missing hvacant).bind ?_)
  rw [hstaging]
  exact hprepare.bind ((ends_writeClasses_mainProgram.tryCatch _).bind hpublish.bind_error)

/-- The write has failed, and the staging directory is there with the class. -/
theorem write_leaves_staging :
    (∀ c ∈ mainProgram.classes, c.IsPlaceable) ∧
      (write mainProgram ⟨false, ["out", ""]⟩).Ends occupiedDisk
        (.error (Cause.moving ".out.partial" "out/" .notDirectory).failure) occupiedFilled ∧
      occupiedFilled ≠ occupiedDisk ∧ ∀ staging, staging? ⟨false, ["out", ""]⟩ = some staging →
        ¬LeavesNoOutput occupiedDisk occupiedFilled ⟨false, ["out", ""]⟩ staging := by
  refine ⟨by decide, ends_write_mainProgram, fun hsame => ?_, fun staging hstaging hnothing => ?_⟩
  · have hthere : occupiedFilled.kindAt? [".out.partial"] = some .directory := rfl
    rw [hsame] at hthere
    cases hthere
  · obtain rfl : ⟨false, [".out.partial"]⟩ = staging :=
      Option.some.inj ((by decide : staging? ⟨false, ["out", ""]⟩ = _).symm.trans hstaging)
    have hthere : occupiedFilled.isDirectory ⟨false, [".out.partial"]⟩ = true := by
      rw [Disk.isDirectory, Disk.node?, Disk.resolve, checkPath_occupied.2.1]
      rfl
    rw [hnothing.notStaged] at hthere
    cases hthere

end ClassDirectory

end GatedCalls
