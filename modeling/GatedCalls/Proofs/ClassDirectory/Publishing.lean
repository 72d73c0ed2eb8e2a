import GatedCalls.Proofs.ClassDirectory.Relocation
import GatedCalls.Proofs.Disk.Changes

/-!
# Goals to which a staging directory can be moved

That a goal is vacant is checked before the staging directory is made, and by its path. If the path
leads through directories that are there, is not too long and has no slash behind the name of a file
(`IsPublishable`), then what the check has seen still holds once the classes have been written, so
the staging directory is moved (`exists_publish_of_isPublishable`).
-/

namespace GatedCalls

open Disk (Location Path)

variable {d d' : Disk} {goal staging : Path}

namespace ClassDirectory

/-- What is at a goal that was found to be vacant is an empty directory. -/
theorem list_of_ends_checkVacant (h : (checkVacant goal).Ends d (.ok ()) d')
    (hthere : d.pathExists goal = true) : d.list goal = .ok [] := by
  cases hlist : d.list goal with
  | error fault =>
    have hfailed : (checkVacant goal).Ends d
        (.error (Cause.readingDirectory goal.text fault).failure) d := by
      refine (Run.ends_disk d).bind ?_
      rw [hthere]
      exact (Run.ends_reading_error hlist _).bind_error
    cases (h.unique hfailed).1
  | ok entries =>
    cases entries with
    | nil => rfl
    | cons e es =>
      have hfailed : (checkVacant goal).Ends d (.error (Cause.outputNotEmpty goal.text).failure) d := by
        refine (Run.ends_disk d).bind ?_
        rw [hthere]
        exact (Run.ends_reading hlist _).bind (Run.ends_throw _ d)
      cases (h.unique hfailed).1

/-- If what is at a goal is found to be empty, and no slash stands behind the name of a file, it is
empty. -/
theorem isEmptyAt_of_list (h : d.CanFollow goal) (hnames : goal.names ≠ [])
    (hslash : goal.segments.getLast? = some "" →
      ∀ content, d.kindAt? (d.placeOf goal) ≠ some (.file content))
    (hlist : d.pathExists goal = true → d.list goal = .ok []) : d.IsEmptyAt (d.placeOf goal) := by
  cases hkind : d.kindAt? (d.placeOf goal) with
  | none => exact .inl hkind
  | some kind =>
    cases kind with
    | directory =>
      have hthere : d.pathExists goal = true := by
        rw [h.pathExists_eq (Disk.noFileTo_of_directory hkind), hkind]
        rfl
      obtain ⟨es, hes⟩ := Disk.Node.kindAt?_eq_directory.mp hkind
      obtain rfl := Except.ok.inj ((h.list_eq hes).symm.trans (hlist hthere))
      exact .inr hes
    | file content =>
      -- A file is seen through a path that ends with its name, and it cannot be listed.
      obtain hnone | ⟨ahead, last, hsegments⟩ := List.eq_nil_or_concat' goal.segments
      · exact absurd hnone (Path.segments_ne_nil hnames)
      · by_cases hlast : last = ""
        · exact absurd hkind (hslash (by simp [hsegments, hlast]) content)
        · have hresolve := h.resolve_of_segments hsegments hlast (by simp [hkind])
          have hfile := Disk.Node.kindAt?_eq_file.mp hkind
          have hthere : d.pathExists goal = true := by
            rw [Disk.pathExists, Disk.node?, hresolve]
            simp [hfile]
          have hempty := hlist hthere
          rw [Disk.list, hresolve] at hempty
          simp [bind, Except.bind, Disk.entriesAt, hfile] at hempty

/-- The file system takes the path of a staging directory that was made. -/
theorem checkPath_of_prepare (hstaging : staging? goal = some staging)
    (h : (prepare staging).Ends d (.ok ()) d') : Disk.checkPath staging = .ok () := by
  obtain ⟨cleared, -, hmake⟩ := exists_of_ends_cleared (Run.isSettled_makeDirectories staging) h
  exact (Disk.leads_of_makeDirectories (text_staging_ne hstaging)
    (Run.eq_ok_of_ends_makeDirectories hmake)).1

/-- The file system takes the name of a goal if it takes that of its staging directory. -/
theorem isAcceptable_of_staging (hplain : goal.IsPlain) (hstaging : staging? goal = some staging)
    (haccept : staging.IsAcceptable) (hpath : Disk.checkPath goal = .ok ()) : goal.IsAcceptable := by
  obtain ⟨front, name, hnames, hnames', -⟩ := exists_of_staging? hplain hstaging
  have hstagingNames : ∀ s ∈ front ++ ["." ++ name ++ ".partial"], Disk.checkName s = .ok () :=
    fun s hs => haccept.2 s (Path.mem_segments_of_mem_names (hnames' ▸ hs))
  refine ⟨hpath, fun s hs => ?_⟩
  by_cases hempty : s = ""
  · exact hempty ▸ rfl
  · have hmem : s ∈ goal.names := List.mem_filter.mpr ⟨hs, by simpa using hempty⟩
    rw [hnames] at hmem
    obtain hmem | hmem := List.mem_append.mp hmem
    · exact hstagingNames s (List.mem_append_left _ hmem)
    · obtain rfl := List.mem_singleton.mp hmem
      -- It is a part of the longer name.
      have hlonger := hstagingNames ("." ++ s ++ ".partial") (by simp)
      unfold Disk.checkName at hlonger ⊢
      split at hlonger
      · cases hlonger
      · next hlimit =>
        rw [String.utf8ByteSize_append, String.utf8ByteSize_append] at hlimit
        exact if_neg (by omega)

/-- Where a goal is reached, and the staging directory is moved as the plain paths tell, it is
moved. -/
theorem Approach.exists_publish {base : Location} {goal' staging' : Path} {lead : List String}
    (h : Approach d goal lead base goal') (hstaging : staging? goal = some staging)
    (hstaging' : staging? goal' = some staging') (hpath : Disk.checkPath staging = .ok ())
    (hpath' : Disk.checkPath goal = .ok ())
    (hpublish : (publish staging' goal').Ends (d.seenFrom base) (.ok ()) d') :
    ∃ d', (publish staging goal).Ends d (.ok ()) d' := by
  have hmoved {cleared moved : Disk} (h : Approach cleared goal lead base goal')
      (hmove : (cleared.seenFrom base).moveDirectory staging' goal' = .ok moved) :
      ∃ moved, cleared.moveDirectory staging goal = .ok moved := by
    rw [(h.leadsOn_staging hstaging hstaging').moveDirectory_eq h.leadsOn hpath hpath'] at hmove
    obtain ⟨moved, hmove, -⟩ := Disk.exists_of_map_eq_ok hmove
    exact ⟨moved, hmove⟩
  obtain ⟨cleared, hcleared, hmove⟩ := exists_of_ends_cleared (Run.isSettled_changing _ _) hpublish
  have hmove := Run.eq_ok_of_ends_changing hmove
  rw [← h.leadsOn.pathExists_eq hpath'] at hcleared
  obtain ⟨hmissing, rfl⟩ | ⟨hthere, hremove⟩ := hcleared
  · obtain ⟨moved, hmove⟩ := hmoved h hmove
    exact ⟨moved, ends_cleared_of_missing hmissing _ _ (Run.ends_changing hmove _)⟩
  · have hremoveEq : (d.seenFrom base).removeDirectory goal' =
        (d.removeDirectory goal).map (·.seenFrom base) := h.leadsOn.removeWhere_eq hpath' _
    rw [hremoveEq] at hremove
    obtain ⟨removed, hremoved, rfl⟩ := Disk.exists_of_map_eq_ok hremove
    obtain ⟨happroach, -⟩ := h.of_removeWhere (.inl rfl) h.leadsOn h.plain hremoved
    obtain ⟨moved, hmove⟩ := hmoved happroach hmove
    refine ⟨moved, (Run.ends_disk d).bind ?_⟩
    rw [hthere]
    exact (Run.ends_changing hremoved _).bind (Run.ends_changing hmove _)

/-- Whether the path of a goal leads through directories that are there, is one that the file system
takes, and has no slash behind the name of a file. -/
structure IsPublishable (d : Disk) (goal : Path) : Prop where
  /-- Behind directories that are there, the path of the goal goes down only. -/
  reached : IsReached d goal
  /-- The file system takes the path of the goal. -/
  path : Disk.checkPath goal = .ok ()
  /-- No file stands at the goal if a slash stands at the end of its path. -/
  slash : goal.segments.getLast? = some "" →
    ∀ content, d.kindAt? (d.destination goal) ≠ some (.file content)

/-- Once the classes are written the staging directory can be moved to such a goal. -/
theorem exists_publish_of_isPublishable (h : IsPublishable d goal)
    (hstaging : staging? goal = some staging) {p : Program} (hnodup : p.names.Nodup)
    (hplaceable : ∀ c ∈ p.classes, c.IsPlaceable) {prepared filled : Disk}
    (hvacant : (checkVacant goal).Ends d (.ok ()) d)
    (hprepare : (prepare staging).Ends d (.ok ()) prepared)
    (hfill : (writeClasses p staging).Ends prepared (.ok ()) filled) :
    ∃ d', (publish staging goal).Ends filled (.ok ()) d' := by
  obtain ⟨lead, base, goal', happroach⟩ := h.reached
  have hon := happroach.leadsOn
  obtain ⟨staging', -, hstaging', -⟩ :=
    exists_staging_of_append happroach.segments happroach.plain happroach.names_ne_nil hstaging
  obtain ⟨front, name, hnames, hnames', habsolute, hplain'⟩ :=
    exists_of_staging? happroach.plain hstaging'
  -- The classes are laid out in the staging directory of the plain rest of the path.
  obtain ⟨hprepare', hprepared, -⟩ := happroach.ends_prepare hstaging hstaging' hprepare
  obtain ⟨hfill', hkeep, -⟩ := ends_writeClasses_seenFrom
    (hprepared.leadsOn_staging hstaging hstaging') hplain' hplaceable hfill
  obtain ⟨hcan, -, -, haccept, hfilled⟩ :=
    becomes_of_stage hplain' hnames' hnodup hplaceable hprepare' hfill'
  -- The rest of the path leads to an empty directory or to nothing, as the path of the goal does.
  have hbeside := (d.seenFrom base).start_of_isAbsolute habsolute
  have hacceptGoal := isAcceptable_of_staging happroach.plain hstaging' haccept.acceptable
    (hon.checkPath_eq h.path)
  have hplace : (d.seenFrom base).placeOf goal' = d.destination goal := by
    rw [Disk.placeOf, hon.start_eq, Disk.destination, happroach.placeAlong_goal]
  have hempty : (d.seenFrom base).IsEmptyAt ((d.seenFrom base).placeOf goal') := by
    refine isEmptyAt_of_list ⟨happroach.plain, hacceptGoal, hbeside ▸ hcan.start⟩
      happroach.names_ne_nil (fun hslash content => ?_) fun hthere => ?_
    · rw [hplace]
      refine h.slash ?_ content
      rw [happroach.segments,
        List.getLast?_append_of_ne_nil _ (Path.segments_ne_nil happroach.names_ne_nil), hslash]
    · rw [← hon.pathExists_eq h.path] at hthere
      rw [← hon.list_eq h.path, list_of_ends_checkVacant hvacant hthere]
  obtain ⟨d', hpublish, -⟩ := exists_publish_stage hcan happroach.plain hacceptGoal hnames' hnames
    habsolute hfilled (isEmptyAt_of_stage hnames' hnames hbeside hfilled hempty)
  exact (hprepared.of_keeps hkeep).exists_publish hstaging hstaging'
    (checkPath_of_prepare hstaging hprepare) h.path hpublish

end ClassDirectory

end GatedCalls
