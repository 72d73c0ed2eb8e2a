import GatedCalls.Proofs.ClassDirectory.RoundTrip
import GatedCalls.Proofs.Disk.Success

/-!
# What a program that was written has met

Whether a program can be written to a plain goal is seen from the goal, the staging directory and
the classes. Here the way back is gone: where writing has succeeded, the goal was vacant and the
classes could be kept in one directory, if their names can be followed, so they are laid out below
the goal (`becomes_of_steps`). For the classes this is an induction on those that are left, in which
each class that has been written is shown to be in the way of none of the others
(`storable_of_writeBelow`).
-/

namespace GatedCalls

open Disk (Kind Location Node Path)

variable {d d' : Disk} {directory goal staging : Path}

/-! ### How reading and writing end is settled -/

/-- Reading a class only reads. -/
theorem ClassDef.onlyReads_readFrom (p : Path) : (ClassDef.readFrom p).OnlyReads :=
  (Run.onlyReads_reading _ _).bind fun _ => Run.onlyReads_ofExcept _

/-- How writing a class ends is settled. -/
theorem ClassDef.isSettled_writeBelow (c : ClassDef) (directory : Path) :
    (c.writeBelow directory).IsSettled :=
  (Run.isSettled_makeDirectories _).bind fun _ =>
    (Run.isSettled_changing _ _).bind fun _ => (Run.onlyReads_pure _).isSettled

/-- To write a class, first the directories on the way are made as far as that is possible, and then
its file is put there or left out. -/
theorem ClassDef.cases_of_ends_writeBelow {c : ClassDef} {result : Except Failure Path}
    (h : (c.writeBelow directory).Ends d result d') :
    ∃ result' made, d.makeDirectories (directory.join c.packages) = (result', made) ∧
      ((∃ e, result = .error e) ∧ d' = made ∨
        result' = .ok () ∧ made.putFile (directory.join c.fileNames) c.print.toUTF8 = .ok d') := by
  rw [writeBelow, place_eq] at h
  obtain ⟨e, rfl, hmake⟩ | ⟨⟨⟩, made, hmake, h⟩ := h.cases_of_bind (Run.isSettled_makeDirectories _)
    fun _ => (Run.isSettled_changing _ _).bind fun _ => (Run.onlyReads_pure _).isSettled
  · obtain ⟨result', hmade, -⟩ := Run.exists_of_ends_makeDirectories hmake
    exact ⟨result', d', hmade, .inl ⟨⟨e, rfl⟩, rfl⟩⟩
  · refine ⟨.ok (), made, Run.eq_ok_of_ends_makeDirectories hmake, ?_⟩
    obtain ⟨e, rfl, hput⟩ | ⟨⟨⟩, written, hput, hpure⟩ := h.cases_of_bind
      (Run.isSettled_changing _ _) fun _ => (Run.onlyReads_pure _).isSettled
    · obtain ⟨hok, -⟩ | ⟨fault, -, -, rfl⟩ := Run.cases_of_ends_changing hput
      · cases hok
      · exact .inl ⟨⟨e, rfl⟩, rfl⟩
    · obtain ⟨-, rfl⟩ := hpure.unique (Run.ends_pure _ written)
      exact .inr ⟨rfl, Run.eq_ok_of_ends_changing hput⟩

/-- Where a class has been written, the directories on the way have been made, and its file has been
put there. -/
theorem ClassDef.exists_of_ends_writeBelow {c : ClassDef} {file : Path}
    (h : (c.writeBelow directory).Ends d (.ok file) d') :
    ∃ made, d.makeDirectories (directory.join c.packages) = (.ok (), made) ∧
      made.putFile (directory.join c.fileNames) c.print.toUTF8 = .ok d' := by
  obtain ⟨result', made, hmake, ⟨⟨e, he⟩, -⟩ | ⟨rfl, hput⟩⟩ := cases_of_ends_writeBelow h
  · cases he
  · exact ⟨made, hmake, hput⟩

namespace ClassDirectory

open ClassDef (Storable laidOut)

/-- Reading a program only reads. -/
theorem onlyReads_read (directory : Path) (apiLevel : UInt32) :
    (read directory apiLevel).OnlyReads := by
  have hfind : (find directory).OnlyReads :=
    (Run.onlyReads_reading _ _).bind fun _ =>
      (Run.onlyReads_forM (fun _ => Run.onlyReads_reading _ _) _).bind fun _ => Run.onlyReads_pure _
  have hrest : (do
      let classes ← (← find directory).mapM fun file => do
        Run.report .debug .directory ("Reading " ++ file.text)
        (ClassDef.readFrom file).within directory.text
      Run.report .info .directory
        (toString classes.length ++ " smali classes loaded from " ++ directory.text)
      return ⟨classes, apiLevel⟩ : Run Program).OnlyReads :=
    hfind.bind fun files => (Run.onlyReads_mapM (fun file => (Run.onlyReads_report _ _ _).bind
      fun _ => (ClassDef.onlyReads_readFrom file).within _) files).bind fun classes =>
        (Run.onlyReads_report _ _ _).bind fun _ => Run.onlyReads_pure _
  refine Run.onlyReads_disk.bind fun d => ?_
  split
  · exact hrest
  · exact (Run.onlyReads_throw _).bind fun _ => hrest

/-- The check of a goal only reads. -/
theorem onlyReads_checkVacant (goal : Path) : (checkVacant goal).OnlyReads := by
  refine Run.onlyReads_disk.bind fun d => ?_
  split
  · refine (Run.onlyReads_reading _ _).bind fun entries => ?_
    split
    · exact Run.onlyReads_pure _
    · exact Run.onlyReads_throw _
  · exact Run.onlyReads_pure _

/-- How writing classes ends is settled. -/
theorem isSettled_writeClasses (p : Program) (directory : Path) :
    (writeClasses p directory).IsSettled :=
  Run.isSettled_forM (fun c => (c.isSettled_writeBelow directory).bind fun _ =>
    (Run.onlyReads_report _ _ _).isSettled) p.classes

/-- To write classes, the first of them is written, and if that has not failed, the others. -/
theorem cases_of_ends_writeClasses_cons {c : ClassDef} {classes : List ClassDef} {apiLevel : UInt32}
    {result : Except Failure Unit}
    (h : (writeClasses ⟨c :: classes, apiLevel⟩ directory).Ends d result d') :
    (∃ e, result = .error e ∧ (c.writeBelow directory).Ends d (.error e) d') ∨
      ∃ file next, (c.writeBelow directory).Ends d (.ok file) next ∧
        (writeClasses ⟨classes, apiLevel⟩ directory).Ends next result d' := by
  have hsettled (file : Path) :
      (Run.report .debug .directory ("Wrote " ++ file.text)).IsSettled :=
    (Run.onlyReads_report _ _ _).isSettled
  obtain ⟨e, rfl, hfirst⟩ | ⟨⟨⟩, next, hfirst, hrest⟩ := Run.Ends.cases_of_bind h
    ((c.isSettled_writeBelow directory).bind hsettled)
    fun _ => isSettled_writeClasses ⟨classes, apiLevel⟩ directory
  · obtain ⟨e', he, hfailed⟩ | ⟨file, next, -, hreport⟩ :=
      hfirst.cases_of_bind (c.isSettled_writeBelow directory) hsettled
    · cases he
      exact .inl ⟨e, rfl, hfailed⟩
    · cases (hreport.unique (Run.ends_report _ _ _ next)).1
  · obtain ⟨file, next', hfirst, hreport⟩ :=
      hfirst.exists_of_bind (c.isSettled_writeBelow directory) hsettled
    obtain ⟨-, rfl⟩ := hreport.unique (Run.ends_report _ _ _ next')
    exact .inr ⟨file, next, hfirst, hrest⟩

/-- Where classes have been written, the first of them has been, and then the others. -/
theorem exists_of_ends_writeClasses_cons {c : ClassDef} {classes : List ClassDef} {apiLevel : UInt32}
    (h : (writeClasses ⟨c :: classes, apiLevel⟩ directory).Ends d (.ok ()) d') :
    ∃ file next, (c.writeBelow directory).Ends d (.ok file) next ∧
      (writeClasses ⟨classes, apiLevel⟩ directory).Ends next (.ok ()) d' := by
  obtain ⟨e, he, -⟩ | hwritten := cases_of_ends_writeClasses_cons h
  · cases he
  · exact hwritten

/-- Where a step is made only if something is there, how the run goes on is settled. -/
theorem isSettled_cleared {p : Path} {step rest : Run Unit} (hstep : step.IsSettled)
    (hrest : rest.IsSettled) : Run.IsSettled (do
      if (← Run.disk).pathExists p then step
      rest) := by
  refine Run.onlyReads_disk.isSettled.bind fun d => ?_
  split
  · exact hstep.bind fun _ => hrest
  · exact hrest

/-- How the staging directory comes to be made is settled. -/
theorem isSettled_prepare (staging : Path) : (prepare staging).IsSettled :=
  isSettled_cleared (Run.isSettled_changing _ _) (Run.isSettled_makeDirectories _)

/-- How the staging directory comes to be moved is settled. -/
theorem isSettled_publish (staging goal : Path) : (publish staging goal).IsSettled :=
  isSettled_cleared (Run.isSettled_changing _ _) (Run.isSettled_changing _ _)

/-- How taking the staging directory away ends is settled. -/
theorem isSettled_discard (staging : Path) : (discard staging).IsSettled := by
  refine Run.onlyReads_disk.isSettled.bind fun d => ?_
  split
  · exact fun _ => ⟨.ok (), _, fun log => ⟨_, rfl⟩⟩
  · exact (Run.onlyReads_report _ _ _).isSettled

/-- A failure is passed on once the staging directory has been taken away, or could not be. -/
theorem cases_of_ends_discard {f : Failure} {result : Except Failure Unit}
    (h : Run.Ends (do discard staging; throw f : Run Unit) d result d') :
    result = .error f ∧ (d.removeTree staging = .ok d' ∨
      ∃ fault, d.removeTree staging = .error fault ∧ d' = d) := by
  cases hremove : d.removeTree staging with
  | ok removed =>
    have hdiscard : (discard staging).Ends d (.ok ()) removed := by
      refine (Run.ends_disk d).bind ?_
      rw [hremove]
      exact fun log => ⟨log, rfl⟩
    obtain ⟨rfl, rfl⟩ := h.unique (hdiscard.bind (Run.ends_throw f removed))
    exact ⟨rfl, .inl rfl⟩
  | error fault =>
    have hdiscard : (discard staging).Ends d (.ok ()) d := by
      refine (Run.ends_disk d).bind ?_
      rw [hremove]
      exact Run.ends_report _ _ _ d
    obtain ⟨rfl, rfl⟩ := h.unique (hdiscard.bind (Run.ends_throw f d))
    exact ⟨rfl, .inr ⟨fault, rfl, rfl⟩⟩

/-- How filling the staging directory ends is settled. -/
theorem isSettled_fill (p : Program) (staging : Path) :
    Run.IsSettled (tryCatch (writeClasses p staging) fun f => do discard staging; throw f) :=
  (isSettled_writeClasses p staging).tryCatch fun f =>
    (isSettled_discard staging).bind fun _ => (Run.onlyReads_throw f).isSettled

/-- How writing a program ends, once the goal is seen to be vacant, is settled. -/
theorem isSettled_stage (p : Program) (staging goal : Path) (text : String) : Run.IsSettled (do
    prepare staging
    tryCatch (writeClasses p staging) fun f => do discard staging; throw f
    publish staging goal
    Run.report .info .directory text) :=
  (isSettled_prepare staging).bind fun _ => (isSettled_fill p staging).bind fun _ =>
    (isSettled_publish staging goal).bind fun _ => (Run.onlyReads_report _ _ _).isSettled

/-- How writing a program to a goal that is vacant ends is settled. -/
theorem isSettled_match_staging (p : Program) (goal : Path) : Run.IsSettled
    (match staging? goal with
    | none => throw (Cause.outputUnnamed goal.text).failure
    | some staging => do
      prepare staging
      tryCatch (writeClasses p staging) fun f => do discard staging; throw f
      publish staging goal
      Run.report .info .directory
        (toString p.classes.length ++ " smali classes written to " ++ goal.text)) := by
  split
  · exact (Run.onlyReads_throw _).isSettled
  · exact isSettled_stage p _ goal _

/-- How writing a program ends is settled. -/
theorem isSettled_write (p : Program) (goal : Path) : (write p goal).IsSettled :=
  (Run.onlyReads_ofExcept _).isSettled.bind fun _ =>
    (onlyReads_checkVacant goal).isSettled.bind fun _ => isSettled_match_staging p goal

/-- How a program that is staged beside a goal ends: in which of the steps, and from which disk. -/
inductive EndsStaged (p : Program) (goal staging : Path) (d : Disk) :
    Except Failure Unit → Disk → Prop where
  /-- The staging directory is not made. -/
  | prepare {f : Failure} {d' : Disk} (hprepare : (prepare staging).Ends d (.error f) d') :
    EndsStaged p goal staging d (.error f) d'
  /-- The classes are not all written, and the staging directory is taken away. -/
  | fill {f : Failure} {prepared partly d' : Disk} {result : Except Failure Unit}
    (hprepare : (prepare staging).Ends d (.ok ()) prepared)
    (hfill : (writeClasses p staging).Ends prepared (.error f) partly)
    (hdiscard : Run.Ends (do discard staging; throw f : Run Unit) partly result d') :
    EndsStaged p goal staging d result d'
  /-- The classes are written, and the staging directory is moved, or that fails. -/
  | publish {prepared filled d' : Disk} {result : Except Failure Unit}
    (hprepare : (prepare staging).Ends d (.ok ()) prepared)
    (hfill : (writeClasses p staging).Ends prepared (.ok ()) filled)
    (hpublish : (publish staging goal).Ends filled result d') :
    EndsStaged p goal staging d result d'

/-- A program that is written beside a goal that is vacant ends in one of the steps. -/
theorem endsStaged_of_ends {p : Program} {text : String} {result : Except Failure Unit}
    (h : Run.Ends (do
      prepare staging
      tryCatch (writeClasses p staging) fun f => do discard staging; throw f
      publish staging goal
      Run.report .info .directory text) d result d') : EndsStaged p goal staging d result d' := by
  obtain ⟨f, rfl, hprepare⟩ | ⟨⟨⟩, prepared, hprepare, h⟩ := h.cases_of_bind
    (isSettled_prepare staging) fun _ => (isSettled_fill p staging).bind fun _ =>
      (isSettled_publish staging goal).bind fun _ => (Run.onlyReads_report _ _ _).isSettled
  · exact .prepare hprepare
  have hfilled {first : Except Failure Unit} {next : Disk} (hfill : Run.Ends
      (tryCatch (writeClasses p staging) fun f => do discard staging; throw f) prepared first next) :=
    hfill.cases_of_tryCatch (isSettled_writeClasses p staging) fun f =>
      (isSettled_discard staging).bind fun _ => (Run.onlyReads_throw f).isSettled
  obtain ⟨f, rfl, hfill⟩ | ⟨⟨⟩, filled, hfill, h⟩ := h.cases_of_bind (isSettled_fill p staging)
    fun _ => (isSettled_publish staging goal).bind fun _ => (Run.onlyReads_report _ _ _).isSettled
  · obtain ⟨_, hok, -⟩ | ⟨f', partly, hpartly, hdiscard⟩ := hfilled hfill
    · cases hok
    · exact .fill hprepare hpartly hdiscard
  obtain ⟨⟨⟩, -, hfill⟩ | ⟨f', partly, -, hdiscard⟩ := hfilled hfill
  · obtain ⟨f, rfl, hpublish⟩ | ⟨⟨⟩, published, hpublish, hreport⟩ := h.cases_of_bind
      (isSettled_publish staging goal) fun _ => (Run.onlyReads_report _ _ _).isSettled
    · exact .publish hprepare hfill hpublish
    · obtain ⟨rfl, rfl⟩ := hreport.unique (Run.ends_report _ _ _ published)
      exact .publish hprepare hfill hpublish
  · cases (cases_of_ends_discard hdiscard).1

/-- A program is not written and the disk is as it was, or the goal is vacant and no two classes
have the same name, and the program is staged. -/
theorem cases_of_ends_write {p : Program} {result : Except Failure Unit}
    (h : (write p goal).Ends d result d') :
    (∃ f, result = .error f) ∧ d' = d ∨ p.names.Nodup ∧ (checkVacant goal).Ends d (.ok ()) d ∧
      ∃ staging, staging? goal = some staging ∧ EndsStaged p goal staging d result d' := by
  obtain ⟨f, rfl, rfl⟩ | ⟨⟨⟩, hunique, h⟩ := h.cases_of_bind_onlyReads (Run.onlyReads_ofExcept _)
    fun _ => (onlyReads_checkVacant goal).isSettled.bind fun _ => isSettled_match_staging p goal
  · exact .inl ⟨⟨f, rfl⟩, rfl⟩
  obtain ⟨f, rfl, rfl⟩ | ⟨⟨⟩, hvacant, h⟩ := h.cases_of_bind_onlyReads (onlyReads_checkVacant goal)
    fun _ => isSettled_match_staging p goal
  · exact .inl ⟨⟨f, rfl⟩, rfl⟩
  cases hstaging : staging? goal with
  | none =>
    rw [hstaging] at h
    obtain ⟨rfl, rfl⟩ := h.unique (Run.ends_throw _ d)
    exact .inl ⟨⟨_, rfl⟩, rfl⟩
  | some staging =>
    rw [hstaging] at h
    have hnodup : p.names.Nodup := by
      rw [← Program.checkUnique_eq_ok]
      exact ((Run.ends_ofExcept p.checkUnique d).unique hunique).1
    exact .inr ⟨hnodup, hvacant, staging, rfl, endsStaged_of_ends h⟩

/-- A program has been written in three steps, if no two of its classes have the same name. -/
theorem exists_of_ends_write {p : Program} (h : (write p goal).Ends d (.ok ()) d') :
    p.names.Nodup ∧ ∃ staging prepared filled, staging? goal = some staging ∧
      (prepare staging).Ends d (.ok ()) prepared ∧
      (writeClasses p staging).Ends prepared (.ok ()) filled ∧
      (publish staging goal).Ends filled (.ok ()) d' := by
  obtain ⟨⟨f, hresult⟩, -⟩ | ⟨hnodup, -, staging, hstaging, hstaged⟩ := cases_of_ends_write h
  · cases hresult
  · cases hstaged with
    | fill hprepare hfill hdiscard => cases (cases_of_ends_discard hdiscard).1
    | publish hprepare hfill hpublish =>
      exact ⟨hnodup, staging, _, _, hstaging, hprepare, hfill, hpublish⟩

/-! ### Classes -/

/-- A class that has been written to a directory in which others are laid out can be kept together
with them, and the file system takes the path of its file. -/
theorem storable_of_writeBelow {done : List ClassDef} {c : ClassDef} {file : Path}
    (h : d.CanFollow directory) (hdone : Storable done) (hplaceable : c.IsPlaceable)
    (hname : c.name ∉ done.map (·.name)) (hheld : d.HoldsClasses (d.placeOf directory) done)
    (hwrite : (c.writeBelow directory).Ends d (.ok file) d') :
    Storable (done ++ [c]) ∧ (directory.join c.fileNames).IsAcceptable := by
  obtain ⟨made, hmake, hput⟩ := ClassDef.exists_of_ends_writeBelow hwrite
  -- No file was on the way, so the directories are there now.
  have htext : (directory.join c.packages).text ≠ "" := by
    cases hpackages : c.packages with
    | nil => exact (Path.checkPath_eq_ok.mp h.acceptable.1).2.1
    | cons s ss =>
      refine Path.text_ne_empty ?_
      rw [Path.names_join directory (hpackages ▸ fun x hx => (hplaceable.packages x hx).1)]
      simp
  have hplain := h.plain.join fun s hs => (hplaceable.packages s hs).2
  obtain ⟨hcan, hfree⟩ := Disk.canFollow_of_makeDirectories hplain htext hmake
  rw [d.placeOf_join directory fun s hs => (hplaceable.packages s hs).1] at hfree
  obtain ⟨made', hmake', hmade⟩ :=
    h.exists_makeDirectories_join hplaceable.packages hcan.acceptable hfree
  cases hmake.symm.trans hmake'
  -- And no directory is at the place of the file.
  obtain ⟨hcanFile, hvacant⟩ :=
    Disk.canFollow_of_putFile (h.plain.join fun s hs => (hplaceable.fileNames s hs).2) hput
  rw [made.placeOf_join directory fun s hs => (hplaceable.fileNames s hs).1, hmade.placeOf] at hvacant
  refine ⟨hdone.concat hplaceable hname (fun c' hc' hbegin => ?_) (fun c' hc' hbegin => ?_),
    hcanFile.acceptable⟩
  · -- The file of an earlier class would have been on the way.
    have hway := ClassDef.fileNames_isPrefix_of hbegin
    exact hfree _ ((List.prefix_append_right_inj _).mpr hway) _
      ((hheld _).trans (hdone.laidOut_fileNames hc'))
  · -- The way to an earlier class would have led through the place of the file.
    refine hvacant ?_
    rw [hmade.kindAt?]
    split
    · rfl
    · exact (hheld _).trans (hdone.laidOut_packages hc' (ClassDef.fileNames_isPrefix_of hbegin))

/-- Classes that have been written to a directory in which others are laid out can be kept together
with them, and the file system takes the paths of their files. -/
theorem storable_of_writeClasses {done classes : List ClassDef} {apiLevel : UInt32}
    (h : d.CanFollow directory) (hdone : Storable done) (hplaceable : ∀ c ∈ classes, c.IsPlaceable)
    (hnodup : ((done ++ classes).map (·.name)).Nodup)
    (hheld : d.HoldsClasses (d.placeOf directory) done)
    (hwrite : (writeClasses ⟨classes, apiLevel⟩ directory).Ends d (.ok ()) d') :
    Storable (done ++ classes) ∧ ∀ c ∈ classes, (directory.join c.fileNames).IsAcceptable := by
  -- On the classes that are left; those that are laid out grow by the first of them.
  induction classes generalizing d done with
  | nil => exact ⟨by rwa [List.append_nil], by simp⟩
  | cons c classes ih =>
    obtain ⟨hc, hplaceable⟩ := List.forall_mem_cons.mp hplaceable
    have hsplit : done ++ c :: classes = done ++ [c] ++ classes := by simp
    have hname : c.name ∉ done.map (·.name) := by
      rw [List.map_append, List.nodup_append] at hnodup
      exact fun hmem => hnodup.2.2 _ hmem c.name (by simp) rfl
    obtain ⟨file, next, hfirst, hrest⟩ := exists_of_ends_writeClasses_cons hwrite
    obtain ⟨hstorable, haccept⟩ := storable_of_writeBelow h hdone hc hname hheld hfirst
    obtain ⟨next', hnext', hbecomes⟩ := exists_writeNext h hstorable haccept hheld
    obtain ⟨-, rfl⟩ := hfirst.unique hnext'
    have hcan := h.of_becomes hbecomes (by simp [ClassDef.laidOut_root])
    rw [hsplit] at hnodup ⊢
    obtain ⟨hall, haccepts⟩ := ih hcan hstorable hplaceable hnodup
      (hbecomes.placeOf directory ▸ hbecomes.holdsClasses) hrest
    exact ⟨hall, List.forall_mem_cons.mpr ⟨haccept, haccepts⟩⟩

/-! ### The staging directory and the goal -/

/-- A run that goes on after a step that is made only if something is there has failed in that step,
or it has gone on from the disk as it was, where nothing is, or from what the step has left. -/
theorem cases_of_ends_cleared {p : Path} {remove : Disk → Except Disk.Fault Disk}
    {cause : Disk.Fault → Cause} {rest : Run Unit} {result : Except Failure Unit}
    (hrest : rest.IsSettled)
    (h : Run.Ends (do
      if (← Run.disk).pathExists p then Run.changing remove cause
      rest) d result d') :
    (∃ fault, result = .error (cause fault).failure ∧ remove d = .error fault ∧ d' = d) ∨
      ∃ cleared, (d.pathExists p = false ∧ cleared = d ∨
        d.pathExists p = true ∧ remove d = .ok cleared) ∧ rest.Ends cleared result d' := by
  obtain ⟨e, -, hfailed⟩ | ⟨found, d₁, hfound, hgoesOn⟩ := Run.Ends.cases_of_bind h
    Run.onlyReads_disk.isSettled fun d => by
      split
      · exact (Run.isSettled_changing _ _).bind fun _ => hrest
      · exact hrest
  · cases (hfailed.unique (Run.ends_disk d)).1
  obtain ⟨hsame, rfl⟩ := hfound.unique (Run.ends_disk d)
  obtain rfl := Except.ok.inj hsame
  cases hthere : found.pathExists p with
  | true =>
    rw [hthere] at hgoesOn
    obtain ⟨e, rfl, hchange⟩ | ⟨⟨⟩, cleared, hchange, hended⟩ :=
      Run.Ends.cases_of_bind hgoesOn (Run.isSettled_changing _ _) fun _ => hrest
    · obtain ⟨hok, -⟩ | ⟨fault, hresult, hremove, rfl⟩ := Run.cases_of_ends_changing hchange
      · cases hok
      · exact .inl ⟨fault, hresult, hremove, rfl⟩
    · exact .inr ⟨cleared, .inr ⟨rfl, Run.eq_ok_of_ends_changing hchange⟩, hended⟩
  | false =>
    rw [hthere] at hgoesOn
    exact .inr ⟨found, .inl ⟨rfl, rfl⟩, hgoesOn⟩

/-- A run that has gone on after a step that is made only if something is there has gone on from the
disk as it was, where nothing is, or from what the step has left. -/
theorem exists_of_ends_cleared {p : Path} {remove : Disk → Except Disk.Fault Disk}
    {cause : Disk.Fault → Cause} {rest : Run Unit} (hrest : rest.IsSettled)
    (h : Run.Ends (do
      if (← Run.disk).pathExists p then Run.changing remove cause
      rest) d (.ok ()) d') :
    ∃ cleared, (d.pathExists p = false ∧ cleared = d ∨
      d.pathExists p = true ∧ remove d = .ok cleared) ∧ rest.Ends cleared (.ok ()) d' := by
  obtain ⟨fault, hresult, -⟩ | hcleared := cases_of_ends_cleared hrest h
  · cases hresult
  · exact hcleared

/-- A staging directory has been made only if no file was on the way to it. -/
theorem canFollow_of_prepare (hplain : staging.IsPlain) (hnames : staging.names ≠ [])
    (h : (prepare staging).Ends d (.ok ()) d') :
    d.CanFollow staging ∧ d.NoFileTo (d.placeOf staging) := by
  obtain ⟨cleared, ⟨-, rfl⟩ | ⟨-, hremove⟩, hmake⟩ :=
    exists_of_ends_cleared (Run.isSettled_makeDirectories staging) h
  · exact Disk.canFollow_of_makeDirectories hplain (Path.text_ne_empty hnames)
      (Run.eq_ok_of_ends_makeDirectories hmake)
  · obtain ⟨hcan, inner, hinner, -⟩ := Disk.canFollow_of_removeWhere hplain hremove
    exact ⟨hcan, Disk.noFileTo_of_directory (Disk.kindAt?_of_find? hinner)⟩

/-- A staging directory has been moved to a goal only if nothing was there but possibly an empty
directory. -/
theorem canFollow_of_publish (hplain : goal.IsPlain) (hplain' : staging.IsPlain)
    (hne : d.placeOf staging ≠ d.placeOf goal) (h : (publish staging goal).Ends d (.ok ()) d') :
    d.CanFollow goal ∧ d.IsEmptyAt (d.placeOf goal) := by
  obtain ⟨cleared, ⟨-, rfl⟩ | ⟨-, hremove⟩, hmove⟩ :=
    exists_of_ends_cleared (Run.isSettled_changing _ _) h
  · exact Disk.canFollow_of_moveDirectory hplain' hplain hne (Run.eq_ok_of_ends_changing hmove)
  · obtain ⟨hcan, inner, hinner, hempty⟩ := Disk.canFollow_of_removeWhere hplain hremove
    exact ⟨hcan, .inr (List.isEmpty_iff.mp hempty ▸ hinner)⟩

/-- Classes have been written to a staging directory that was made only if no file was on the way to
it, the classes can be kept in one directory, and the file system takes the paths of their files, if
their names can be followed. Then they are laid out in the staging directory. -/
theorem becomes_of_stage {p : Program} {prepared filled : Disk} (hplain : staging.IsPlain)
    {front : List String} {name : String} (hnames : staging.names = front ++ [name])
    (hnodup : p.names.Nodup) (hplaceable : ∀ c ∈ p.classes, c.IsPlaceable)
    (hprepare : (prepare staging).Ends d (.ok ()) prepared)
    (hfill : (writeClasses p staging).Ends prepared (.ok ()) filled) :
    d.CanFollow staging ∧ d.NoFileTo (d.placeOf staging) ∧ Storable p.classes ∧
      IsAccepted staging p.classes ∧ d.Becomes filled (staged d staging p.classes) := by
  -- The staging directory has been made, with no file on the way.
  obtain ⟨hcan, hfree⟩ := canFollow_of_prepare hplain (by simp [hnames]) hprepare
  obtain ⟨prepared', hprepare', hprepared⟩ := exists_prepare hcan hnames hfree
  obtain ⟨-, rfl⟩ := hprepare.unique hprepare'
  -- The classes have been written there one after the other.
  have hempty : Storable [] := ⟨List.nodup_nil, by simp, by simp⟩
  obtain ⟨hstorable, hfiles⟩ := storable_of_writeClasses
    (hcan.of_becomes hprepared (by simp)) hempty hplaceable
    (by rwa [List.nil_append]) (hprepared.placeOf staging ▸ hprepared.holdsClasses) hfill
  have haccept : IsAccepted staging p.classes := ⟨hcan.acceptable, hfiles⟩
  obtain ⟨prepared', filled', hprepare', hfill', hfilled⟩ :=
    exists_stage hcan hnames hfree hstorable haccept
  obtain ⟨-, rfl⟩ := hprepare.unique hprepare'
  obtain ⟨-, rfl⟩ := hfill.unique hfill'
  exact ⟨hcan, hfree, hstorable, haccept, hfilled⟩

/-- A program has been written in three steps to a plain goal only if its classes can be kept in one
directory and the file system takes the paths of their files, if their names can be followed. Then
they are laid out below the goal. -/
theorem becomes_of_steps {p : Program} {prepared filled : Disk} (hplain : goal.IsPlain)
    (hstaging : staging? goal = some staging) (hnodup : p.names.Nodup)
    (hplaceable : ∀ c ∈ p.classes, c.IsPlaceable)
    (hprepare : (prepare staging).Ends d (.ok ()) prepared)
    (hfill : (writeClasses p staging).Ends prepared (.ok ()) filled)
    (hpublish : (publish staging goal).Ends filled (.ok ()) d') :
    d.CanFollow goal ∧ Storable p.classes ∧ IsAccepted staging p.classes ∧
      d.Becomes d' (published d goal staging p.classes) := by
  obtain ⟨front, name, hnames, hnames', habsolute, hplain'⟩ := exists_of_staging? hplain hstaging
  have hstart := d.start_of_isAbsolute habsolute
  obtain ⟨hcan, -, hstorable, haccept, hfilled⟩ :=
    becomes_of_stage hplain' hnames' hnodup hplaceable hprepare hfill
  -- What is there has been moved to the goal.
  have hne : filled.placeOf staging ≠ filled.placeOf goal := by
    rw [hfilled.placeOf, hfilled.placeOf, Disk.placeOf_eq d hnames, Disk.placeOf_eq d hnames', hstart]
    simpa using stagingName_ne name
  obtain ⟨hcanGoal, hvacant⟩ := canFollow_of_publish hplain hplain' hne hpublish
  obtain ⟨d'', hpublish', hpublished⟩ := exists_publish_stage hcan hplain hcanGoal.acceptable hnames'
    hnames habsolute hfilled hvacant
  obtain ⟨-, rfl⟩ := hpublish.unique hpublish'
  exact ⟨⟨hplain, hcanGoal.acceptable, hstart ▸ hcan.start⟩, hstorable, haccept, hpublished⟩

end ClassDirectory

end GatedCalls
