import Mathlib.Data.List.Infix
import GatedCalls.Proofs.ClassDirectory.Written
import GatedCalls.Proofs.Disk.Relocation

/-!
# Goals behind directories that are there

The path of a goal may lead through directories before it leads down, as `../build/out` does. If
they are there, and none of them is the goal or the staging directory or stands in one of them
(`Approach`), then each step of writing does what it would do for the plain rest of the path, with
the disk seen from the last of these directories. So what was written there is read back as from a
plain goal (`exists_read_of_write`).
-/

namespace GatedCalls

open Disk (Location Node Path placeAlong)

variable {d d' : Disk} {base place : Location} {directory directory' : Path}

namespace ClassDef

/-- A class that is written below a directory is written as the other path tells. All directories
stay, and the file system takes the path of its file. -/
theorem ends_writeBelow_seenFrom (h : d.LeadsOn directory base directory')
    (hplain : directory'.IsPlain) {c : ClassDef} (hplaceable : c.IsPlaceable) {file : Path}
    (hwrite : (c.writeBelow directory).Ends d (.ok file) d') :
    (c.writeBelow directory').Ends (d.seenFrom base) (.ok (directory'.join c.fileNames))
      (d'.seenFrom base) ∧
    d.KeepsDirectories d' ∧ Disk.checkPath (directory.join c.fileNames) = .ok () := by
  obtain ⟨made, hmake, hput⟩ := exists_of_ends_writeBelow hwrite
  -- The directories of the packages are made, and then the file is put there.
  have hpackage := h.join fun s hs => (hplaceable.packages s hs).1
  have hmade := hpackage.makeDirectories_eq
    (hplain.join fun s hs => (hplaceable.packages s hs).2) hmake
  have hkeep := (Disk.addsDirectories_of_makeDirectories hmake).keepsDirectories
  obtain ⟨hpath, hkeep'⟩ := Disk.keepsDirectories_of_putFile hput
  have hfile := (h.join fun s hs => (hplaceable.fileNames s hs).1).of_keeps hkeep
  have hwritten : (made.seenFrom base).putFile (directory'.join c.fileNames) c.print.toUTF8 =
      .ok (d'.seenFrom base) := by
    rw [hfile.putFile_eq hpath, hput]
    rfl
  exact ⟨ends_writeBelow hmade hwritten, hkeep.trans hkeep', hpath⟩

end ClassDef

namespace ClassDirectory

variable {goal goal' staging staging' : Path} {lead : List String}

/-! ### Goals and their staging directories -/

/-- The staging directory of a goal whose path goes on with a plain one is that of the plain one,
behind the same segments, or behind those of them that do not end with such as mean nothing. -/
theorem exists_staging_of_append (h : goal.segments = lead ++ goal'.segments)
    (hplain : goal'.IsPlain) (hnames : goal'.names ≠ [])
    (hstaging : staging? goal = some staging) :
    ∃ staging' lead', staging? goal' = some staging' ∧ staging.isAbsolute = goal.isAbsolute ∧
      staging.segments = lead' ++ staging'.segments ∧ lead' <+: lead ∧
      ∀ place, placeAlong place lead' = placeAlong place lead := by
  obtain hnone | ⟨front, name, hlast⟩ := List.eq_nil_or_concat' goal'.names
  · exact absurd hnone hnames
  have hname' := Path.fileName?_eq hplain hlast
  have hname := Path.fileName?_of_append h hplain hnames
  rw [staging?, hname, hname'] at hstaging
  by_cases hfront : front = []
  · subst hfront
    have hparent := Path.parent?_of_append_single h hplain hlast
    have hparent' := Path.parent?_of_append_single (List.nil_append goal'.segments).symm hplain hlast
    obtain rfl : Path.push _ ("." ++ name ++ ".partial") = staging := by
      simpa [Path.sibling?, hparent] using hstaging
    obtain ⟨blanks, hlead, hblanks⟩ :=
      Path.exists_significantFrom goal.isAbsolute lead.reverse
    have hlead' : lead =
        (Path.significantFrom goal.isAbsolute lead.reverse).reverse ++ blanks.reverse := by
      rw [← List.reverse_append, ← hlead, List.reverse_reverse]
    refine ⟨⟨goal'.isAbsolute, ["." ++ name ++ ".partial"]⟩,
      (Path.significantFrom goal.isAbsolute lead.reverse).reverse, ?_, by simp, ?_, ?_, fun place => ?_⟩
    · rw [staging?, hname']
      simp [Path.sibling?, hparent', Path.significantFrom, Path.push]
    · rw [Path.push, if_neg]
      rw [List.getLast?_reverse]
      exact Path.head?_significantFrom _ _
    · exact ⟨_, hlead'.symm⟩
    · conv_rhs => rw [hlead']
      rw [Disk.placeAlong_append, Disk.placeAlong_of_blank _ fun s hs =>
        hblanks s (List.mem_reverse.mp hs)]
  · obtain ⟨parent', hparent', -, -, hnames'⟩ := Path.parent?_eq hplain hlast
    have hparent := Path.parent?_of_append h hplain hlast hfront hparent'
    obtain rfl : Path.push _ ("." ++ name ++ ".partial") = staging := by
      simpa [Path.sibling?, hparent] using hstaging
    refine ⟨parent'.push ("." ++ name ++ ".partial"), lead, ?_, by simp, ?_, List.prefix_refl _,
      fun _ => rfl⟩
    · rw [staging?, hname']
      simp [Path.sibling?, hparent']
    · exact Path.segments_push_of_append rfl (Path.segments_ne_nil (by rwa [hnames'])) _

/-- Whether a place is neither at the goal nor at its staging directory, nor below one of them. -/
def IsOutside (d : Disk) (goal : Path) (place : Location) : Prop :=
  ∀ p, p = goal ∨ staging? goal = some p → ¬placeAlong (d.start p) p.segments <+: place

/-- Whether the path of a goal goes on with a plain path behind segments that lead to the place
`base`, through directories that are there and are outside of the goal and its staging directory. -/
structure Approach (d : Disk) (goal : Path) (lead : List String) (base : Location)
    (goal' : Path) : Prop where
  /-- The plain path stands at the end of the path. -/
  segments : goal.segments = lead ++ goal'.segments
  /-- It starts from where the segments in front of it lead to. -/
  isRelative : goal'.isAbsolute = false
  /-- It goes down only. -/
  plain : goal'.IsPlain
  /-- The segments in front of it lead through directories. -/
  leads : d.Leads (d.start goal) lead
  /-- They lead to the place `base`. -/
  base_eq : placeAlong (d.start goal) lead = base
  /-- No directory on this way is taken away or moved with the goal or its staging directory. -/
  outside : ∀ front, front <+: lead → IsOutside d goal (placeAlong (d.start goal) front)

/-- Whether a goal is reached through directories that are there. -/
def IsReached (d : Disk) (goal : Path) : Prop :=
  ∃ lead base goal', Approach d goal lead base goal'

/-- A plain goal with a name is reached from where its path starts. -/
theorem isReached_of_isPlain (hplain : goal.IsPlain) (hnames : goal.names ≠ [])
    (hstart : d.kindAt? (d.start goal) = some .directory) : IsReached d goal := by
  refine ⟨[], d.start goal, ⟨false, goal.segments⟩, rfl, rfl, hplain, ⟨fun front hfront => ?_, by simp⟩,
    rfl, fun front hfront p hp => ?_⟩
  · obtain rfl := List.prefix_nil.mp hfront
    exact hstart
  · obtain rfl := List.prefix_nil.mp hfront
    have hbelow : ∃ names, names ≠ [] ∧
        placeAlong (d.start p) p.segments = d.start goal ++ names := by
      obtain rfl | hstaging := hp
      · exact ⟨p.names, hnames, Disk.placeAlong_eq _ hplain⟩
      · obtain ⟨front, name, -, hnames', habsolute, hplain'⟩ := exists_of_staging? hplain hstaging
        have hsame := d.start_of_isAbsolute habsolute
        exact ⟨p.names, by simp [hnames'], hsame ▸ Disk.placeAlong_eq _ hplain'⟩
    obtain ⟨names, hne, hplace⟩ := hbelow
    rw [hplace]
    intro hbegin
    have hlength := hbegin.length_le
    have hpositive := List.length_pos_of_ne_nil hne
    simp only [placeAlong, List.foldl_nil, List.length_append] at hlength
    omega

namespace Approach

variable (h : Approach d goal lead base goal')
include h

/-- The place of a goal is below the place from which its path goes on. -/
theorem placeAlong_goal : placeAlong (d.start goal) goal.segments = base ++ goal'.names := by
  rw [h.segments, Disk.placeAlong_append, h.base_eq, Disk.placeAlong_eq _ h.plain]
  rfl

/-- The path of a goal goes on with a name. -/
theorem names_ne_nil : goal'.names ≠ [] := by
  intro hnone
  refine h.outside lead (List.prefix_refl lead) goal (.inl rfl) ?_
  rw [h.placeAlong_goal, h.base_eq, hnone, List.append_nil]

/-- The path of a goal leads on to the plain path. -/
theorem leadsOn : d.LeadsOn goal base goal' :=
  ⟨h.isRelative, h.names_ne_nil, lead, h.segments, h.leads, h.base_eq⟩

/-- The path of the staging directory leads on to that of the plain path. -/
theorem leadsOn_staging (hstaging : staging? goal = some staging)
    (hstaging' : staging? goal' = some staging') : d.LeadsOn staging base staging' := by
  obtain ⟨staging'', lead', hsame, habsolute, hsegments, hlead', hplaces⟩ :=
    exists_staging_of_append h.segments h.plain h.names_ne_nil hstaging
  obtain rfl := Option.some.inj (hstaging'.symm.trans hsame)
  obtain ⟨front, name, -, hnames', habsolute', -⟩ := exists_of_staging? h.plain hstaging'
  have hstart := d.start_of_isAbsolute habsolute
  exact ⟨habsolute'.trans h.isRelative, by simp [hnames'], lead', hsegments,
    hstart ▸ h.leads.of_isPrefix hlead', by rw [hstart, hplaces, h.base_eq]⟩

/-- A goal is reached the same way still where all directories outside of the goal and its staging
directory are still there. -/
theorem congr (hstart : d'.workingDirectory = d.workingDirectory)
    (hkeep : ∀ place, IsOutside d goal place → d.kindAt? place = some .directory →
      d'.kindAt? place = some .directory) : Approach d' goal lead base goal' := by
  have hsame := Disk.start_congr hstart
  refine ⟨h.segments, h.isRelative, h.plain, ?_, by rw [hsame, h.base_eq], fun front hfront p hp => ?_⟩
  · rw [hsame]
    exact h.leads.congr fun front hfront => hkeep _ (h.outside front hfront)
  · rw [hsame, hsame]
    exact h.outside front hfront p hp

/-- A goal is reached the same way still where all directories are still there. -/
theorem of_keeps (hkeep : d.KeepsDirectories d') : Approach d' goal lead base goal' :=
  h.congr hkeep.workingDirectory fun place _ => hkeep.directory place

/-! ### The steps of writing -/

/-- A goal is reached the same way still where it, or its staging directory, was taken away. The
working directory stays. -/
theorem of_removeWhere {p q : Path} (hp : p = goal ∨ staging? goal = some p)
    (hon : d.LeadsOn p base q) (hplain : q.IsPlain) {mayRemove : Disk.Entries → Bool}
    (hremove : d.removeWhere p mayRemove = .ok d') :
    Approach d' goal lead base goal' ∧ d'.workingDirectory = d.workingDirectory := by
  have hstart := (Disk.workingDirectory_of_removeWhere hremove).2
  refine ⟨h.congr hstart fun place hplace hdirectory => ?_, hstart⟩
  rw [hon.kindAt?_of_removeWhere hplain hremove (hon.placeAlong_eq hplain ▸ hplace p hp), hdirectory]

end Approach

/-- Where a run goes on after a step that is made only if something is there, it does so with the
disk seen from another directory, if that holds of the step and of what comes after it. -/
theorem ends_cleared_seenFrom {p q : Path} {remove remove' : Disk → Except Disk.Fault Disk}
    {cause cause' : Disk.Fault → Cause} {rest rest' : Run Unit} (hsettled : rest.IsSettled)
    (hexists : d.pathExists p = (d.seenFrom base).pathExists q)
    (hremove : remove' (d.seenFrom base) = (remove d).map (·.seenFrom base))
    (hrest : ∀ cleared, cleared = d ∨ remove d = .ok cleared → rest.Ends cleared (.ok ()) d' →
      rest'.Ends (cleared.seenFrom base) (.ok ()) (d'.seenFrom base))
    (h : Run.Ends (do
      if (← Run.disk).pathExists p then Run.changing remove cause
      rest) d (.ok ()) d') :
    Run.Ends (do
      if (← Run.disk).pathExists q then Run.changing remove' cause'
      rest') (d.seenFrom base) (.ok ()) (d'.seenFrom base) := by
  obtain ⟨found, hfound, h⟩ := h.exists_of_bind_onlyReads Run.onlyReads_disk fun d => by
    split
    · exact (Run.isSettled_changing _ _).bind fun _ => hsettled
    · exact hsettled
  obtain rfl := Except.ok.inj (hfound.unique (Run.ends_disk d)).1
  refine (Run.ends_disk _).bind ?_
  rw [← hexists]
  cases hthere : found.pathExists p with
  | true =>
    rw [hthere] at h
    obtain ⟨⟨⟩, cleared, hchange, h⟩ := Run.Ends.exists_of_bind h (Run.isSettled_changing _ _)
      fun _ => hsettled
    have hchange := Run.eq_ok_of_ends_changing hchange
    have hchange' : remove' (found.seenFrom base) = .ok (cleared.seenFrom base) := by
      rw [hremove, hchange]
      rfl
    exact (Run.ends_changing hchange' _).bind (hrest cleared (.inr hchange) h)
  | false =>
    rw [hthere] at h
    exact hrest found (.inl rfl) h

namespace Approach

variable (h : Approach d goal lead base goal')
include h

/-- The staging directory is made as that of the plain path. The working directory stays. -/
theorem ends_prepare (hstaging : staging? goal = some staging)
    (hstaging' : staging? goal' = some staging') (hprepare : (prepare staging).Ends d (.ok ()) d') :
    (prepare staging').Ends (d.seenFrom base) (.ok ()) (d'.seenFrom base) ∧
      Approach d' goal lead base goal' ∧ d'.workingDirectory = d.workingDirectory := by
  have hon := h.leadsOn_staging hstaging hstaging'
  obtain ⟨-, -, -, -, -, hplain⟩ := exists_of_staging? h.plain hstaging'
  have happroach : ∀ cleared, cleared = d ∨ d.removeTree staging = .ok cleared →
      Approach cleared goal lead base goal' ∧ cleared.workingDirectory = d.workingDirectory := by
    rintro cleared (rfl | hremove)
    · exact ⟨h, rfl⟩
    · exact h.of_removeWhere (.inr hstaging) hon hplain hremove
  obtain ⟨cleared, hcleared, hmake⟩ :=
    exists_of_ends_cleared (Run.isSettled_makeDirectories staging) hprepare
  have hmake := Run.eq_ok_of_ends_makeDirectories hmake
  obtain ⟨hpath, -⟩ := Disk.leads_of_makeDirectories hon.text_ne_empty hmake
  have hkeep := (Disk.addsDirectories_of_makeDirectories hmake).keepsDirectories
  have hremove : (d.seenFrom base).removeTree staging' =
      (d.removeTree staging).map (·.seenFrom base) := hon.removeWhere_eq hpath _
  obtain ⟨happroached, hstart⟩ := happroach cleared (hcleared.imp And.right And.right)
  refine ⟨ends_cleared_seenFrom (Run.isSettled_makeDirectories staging) (hon.pathExists_eq hpath)
    hremove (fun cleared hcleared hmake => ?_) hprepare, happroached.of_keeps hkeep,
    hkeep.workingDirectory.trans hstart⟩
  obtain ⟨happroached, -⟩ := happroach cleared hcleared
  exact Run.ends_makeDirectories ((happroached.leadsOn_staging hstaging hstaging').makeDirectories_eq
    hplain (Run.eq_ok_of_ends_makeDirectories hmake))

end Approach

/-- Classes are written below a directory as the other path tells. All directories stay, and the
file system takes the paths of their files. -/
theorem ends_writeClasses_seenFrom (h : d.LeadsOn directory base directory')
    (hplain : directory'.IsPlain) {classes : List ClassDef} {apiLevel : UInt32}
    (hplaceable : ∀ c ∈ classes, c.IsPlaceable)
    (hwrite : (writeClasses ⟨classes, apiLevel⟩ directory).Ends d (.ok ()) d') :
    (writeClasses ⟨classes, apiLevel⟩ directory').Ends (d.seenFrom base) (.ok ()) (d'.seenFrom base) ∧
      d.KeepsDirectories d' ∧
      ∀ c ∈ classes, Disk.checkPath (directory.join c.fileNames) = .ok () := by
  -- On the classes that are left.
  induction classes generalizing d with
  | nil =>
    obtain ⟨-, rfl⟩ := hwrite.unique (Run.ends_pure PUnit.unit d)
    exact ⟨Run.ends_pure PUnit.unit _, Disk.keepsDirectories_self _, by simp⟩
  | cons c classes ih =>
    obtain ⟨hc, hplaceable⟩ := List.forall_mem_cons.mp hplaceable
    obtain ⟨file, next, hfirst, hrest⟩ := exists_of_ends_writeClasses_cons hwrite
    obtain ⟨hfirst', hkeep, hpath⟩ := ClassDef.ends_writeBelow_seenFrom h hplain hc hfirst
    obtain ⟨hrest', hkeep', hpaths⟩ := ih (h.of_keeps hkeep) hplaceable hrest
    exact ⟨ends_writeClasses_cons hfirst' hrest', hkeep.trans hkeep',
      List.forall_mem_cons.mpr ⟨hpath, hpaths⟩⟩

namespace Approach

variable (h : Approach d goal lead base goal')
include h

/-- The staging directory is moved as that of the plain path. The working directory stays, and the
file system takes the path of the goal. -/
theorem ends_publish (hstaging : staging? goal = some staging)
    (hstaging' : staging? goal' = some staging')
    (hpublish : (publish staging goal).Ends d (.ok ()) d') :
    (publish staging' goal').Ends (d.seenFrom base) (.ok ()) (d'.seenFrom base) ∧
      d'.workingDirectory = d.workingDirectory ∧ Disk.checkPath goal = .ok () := by
  have happroach : ∀ cleared, cleared = d ∨ d.removeDirectory goal = .ok cleared →
      Approach cleared goal lead base goal' ∧ cleared.workingDirectory = d.workingDirectory := by
    rintro cleared (rfl | hremove)
    · exact ⟨h, rfl⟩
    · exact h.of_removeWhere (.inl rfl) h.leadsOn h.plain hremove
  obtain ⟨cleared, hcleared, hmove⟩ := exists_of_ends_cleared (Run.isSettled_changing _ _) hpublish
  obtain ⟨hpath, hpath', hstart⟩ :=
    Disk.workingDirectory_of_moveDirectory (Run.eq_ok_of_ends_changing hmove)
  have hremove : (d.seenFrom base).removeDirectory goal' =
      (d.removeDirectory goal).map (·.seenFrom base) := h.leadsOn.removeWhere_eq hpath' _
  refine ⟨ends_cleared_seenFrom (Run.isSettled_changing _ _) (h.leadsOn.pathExists_eq hpath') hremove
    (fun cleared hcleared hmove => ?_) hpublish,
    hstart.trans (happroach cleared (hcleared.imp And.right And.right)).2, hpath'⟩
  obtain ⟨hcleared, -⟩ := happroach cleared hcleared
  have hmoved : (cleared.seenFrom base).moveDirectory staging' goal' = .ok (d'.seenFrom base) := by
    rw [(hcleared.leadsOn_staging hstaging hstaging').moveDirectory_eq hcleared.leadsOn hpath hpath',
      Run.eq_ok_of_ends_changing hmove]
    rfl
  exact Run.ends_changing hmoved _

/-- A goal is reached the same way still where classes were laid out below it, and the staging
directory is gone. -/
theorem of_written (hstaging : staging? goal = some staging)
    (hstaging' : staging? goal' = some staging')
    (hstart : d'.workingDirectory = d.workingDirectory) {classes : List ClassDef}
    (hbecomes : (d.seenFrom base).Becomes (d'.seenFrom base)
      (published (d.seenFrom base) goal' staging' classes)) : Approach d' goal lead base goal' := by
  have hon := h.leadsOn_staging hstaging hstaging'
  obtain ⟨-, -, -, -, -, hplain⟩ := exists_of_staging? h.plain hstaging'
  refine h.congr hstart fun place hplace hdirectory => (hbecomes.kindAt? place).trans ?_
  have hgoal : ¬base ++ goal'.names <+: place := h.placeAlong_goal ▸ hplace goal (.inl rfl)
  have hstaging : ¬base ++ staging'.names <+: place :=
    hon.placeAlong_eq hplain ▸ hplace staging (.inr hstaging)
  rw [published, Disk.placeOf, Disk.placeOf, h.leadsOn.start_eq, hon.start_eq, if_neg hgoal,
    if_neg hstaging]
  split
  · rfl
  · exact hdirectory

end Approach

/-! ### Reading what was written -/

/-- Whether the path of a goal is spelled longer than that of its staging directory, with slashes or
segments that mean nothing. -/
def IsPadded (goal : Path) : Prop :=
  ∃ staging, staging? goal = some staging ∧ staging.text.utf8ByteSize < goal.text.utf8ByteSize

/-- The file system takes the path of a file below a goal if it takes that below the staging
directory, unless the path of the goal is padded. -/
theorem checkPath_join_of_staging (hstaging : staging? goal = some staging)
    (hgoal : Disk.checkPath goal = .ok ()) {ss : List String} (hss : ∀ s ∈ ss, s ≠ "")
    (hpadded : IsPadded goal → Disk.checkPath (goal.join ss) = .ok ())
    (h : Disk.checkPath (staging.join ss) = .ok ()) : Disk.checkPath (goal.join ss) = .ok () := by
  by_cases hlonger : staging.text.utf8ByteSize < goal.text.utf8ByteSize
  · exact hpadded ⟨staging, hstaging, hlonger⟩
  · obtain ⟨front, name, hsegments, hname, -⟩ := exists_segments_staging hstaging
    exact Path.checkPath_join_of_le hgoal (Nat.le_of_not_lt hlonger) (by simp [hsegments])
      (by simp [hsegments, hname]) hss h

/-- The file system takes the paths of files below a directory whose names it takes, unless they are
too long as a whole. -/
theorem isAccepted_of_checkPath {classes : List ClassDef} (hgoal : goal.IsAcceptable)
    (hstaging : IsAccepted staging classes) (hplaceable : ∀ c ∈ classes, c.IsPlaceable)
    (h : ∀ c ∈ classes, Disk.checkPath (goal.join c.fileNames) = .ok ()) :
    IsAccepted goal classes := by
  refine ⟨hgoal, fun c hc => ⟨h c hc, fun s hs => ?_⟩⟩
  obtain hs | hs := Path.mem_segments_join hs
  · exact hgoal.2 s hs
  · refine (hstaging.files c hc).2 s (Path.mem_segments_of_mem_names ?_)
    rw [Path.names_join staging fun x hx => ((hplaceable c hc).fileNames x hx).1]
    exact List.mem_append_right _ hs

/-- What has been written to a goal that is reached through directories that are there is read back,
each class once, if the names of the classes can be followed, each class is read from its own text,
and, where the path of the goal is padded, the paths of their files are not too long. -/
theorem exists_read_of_write {p : Program} (hnames : d.root.NamesDiffer) (hreached : IsReached d goal)
    (hplaceable : ∀ c ∈ p.classes, c.IsPlaceable)
    (hpaths : IsPadded goal → ∀ c ∈ p.classes, Disk.checkPath (goal.join c.fileNames) = .ok ())
    (hread : ∀ c ∈ p.classes, ClassDef.read c.print = .ok c)
    (hwrite : (write p goal).Ends d (.ok ()) d') (apiLevel : UInt32) :
    ∃ classes, (read goal apiLevel).Ends d' (.ok ⟨classes, apiLevel⟩) d' ∧
      classes.Perm p.classes := by
  obtain ⟨lead, base, goal', h⟩ := hreached
  obtain ⟨hnodup, staging, prepared, filled, hstaging, hprepare, hfill, hpublish⟩ :=
    exists_of_ends_write hwrite
  obtain ⟨staging', -, hstaging', -⟩ :=
    exists_staging_of_append h.segments h.plain h.names_ne_nil hstaging
  obtain ⟨-, -, -, -, -, hplain'⟩ := exists_of_staging? h.plain hstaging'
  -- Each step has done what it does for the plain rest of the path.
  obtain ⟨hprepare', hprepared, hstart⟩ := h.ends_prepare hstaging hstaging' hprepare
  obtain ⟨hfill', hkeep, hstagingPaths⟩ := ends_writeClasses_seenFrom
    (hprepared.leadsOn_staging hstaging hstaging') hplain' hplaceable hfill
  have hfilled := hprepared.of_keeps hkeep
  obtain ⟨hpublish', hstart', hgoalPath⟩ := hfilled.ends_publish hstaging hstaging' hpublish
  obtain ⟨hcan, hstorable, haccept, hbecomes⟩ :=
    becomes_of_steps h.plain hstaging' hnodup hplaceable hprepare' hfill' hpublish'
  have hon := (h.of_written hstaging hstaging'
    (hstart'.trans (hkeep.workingDirectory.trans hstart)) hbecomes).leadsOn
  have hfilePaths : ∀ c ∈ p.classes, Disk.checkPath (goal.join c.fileNames) = .ok () := fun c hc =>
    checkPath_join_of_staging hstaging hgoalPath (fun s hs => ((hplaceable c hc).fileNames s hs).1)
      (fun hpadded => hpaths hpadded c hc) (hstagingPaths c hc)
  have hclassOn : ∀ c ∈ p.classes, d'.LeadsOn (goal.join c.fileNames) base (goal'.join c.fileNames) :=
    fun c hc => hon.join fun s hs => ((hplaceable c hc).fileNames s hs).1
  -- What is found below the plain rest of the path is found below the goal.
  obtain ⟨hdirectory, es, hlist, hnames', hlaidOut, htexts⟩ := exists_list (hbecomes.namesDiffer hnames)
    (hcan.of_becomes hbecomes (by simp)) hstorable
    (isAccepted_of_checkPath hcan.acceptable haccept hplaceable fun c hc =>
      (hclassOn c hc).checkPath_eq (hfilePaths c hc))
    (hbecomes.placeOf goal' ▸ hbecomes.holdsClasses)
  refine ⟨sortedByFile p.classes, ends_read_of_laidOut ?_ ?_ hnames' hstorable hlaidOut hgoalPath
    hfilePaths (fun c hc => ?_) hread apiLevel, sortedByFile_perm p.classes⟩
  · rw [hon.isDirectory_eq hgoalPath, hdirectory]
  · rw [hon.list_eq hgoalPath, hlist]
  · rw [(hclassOn c hc).readText_eq (hfilePaths c hc), htexts c hc]

end ClassDirectory

end GatedCalls
