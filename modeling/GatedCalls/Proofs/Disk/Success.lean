import GatedCalls.Proofs.Disk.Operations

/-!
# What operations that succeed have met

For plain paths the conditions under which the operations on disks are done are also necessary: an
operation that succeeds has followed its path through directories, and has found what it needs at
the place of the path. Making directories has met no file on the way, which is seen by induction on
the parents that are made (`canFollow_of_makeDirectories`).
-/

namespace GatedCalls.Disk

open Disk.Path (namesIn)

variable {d d' : Disk} {p : Path}

/-! ### Following paths -/

/-- A plain path that names an entry can be followed. -/
theorem NamesEntry.canFollow {dir : Location} {es : Entries} {name : String} {slash : Bool}
    (h : d.NamesEntry p dir es name slash) (hplain : p.IsPlain) :
    d.CanFollow p ∧ ∃ front, p.names = front ++ [name] ∧ dir = d.start p ++ front := by
  obtain ⟨hpath, -, ahead, blanks, hsegments, hblanks, ⟨hempty, -⟩, hleads, hdir⟩ :=
    exists_of_target h.target
  refine ⟨⟨hplain, ⟨hpath, fun s hs => ?_⟩, hleads.directories [] List.nil_prefix⟩,
    namesIn ahead, ?_, ?_⟩
  · rw [hsegments, List.mem_append, List.mem_cons] at hs
    obtain hs | rfl | hs := hs
    · exact hleads.names s hs
    · exact h.accepted
    · exact hblanks s hs ▸ rfl
  · have hnone : namesIn blanks = [] := List.filter_eq_nil_iff.mpr fun s hs => by simp [hblanks s hs]
    rw [Path.names, hsegments, Path.namesIn_append, Path.namesIn_cons hempty, hnone]
  · rw [hdir, placeAlong_eq _ fun s hs => hplain s (by simp [hsegments, hs])]

/-- A path of a directory leads there. -/
theorem canFollow_of_isDirectory (hplain : p.IsPlain) (h : d.isDirectory p = true) :
    d.CanFollow p ∧ d.kindAt? (d.placeOf p) = some .directory := by
  obtain ⟨hpath, hleads⟩ := isDirectory_iff.mp h
  refine ⟨⟨hplain, ⟨hpath, hleads.names⟩, hleads.directories [] List.nil_prefix⟩, ?_⟩
  rw [← d.destination_of_isPlain hplain]
  exact hleads.directories p.segments (List.prefix_refl _)

/-! ### Making directories -/

/-- A directory is made only in a directory, and where nothing stands. -/
theorem canFollow_of_makeDirectory (hplain : p.IsPlain) (h : d.makeDirectory p = .ok d') :
    d.CanFollow p ∧ ∃ front last, p.names = front ++ [last] ∧
      d.kindAt? (d.start p ++ front) = some .directory ∧ d.kindAt? (d.placeOf p) = none := by
  obtain ⟨dir, es, name, slash, hentry, -⟩ := makeDirectory_eq_ok.mp h
  obtain ⟨hcan, front, hnames, rfl⟩ := hentry.canFollow hplain
  exact ⟨hcan, front, name, hnames, kindAt?_of_find? hentry.find?,
    hcan.destination_eq ▸ (becomes_of_makeDirectory h).1⟩

/-- Where the directories up to the parent are made and then the parent is there, a path starts from
a directory and no file is on the way to the parent; at the place of the path nothing has
changed. -/
theorem kindAt?_of_makeDirectories_parent {parent : Path} {above : Disk} {front : List String}
    {last : String} (hplain : p.IsPlain) (hnames : p.names = front ++ [last])
    (hparent : p.parent? = some parent) (habove : d.makeDirectories parent = (.ok (), above))
    (ih : parent.IsPlain → parent.text ≠ "" → d.CanFollow parent ∧ d.NoFileTo (d.placeOf parent))
    (hthere : above.kindAt? (above.start p ++ front) = some .directory) :
    d.kindAt? (d.start p) = some .directory ∧ d.NoFileTo (d.start p ++ front) ∧
      above.placeOf p = d.placeOf p ∧
      above.kindAt? (d.placeOf p) = d.kindAt? (d.placeOf p) := by
  obtain ⟨parent', hparent', hsame, hsegments, hparentNames⟩ := Path.parent?_eq hplain hnames
  obtain rfl : parent' = parent := Option.some.inj (hparent'.symm.trans hparent)
  have hstart := d.start_of_isAbsolute hsame
  by_cases htext : parent'.text = ""
  · rw [makeDirectories.eq_def, if_pos htext] at habove
    cases habove
    exact ⟨kindAt?_of_isPrefix hthere (List.prefix_append _ _), noFileTo_of_directory hthere, rfl,
      rfl⟩
  · have hplain' : parent'.IsPlain := fun s hs => hplain s (hsegments.subset hs)
    obtain ⟨hcan, hfree⟩ := ih hplain' htext
    obtain ⟨made, hmake, hmade⟩ :=
      exists_makeDirectories hplain' hcan.start (fun _ => hcan.acceptable) hfree
    cases hmake.symm.trans habove
    have hplace : d.placeOf parent' = d.start p ++ front := by
      rw [placeOf, hstart, hparentNames]
    refine ⟨hstart ▸ hcan.start, hplace ▸ hfree, hmade.placeOf p, ?_⟩
    rw [hmade.kindAt?, hplace, if_neg (not_placeOf_isPrefix hnames)]

/-- Directories are made only if no file is on the way. -/
theorem canFollow_of_makeDirectories (hplain : p.IsPlain) (htext : p.text ≠ "")
    (h : d.makeDirectories p = (.ok (), d')) : d.CanFollow p ∧ d.NoFileTo (d.placeOf p) := by
  fun_induction d.makeDirectories p generalizing d' with
  | case1 p hempty => exact absurd hempty htext
  | case2 p _ made hmake =>
    obtain ⟨hcan, front, last, hnames, hfront, hplace⟩ := canFollow_of_makeDirectory hplain hmake
    refine ⟨hcan, ?_⟩
    rw [placeOf_eq d hnames] at hplace ⊢
    exact (noFileTo_of_directory hfront).concat fun content hfile => by
      cases hplace.symm.trans hfile
  | case3 | case4 => cases h
  | case5 p _ hmissing parent hparent above habove made hmake ih =>
    obtain ⟨hcan, front, last, hnames, hfront, hplace⟩ := canFollow_of_makeDirectory hplain hmake
    obtain ⟨hstart, hfree, hsame, hkind⟩ := kindAt?_of_makeDirectories_parent hplain hnames hparent
      habove (fun hplain' htext' => ih hplain' htext' habove) hfront
    refine ⟨⟨hplain, hcan.acceptable, hstart⟩, ?_⟩
    rw [hsame, hkind] at hplace
    rw [placeOf_eq d hnames] at hplace ⊢
    exact hfree.concat fun content hfile => by cases hplace.symm.trans hfile
  | case6 p _ hmissing parent hparent above habove fault hmake ih =>
    -- The directory itself has come to be there with its parent.
    have hthere := isDirectory_of_ite (Prod.mk.inj h).1
    obtain ⟨hcan, hplace⟩ := canFollow_of_isDirectory hplain hthere
    obtain hnone | ⟨front, last, hnames⟩ := List.eq_nil_or_concat' p.names
    · cases hparent.symm.trans (Path.parent?_eq_none hplain hnone)
    · have hfront := placeOf_eq above hnames ▸ hplace
      obtain ⟨hstart, -, hsame, hkind⟩ := kindAt?_of_makeDirectories_parent hplain hnames hparent
        habove (fun hplain' htext' => ih hplain' htext' habove)
        (Node.kindAt?_directory_of_append hfront)
      rw [hsame, hkind] at hplace
      exact ⟨⟨hplain, hcan.acceptable, hstart⟩, noFileTo_of_directory hplace⟩
  | case7 p _ fault _ hmake =>
    have hthere := isDirectory_of_ite (Prod.mk.inj h).1
    obtain ⟨hcan, hplace⟩ := canFollow_of_isDirectory hplain hthere
    exact ⟨hcan, noFileTo_of_directory hplace⟩

/-! ### Files, removal and moving -/

/-- A file is put only where no directory stands. -/
theorem canFollow_of_putFile (hplain : p.IsPlain) {content : ByteArray}
    (h : d.putFile p content = .ok d') :
    d.CanFollow p ∧ d.kindAt? (d.placeOf p) ≠ some .directory := by
  obtain ⟨dir, es, name, hentry, -⟩ := putFile_eq_ok.mp h
  have hcan := (hentry.canFollow hplain).1
  exact ⟨hcan, hcan.destination_eq ▸ (becomes_of_putFile h).1⟩

/-- A directory is taken away only if one is there, and what is in it may be removed. -/
theorem canFollow_of_removeWhere (hplain : p.IsPlain) {mayRemove : Entries → Bool}
    (h : d.removeWhere p mayRemove = .ok d') :
    d.CanFollow p ∧ ∃ inner, d.root.find? (d.placeOf p) = some (.directory inner) ∧
      mayRemove inner = true := by
  obtain ⟨dir, es, name, slash, inner, hentry, -⟩ := removeWhere_eq_ok.mp h
  have hcan := (hentry.canFollow hplain).1
  exact ⟨hcan, hcan.destination_eq ▸ (becomes_of_removeWhere h).1⟩

/-- A directory is moved to another place only if nothing is there but possibly an empty
directory. -/
theorem canFollow_of_moveDirectory {source goal : Path} (hsource : source.IsPlain)
    (hgoal : goal.IsPlain) (hne : d.placeOf source ≠ d.placeOf goal)
    (h : d.moveDirectory source goal = .ok d') :
    d.CanFollow goal ∧ d.IsEmptyAt (d.placeOf goal) := by
  obtain ⟨dir, es, name, slash, dir', es', name', slash', inner, -, hentry, -⟩ :=
    moveDirectory_eq_ok.mp h
  rw [← d.destination_of_isPlain hsource, ← d.destination_of_isPlain hgoal] at hne
  have hcan := (hentry.canFollow hgoal).1
  exact ⟨hcan, hcan.destination_eq ▸ (becomes_of_moveDirectory hne h).1⟩

end GatedCalls.Disk
