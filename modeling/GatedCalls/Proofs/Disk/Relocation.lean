import GatedCalls.Proofs.Disk.Changes

/-!
# Disks seen from another directory

Segments ahead of a path that lead through directories could be left out, if the disk was seen from
the place to which they lead (`LeadsOn`). Reading and changing the disk there come to the same,
operation by operation. Making directories goes up to the parents, so this is an induction on them:
it stops below the place to which the segments ahead lead, and it leaves the directories on the way
to that place.
-/

namespace GatedCalls.Disk

variable {d d' : Disk} {p q : Path} {base place : Location} {ss : List String}

/-! ### A disk seen from another directory -/

/-- A disk as it is seen in another working directory. -/
def seenFrom (d : Disk) (base : Location) : Disk :=
  { d with workingDirectory := base }

/-- Places are followed alike wherever a disk is seen from. -/
theorem follow_seenFrom (d : Disk) (base place : Location) (ss : List String) :
    (d.seenFrom base).follow place ss = d.follow place ss := by
  have hentries : ∀ place, (d.seenFrom base).entriesAt place = d.entriesAt place := fun _ => rfl
  induction ss generalizing place with
  | nil => rfl
  | cons s ss ih => simp only [follow, hentries, ih]

/-- Whether a path leads through directories that are there to the place `base`, and goes on from
there as another path, which has a name. -/
structure LeadsOn (d : Disk) (p : Path) (base : Location) (q : Path) : Prop where
  /-- The other path starts from the place. -/
  isRelative : q.isAbsolute = false
  /-- It does not end there. -/
  names : q.names ≠ []
  /-- The segments in front of it lead to the place. -/
  way : ∃ lead, p.segments = lead ++ q.segments ∧ d.Leads (d.start p) lead ∧
    placeAlong (d.start p) lead = base

namespace LeadsOn

variable (h : d.LeadsOn p base q)
include h

/-- The place where the way goes on is a directory. -/
theorem kindAt?_base : d.kindAt? base = some .directory := by
  obtain ⟨lead, -, hleads, rfl⟩ := h.way
  exact hleads.directories lead (List.prefix_refl lead)

/-- What a path goes on with starts where its lead has led. -/
theorem start_eq : (d.seenFrom base).start q = base := by
  rw [start, h.isRelative]
  rfl

/-- The file system takes what a path that it takes goes on with. -/
theorem checkPath_eq (hp : checkPath p = .ok ()) : checkPath q = .ok () := by
  obtain ⟨lead, hsegments, -⟩ := h.way
  exact Path.checkPath_of_append hsegments h.isRelative h.names hp

/-- A path has a text. -/
theorem text_ne_empty : p.text ≠ "" := by
  obtain ⟨lead, hsegments, -⟩ := h.way
  refine Path.text_ne_empty fun hnone => h.names ?_
  rw [Path.names, hsegments, Path.namesIn_append] at hnone
  exact (List.append_eq_nil_iff.mp hnone).2

/-- A way that leads through directories leads through them still where all of them are still
there. -/
theorem of_keeps (hkeep : d.KeepsDirectories d') : d'.LeadsOn p base q := by
  obtain ⟨lead, hsegments, hleads, hbase⟩ := h.way
  have hstart := start_congr hkeep.workingDirectory p
  exact ⟨h.isRelative, h.names, lead, hsegments,
    hstart ▸ hleads.congr fun _ _ => hkeep.directory _, hstart ▸ hbase⟩

/-- A path leads to the place of the other one, if that is plain. -/
theorem placeAlong_eq (hplain : q.IsPlain) : placeAlong (d.start p) p.segments = base ++ q.names := by
  obtain ⟨lead, hsegments, -, rfl⟩ := h.way
  rw [hsegments, placeAlong_append, Disk.placeAlong_eq _ hplain]
  rfl

/-- A path with more names goes on with that of the other one. -/
theorem join (hss : ∀ s ∈ ss, s ≠ "") : d.LeadsOn (p.join ss) base (q.join ss) := by
  obtain ⟨lead, hsegments, hleads, hbase⟩ := h.way
  have hstart := d.start_of_isAbsolute (p.isAbsolute_join ss)
  refine ⟨by rw [q.isAbsolute_join, h.isRelative], ?_, lead,
    Path.segments_join_of_append hsegments (Path.segments_ne_nil h.names) ss,
    hstart ▸ hleads, hstart ▸ hbase⟩
  rw [q.names_join hss]
  exact fun hnone => h.names (List.append_eq_nil_iff.mp hnone).1

/-- The parent of a path goes on with that of the other one, if it has more than one name. -/
theorem parent (hplain : q.IsPlain) {front : List String} {last : String}
    (hnames : q.names = front ++ [last]) (hfront : front ≠ []) {parent : Path}
    (hparent : p.parent? = some parent) :
    ∃ parent', q.parent? = some parent' ∧ parent'.IsPlain ∧ d.LeadsOn parent base parent' := by
  obtain ⟨lead, hsegments, hleads, hbase⟩ := h.way
  obtain ⟨parent', hparent', hsame, hbegin, hnames'⟩ := Path.parent?_eq hplain hnames
  rw [Path.parent?_of_append hsegments hplain hnames hfront hparent'] at hparent
  obtain rfl := Option.some.inj hparent
  exact ⟨parent', hparent', fun s hs => hplain s (hbegin.subset hs), hsame.trans h.isRelative,
    by rwa [hnames'], lead, rfl, hleads, hbase⟩

/-! Operations do to a disk what the other path tells them to do to the disk as it is seen from
where the way goes on. -/

/-- A path leads where the other one leads. -/
theorem resolve_eq (hp : checkPath p = .ok ()) : d.resolve p = (d.seenFrom base).resolve q := by
  obtain ⟨lead, hsegments, hleads, rfl⟩ := h.way
  rw [resolve, resolve, hp, h.checkPath_eq hp, h.start_eq, hsegments]
  simp only [bind, Except.bind, follow_append, hleads.follow_eq, follow_seenFrom]

/-- A path names what the other one names. -/
theorem target_eq (hp : checkPath p = .ok ()) : d.target p = (d.seenFrom base).target q := by
  obtain ⟨lead, hsegments, hleads, rfl⟩ := h.way
  obtain hnone | ⟨front, last, hnames⟩ := List.eq_nil_or_concat' q.names
  · exact absurd hnone h.names
  obtain ⟨ahead, hdrop, -, -⟩ := Path.exists_dropWhile_eq_cons hnames
  have hlast : p.segments.getLast? = q.segments.getLast? := by
    rw [hsegments, List.getLast?_append_of_ne_nil _ (Path.segments_ne_nil h.names)]
  have hdrop' : p.segments.reverse.dropWhile (· = "") = last :: (lead ++ ahead).reverse := by
    rw [hsegments, List.reverse_append, List.dropWhile_append, hdrop]
    simp
  have hentries : ∀ place, (d.seenFrom (placeAlong (d.start p) lead)).entriesAt place =
      d.entriesAt place := fun _ => rfl
  rw [target, target, hp, h.checkPath_eq hp, h.start_eq, splitLast?, splitLast?, hdrop, hdrop',
    hlast]
  simp only [bind, Except.bind, List.reverse_reverse, follow_append, hleads.follow_eq,
    follow_seenFrom, hentries]

/-- A path leads to something if the other one does. -/
theorem pathExists_eq (hp : checkPath p = .ok ()) :
    d.pathExists p = (d.seenFrom base).pathExists q := by
  rw [pathExists, pathExists, node?, node?, h.resolve_eq hp]
  rfl

/-- A path leads to a directory if the other one does. -/
theorem isDirectory_eq (hp : checkPath p = .ok ()) :
    d.isDirectory p = (d.seenFrom base).isDirectory q := by
  rw [isDirectory, isDirectory, node?, node?, h.resolve_eq hp]
  rfl

/-- A path leads to the entries to which the other one leads. -/
theorem list_eq (hp : checkPath p = .ok ()) : d.list p = (d.seenFrom base).list q := by
  rw [list, list, h.resolve_eq hp]
  rfl

/-- A path leads to the text to which the other one leads. -/
theorem readText_eq (hp : checkPath p = .ok ()) :
    d.readText p = (d.seenFrom base).readText q := by
  rw [readText, readText, h.resolve_eq hp]
  rfl

/-- A directory is made as the other path tells. -/
theorem makeDirectory_eq (hp : checkPath p = .ok ()) :
    (d.seenFrom base).makeDirectory q = (d.makeDirectory p).map (·.seenFrom base) := by
  rw [makeDirectory, makeDirectory, ← h.target_eq hp]
  obtain fault | ⟨target, slash⟩ := d.target p
  · rfl
  · cases target with
    | root | here | above => rfl
    | entry dir es name =>
      simp only [bind, Except.bind]
      cases checkName name with
      | error fault => rfl
      | ok a =>
        simp only []
        split <;> rfl

/-- A file is put as the other path tells. -/
theorem putFile_eq (hp : checkPath p = .ok ()) (content : ByteArray) :
    (d.seenFrom base).putFile q content = (d.putFile p content).map (·.seenFrom base) := by
  rw [putFile, putFile, ← h.target_eq hp]
  obtain fault | ⟨target, slash⟩ := d.target p
  · rfl
  · cases target with
    | root | here | above => rfl
    | entry dir es name =>
      simp only [bind, Except.bind]
      cases slash with
      | true => rfl
      | false =>
        cases checkName name with
        | error fault => rfl
        | ok a => simp only [Bool.false_eq_true, if_false]; split <;> rfl

/-- A directory is taken away as the other path tells. -/
theorem removeWhere_eq (hp : checkPath p = .ok ()) (mayRemove : Entries → Bool) :
    (d.seenFrom base).removeWhere q mayRemove =
      (d.removeWhere p mayRemove).map (·.seenFrom base) := by
  rw [removeWhere, removeWhere, ← h.target_eq hp]
  obtain fault | ⟨target, slash⟩ := d.target p
  · rfl
  · cases target with
    | root | here | above => rfl
    | entry dir es name =>
      simp only [bind, Except.bind]
      cases checkName name with
      | error fault => rfl
      | ok a =>
        simp only []
        split
        · rfl
        · rfl
        · split <;> rfl

/-- A directory is moved as the other paths tell. -/
theorem moveDirectory_eq {goal goal' : Path} (hgoal : d.LeadsOn goal base goal')
    (hp : checkPath p = .ok ()) (hp' : checkPath goal = .ok ()) :
    (d.seenFrom base).moveDirectory q goal' =
      (d.moveDirectory p goal).map (·.seenFrom base) := by
  rw [moveDirectory, moveDirectory, ← h.target_eq hp, ← hgoal.target_eq hp']
  obtain fault | ⟨target, slash⟩ := d.target p
  · rfl
  obtain fault | ⟨target', slash'⟩ := d.target goal
  · rfl
  cases target with
  | root | here | above => rfl
  | entry dir es name =>
    cases target' with
    | root | here | above => rfl
    | entry dir' es' name' =>
      simp only [bind, Except.bind]
      cases checkName name with
      | error fault => rfl
      | ok a =>
        cases checkName name' with
        | error fault => rfl
        | ok a' =>
          simp only []
          split
          · rfl
          · rfl
          · split
            · rfl
            split
            · rfl
            cases checkReplaced (Entries.get? es' name') with
            | error fault => rfl
            | ok a'' => rfl

end LeadsOn

/-- Where a directory is missing for one more to be made, the path goes on with more than one name,
and the directory above is missing that its parent names. -/
theorem LeadsOn.parent_of_missing (h : d.LeadsOn p base q) (hplain : q.IsPlain)
    (hp : checkPath p = .ok ()) (hmissing : d.makeDirectory p = .error .notFound) {parent : Path}
    (hparent : p.parent? = some parent) :
    ∃ parent', q.parent? = some parent' ∧ parent'.IsPlain ∧ d.LeadsOn parent base parent' := by
  obtain hnone | ⟨front, last, hnames⟩ := List.eq_nil_or_concat' q.names
  · exact absurd hnone h.names
  refine h.parent hplain hnames (fun hfront => ?_) hparent
  -- In the directory that is there, nothing is missing.
  subst hfront
  obtain ⟨ahead, hsplit, -, hnone⟩ := Path.splitLast?_eq hnames
  have hempty : ∀ s ∈ ahead, s = "" := fun s hs => by
    simpa using List.filter_eq_nil_iff.mp hnone s hs
  have hleads : d.Leads base ahead := by
    refine ⟨fun front hfront => ?_, fun s hs => hempty s hs ▸ rfl⟩
    rw [placeAlong_of_blank base fun s hs => .inl (hempty s (hfront.subset hs))]
    exact h.kindAt?_base
  obtain ⟨es, -, hentries⟩ := exists_entriesAt h.kindAt?_base
  have hentries' : (d.seenFrom base).entriesAt base = .ok es := hentries
  have hlast := hplain last (Path.mem_segments_of_mem_names (by simp [hnames]))
  rw [makeDirectory, h.target_eq hp, target, h.checkPath_eq hp, h.start_eq, hsplit] at hmissing
  simp only [bind, Except.bind, follow_seenFrom, hleads.follow_eq,
    placeAlong_of_blank base fun s hs => .inl (hempty s hs), hentries', hlast.1, hlast.2,
    if_false, pure, Except.pure, checkName] at hmissing
  split at hmissing
  · next hlong =>
    split at hlong <;> cases hlong
    cases hmissing
  · split at hmissing <;> cases hmissing

/-- Directories are made as the other path tells. -/
theorem LeadsOn.makeDirectories_eq (h : d.LeadsOn p base q) (hplain : q.IsPlain)
    (hmake : d.makeDirectories p = (.ok (), d')) :
    (d.seenFrom base).makeDirectories q = (.ok (), d'.seenFrom base) := by
  have htext : q.text ≠ "" := Path.text_ne_empty h.names
  fun_induction d.makeDirectories p generalizing q d' with
  | case1 p hempty => exact absurd hempty h.text_ne_empty
  | case2 p _ made hmade =>
    cases hmake
    refine makeDirectories_of_ok htext ?_
    rw [h.makeDirectory_eq (leads_of_makeDirectory hmade).1, hmade]
    rfl
  | case3 | case4 => cases hmake
  | case5 p _ hmissing parent hparent above habove made hmade ih =>
    cases hmake
    have hp := (leads_of_makeDirectory hmade).1
    obtain ⟨parent', hparent', hplain', hon⟩ := h.parent_of_missing hplain hp hmissing hparent
    have habove' := ih hon hplain' habove (Path.text_ne_empty hon.names)
    have h' := h.of_keeps (addsDirectories_of_makeDirectories habove).keepsDirectories
    refine makeDirectories_of_notFound htext ?_ hparent' habove' ?_
    · rw [h.makeDirectory_eq hp, hmissing]
      rfl
    · rw [h'.makeDirectory_eq hp, hmade]
      rfl
  | case6 p _ hmissing parent hparent above habove fault hmade ih =>
    -- The directory itself has come to be there with its parent.
    obtain ⟨hresult, rfl⟩ := Prod.mk.inj hmake
    have hthere := isDirectory_of_ite hresult
    have hp := (isDirectory_iff.mp hthere).1
    obtain ⟨parent', hparent', hplain', hon⟩ := h.parent_of_missing hplain hp hmissing hparent
    have habove' := ih hon hplain' habove (Path.text_ne_empty hon.names)
    have h' := h.of_keeps (addsDirectories_of_makeDirectories habove).keepsDirectories
    have hmissing' : (d.seenFrom base).makeDirectory q = .error .notFound := by
      rw [h.makeDirectory_eq hp, hmissing]
      rfl
    have hmade' : (above.seenFrom base).makeDirectory q = .error fault := by
      rw [h'.makeDirectory_eq hp, hmade]
      rfl
    exact makeDirectories_of_parent htext hmissing' hparent' habove' hmade'
      (h'.isDirectory_eq hp ▸ hthere)
  | case7 p _ fault hfault hmade =>
    obtain ⟨hresult, rfl⟩ := Prod.mk.inj hmake
    have hthere := isDirectory_of_ite hresult
    have hp := (isDirectory_iff.mp hthere).1
    refine makeDirectories_of_present htext ?_ hfault (h.isDirectory_eq hp ▸ hthere)
    rw [h.makeDirectory_eq hp, hmade]
    rfl

/-! ### Removal and moving -/

/-- Taking a directory away leaves the working directory, and the file system takes the path. -/
theorem workingDirectory_of_removeWhere {mayRemove : Entries → Bool}
    (h : d.removeWhere p mayRemove = .ok d') :
    checkPath p = .ok () ∧ d'.workingDirectory = d.workingDirectory := by
  obtain ⟨dir, es, name, slash, inner, hentry, -⟩ := removeWhere_eq_ok.mp h
  exact ⟨hentry.checkPath_eq, (becomes_of_removeWhere h).2.workingDirectory⟩

/-- Moving a directory leaves the working directory, and the file system takes the paths. -/
theorem workingDirectory_of_moveDirectory {goal : Path} (h : d.moveDirectory p goal = .ok d') :
    checkPath p = .ok () ∧ checkPath goal = .ok () ∧ d'.workingDirectory = d.workingDirectory := by
  obtain ⟨dir, es, name, slash, dir', es', name', slash', inner, hentry, hentry', -, -, hplaced⟩ :=
    moveDirectory_eq_ok.mp h
  refine ⟨hentry.checkPath_eq, hentry'.checkPath_eq, ?_⟩
  obtain ⟨-, rfl⟩ | ⟨-, -, rfl⟩ := hplaced <;> rfl

/-- Taking a directory away changes nothing outside of it. -/
theorem LeadsOn.kindAt?_of_removeWhere (h : d.LeadsOn p base q) (hplain : q.IsPlain)
    {mayRemove : Entries → Bool} (hremove : d.removeWhere p mayRemove = .ok d')
    (hplace : ¬base ++ q.names <+: place) : d'.kindAt? place = d.kindAt? place := by
  have hdestination : d.destination p = base ++ q.names := h.placeAlong_eq hplain
  rw [(becomes_of_removeWhere hremove).2.kindAt?, hdestination, if_neg hplace]

end GatedCalls.Disk
