import GatedCalls.Proofs.Disk.Success

/-!
# What operations change, wherever their paths lead

Whichever way its path goes, an operation on one place changes what stands at the `destination`.
Only making directories may change more, and also where it fails: then directories stand at places
on the way where nothing stood (`AddsDirectories`), and all others stay (`KeepsDirectories`). If it
succeeds, the whole way leads through directories (`leads_of_makeDirectories`); if not, the path
leads to none. Below a directory that is there, nothing outside of it changes
(`changesBelow_of_makeDirectories`).
-/

namespace GatedCalls.Disk

variable {d d' d'' : Disk} {p : Path} {dir : Location} {es : Entries} {name : String}

/-! ### Directories that stay -/

/-- Whether a change leaves all directories where they are. -/
structure KeepsDirectories (d d' : Disk) : Prop where
  /-- Relative paths start from where they did. -/
  workingDirectory : d'.workingDirectory = d.workingDirectory
  /-- No directory is taken away, or gives place to a file. -/
  directory : ∀ place, d.kindAt? place = some .directory → d'.kindAt? place = some .directory

/-- No change leaves all directories. -/
theorem keepsDirectories_self (d : Disk) : d.KeepsDirectories d :=
  ⟨rfl, fun _ => id⟩

/-- Changes that leave all directories, one after the other, leave them. -/
theorem KeepsDirectories.trans {d'' : Disk} (h : d.KeepsDirectories d')
    (h' : d'.KeepsDirectories d'') : d.KeepsDirectories d'' :=
  ⟨h'.workingDirectory.trans h.workingDirectory, fun place hplace =>
    h'.directory place (h.directory place hplace)⟩

/-! ### Making directories -/

/-- Whether a change has only made directories: each where nothing stood, and at one of the given
places. -/
structure AddsDirectories (d d' : Disk) (places : Location → Prop) : Prop where
  /-- Relative paths start from where they did. -/
  workingDirectory : d'.workingDirectory = d.workingDirectory
  /-- At each place stands what stood there, unless a directory was made there. -/
  kindAt? : ∀ q, d'.kindAt? q = d.kindAt? q ∨
    places q ∧ d.kindAt? q = none ∧ d'.kindAt? q = some .directory

namespace AddsDirectories

variable {places places' : Location → Prop}

/-- No change makes no directories. -/
theorem refl (d : Disk) (places : Location → Prop) : d.AddsDirectories d places :=
  ⟨rfl, fun _ => .inl rfl⟩

/-- Directories that were made at some places were made at more. -/
theorem mono (h : d.AddsDirectories d' places) (hplaces : ∀ q, places q → places' q) :
    d.AddsDirectories d' places' :=
  ⟨h.workingDirectory, fun q => (h.kindAt? q).imp_right (.imp_left (hplaces q))⟩

/-- Directories are made, and then more. -/
theorem trans (h : d.AddsDirectories d' places) (h' : d'.AddsDirectories d'' places) :
    d.AddsDirectories d'' places := by
  refine ⟨h'.workingDirectory.trans h.workingDirectory, fun q => ?_⟩
  obtain hlater | ⟨hq, hvacant, hmade⟩ := h'.kindAt? q
  · rw [hlater]
    exact h.kindAt? q
  · obtain hearlier | ⟨-, -, hdirectory⟩ := h.kindAt? q
    · exact .inr ⟨hq, hearlier ▸ hvacant, hmade⟩
    · cases hvacant.symm.trans hdirectory

/-- What stands somewhere stays where directories are made. -/
theorem kindAt?_eq (h : d.AddsDirectories d' places) {q : Location} (hq : d.kindAt? q ≠ none) :
    d'.kindAt? q = d.kindAt? q :=
  (h.kindAt? q).resolve_right fun hmade => hq hmade.2.1

/-- Where directories are made all others stay. -/
theorem keepsDirectories (h : d.AddsDirectories d' places) : d.KeepsDirectories d' :=
  ⟨h.workingDirectory, fun q hq => (h.kindAt?_eq (by simp [hq])).trans hq⟩

end AddsDirectories

/-- A directory that is made is one on the way. -/
theorem addsDirectories_of_makeDirectory (h : d.makeDirectory p = .ok d') :
    d.AddsDirectories d' (d.IsOnWay p) := by
  obtain ⟨hnone, hmade⟩ := becomes_of_makeDirectory h
  refine ⟨hmade.workingDirectory, fun q => ?_⟩
  rw [hmade.kindAt?]
  split
  case isTrue hq => exact .inr ⟨hq ▸ d.isOnWay_destination p, hq ▸ hnone, rfl⟩
  case isFalse => exact .inl rfl

/-- Making directories makes some that are missing on the way, whether it succeeds or not. -/
theorem addsDirectories_of_makeDirectories {result : Except Fault Unit}
    (h : d.makeDirectories p = (result, d')) : d.AddsDirectories d' (d.IsOnWay p) := by
  fun_induction d.makeDirectories p generalizing d' result with
  | case1 | case3 | case7 =>
    obtain rfl := (Prod.mk.inj h).2
    exact .refl _ _
  | case2 p _ made hmake =>
    obtain rfl := (Prod.mk.inj h).2
    exact addsDirectories_of_makeDirectory hmake
  | case4 p _ hmissing parent hparent fault above habove ih =>
    obtain rfl := (Prod.mk.inj h).2
    exact (ih habove).mono fun q hq => hq.of_parent hparent
  | case5 p _ hmissing parent hparent above habove made hmake ih =>
    obtain rfl := (Prod.mk.inj h).2
    have hparents := (ih habove).mono fun q hq => hq.of_parent hparent
    exact hparents.trans ((addsDirectories_of_makeDirectory hmake).mono
      fun q hq => hq.congr hparents.workingDirectory.symm)
  | case6 p _ hmissing parent hparent above habove fault hmake ih =>
    obtain rfl := (Prod.mk.inj h).2
    exact (ih habove).mono fun q hq => hq.of_parent hparent

/-- Where directories could not be made, those that were made are on the way to the parent. -/
theorem addsDirectories_of_makeDirectories_error {fault : Fault}
    (h : d.makeDirectories p = (.error fault, d')) :
    d.AddsDirectories d' fun q => ∃ parent, p.parent? = some parent ∧ d.IsOnWay parent q := by
  fun_induction d.makeDirectories p generalizing d' fault with
  | case1 | case2 | case5 => cases h
  | case3 | case7 =>
    obtain rfl := (Prod.mk.inj h).2
    exact .refl _ _
  | case4 p _ hmissing parent hparent fault' above habove =>
    obtain rfl := (Prod.mk.inj h).2
    exact (addsDirectories_of_makeDirectories habove).mono fun q hq => ⟨parent, hparent, hq⟩
  | case6 p _ hmissing parent hparent above habove =>
    obtain rfl := (Prod.mk.inj h).2
    exact (addsDirectories_of_makeDirectories habove).mono fun q hq => ⟨parent, hparent, hq⟩

/-- A directory that has been made is where the way leads through directories. -/
theorem leads_of_makeDirectory (h : d.makeDirectory p = .ok d') :
    checkPath p = .ok () ∧ d'.Leads (d'.start p) p.segments := by
  obtain ⟨dir, es, name, slash, hentry, -⟩ := makeDirectory_eq_ok.mp h
  obtain ⟨-, hmade⟩ := becomes_of_makeDirectory h
  have hkeep := (addsDirectories_of_makeDirectory h).keepsDirectories
  have hplace : d'.kindAt? (dir ++ [name]) = some .directory := by
    rw [hmade.kindAt?, if_pos hentry.destination.symm]
  obtain ⟨hpath, -, front, blanks, hsegments, hblanks, ⟨hne, hdot, hup⟩, hleads, rfl⟩ :=
    exists_of_target hentry.target
  have hfront : d'.Leads (d.start p) front := hleads.congr fun _ _ => hkeep.directory _
  have hstep : stepAlong (placeAlong (d.start p) front) name =
      placeAlong (d.start p) front ++ [name] := by simp [stepAlong, hne, hdot, hup]
  rw [hmade.start, hsegments]
  exact ⟨hpath, hfront.append (.cons (hfront.directories front (List.prefix_refl _)) hentry.accepted
    (.of_empty (hstep ▸ hplace) hblanks))⟩

/-- Where directories have been made the way leads through directories. -/
theorem leads_of_makeDirectories (htext : p.text ≠ "") (h : d.makeDirectories p = (.ok (), d')) :
    checkPath p = .ok () ∧ d'.Leads (d'.start p) p.segments := by
  fun_induction d.makeDirectories p generalizing d' with
  | case1 p hempty => exact absurd hempty htext
  | case2 p _ made hmake =>
    cases h
    exact leads_of_makeDirectory hmake
  | case3 | case4 => cases h
  | case5 p _ hmissing parent hparent above habove made hmake ih =>
    cases h
    exact leads_of_makeDirectory hmake
  | case6 p _ hmissing parent hparent above habove fault hmake ih =>
    obtain ⟨hthere, rfl⟩ := Prod.mk.inj h
    exact isDirectory_iff.mp (isDirectory_of_ite hthere)
  | case7 p _ fault _ hmake =>
    obtain ⟨hthere, rfl⟩ := Prod.mk.inj h
    exact isDirectory_iff.mp (isDirectory_of_ite hthere)

/-- A directory that is there is not made again. -/
theorem makeDirectory_of_isDirectory (h : d.isDirectory p = true) :
    d.makeDirectory p = .error .alreadyExists := by
  obtain ⟨hpath, hleads⟩ := isDirectory_iff.mp h
  cases hsplit : splitLast? p.segments with
  | none =>
    rw [makeDirectory, target, hpath, hsplit]
    rfl
  | some split =>
    obtain ⟨front, last, slash⟩ := split
    obtain ⟨hempty, blanks, hsegments, -⟩ := exists_of_splitLast? hsplit
    rw [hsegments] at hleads
    have hfront := hleads.of_isPrefix (List.prefix_append front _)
    obtain ⟨es, hes⟩ :=
      Node.kindAt?_eq_directory.mp (hfront.directories front (List.prefix_refl _))
    rw [makeDirectory, target_eq_of_leads hpath hsplit hfront hes]
    by_cases hdot : last = "."
    · rw [if_pos hdot]
      rfl
    · by_cases hup : last = ".."
      · rw [if_neg hdot, if_pos hup]
        rfl
      · obtain ⟨hlast, es', inner, hes', hinner⟩ := hleads.exists_entry ⟨hempty, hdot, hup⟩
        cases hes.symm.trans hes'
        rw [if_neg hdot, if_neg hup]
        simp only [bind, Except.bind, hlast, hinner, Option.isSome_some, if_true]
        rfl

/-- The parent of a directory is one, if it has a text. -/
theorem isDirectory_parent {parent : Path} (h : d.isDirectory p = true)
    (hparent : p.parent? = some parent) (htext : parent.text ≠ "") :
    d.isDirectory parent = true := by
  obtain ⟨hpath, hleads⟩ := isDirectory_iff.mp h
  obtain ⟨habsolute, last, between, behind, -, -, hsegments, -⟩ :=
    Path.exists_segments_of_parent? hparent
  have hprefix : parent.segments <+: p.segments := hsegments ▸ List.prefix_append _ _
  have hstart := d.start_of_isAbsolute habsolute
  exact isDirectory_iff.mpr
    ⟨Path.checkPath_of_isInfix hpath (Path.text_isPrefix habsolute hprefix).isInfix htext,
      hstart ▸ hleads.of_isPrefix hprefix⟩

/-- Where directories could not be made the path leads to none. -/
theorem isDirectory_of_makeDirectories_error {fault : Fault}
    (h : d.makeDirectories p = (.error fault, d')) : d'.isDirectory p = false := by
  rw [← Bool.not_eq_true]
  fun_induction d.makeDirectories p generalizing d' fault with
  | case1 | case2 | case5 => cases h
  | case3 p _ hmissing hparent =>
    obtain ⟨-, rfl⟩ := Prod.mk.inj h
    intro hthere
    cases hmissing.symm.trans (makeDirectory_of_isDirectory hthere)
  | case4 p _ hmissing parent hparent fault' above habove ih =>
    obtain ⟨-, rfl⟩ := Prod.mk.inj h
    intro hthere
    refine ih habove (isDirectory_parent hthere hparent fun htext => ?_)
    rw [makeDirectories.eq_def, if_pos htext] at habove
    cases habove
  | case6 p _ hmissing parent hparent above habove fault' hmake ih =>
    obtain ⟨hresult, rfl⟩ := Prod.mk.inj h
    intro hthere
    rw [if_pos hthere] at hresult
    cases hresult
  | case7 p _ fault' _ hmake =>
    obtain ⟨hresult, rfl⟩ := Prod.mk.inj h
    intro hthere
    rw [if_pos hthere] at hresult
    cases hresult

/-- A directory whose path ends with its name can be taken away with all that is in it. -/
theorem exists_removeTree_of_leads {front : List String} (hpath : checkPath p = .ok ())
    (hsegments : p.segments = front ++ [name]) (hname : name ≠ "" ∧ name ≠ "." ∧ name ≠ "..")
    (h : d.Leads (d.start p) p.segments) : ∃ d', d.removeTree p = .ok d' := by
  have hsplit : splitLast? p.segments = some (front, name, false) := by
    simp [splitLast?, hsegments, hname.1]
  rw [hsegments] at h
  obtain ⟨hchecked, es, inner, hes, hinner⟩ := h.exists_entry hname
  have htarget := target_eq_of_leads hpath hsplit (h.of_isPrefix (List.prefix_append front _)) hes
  rw [if_neg hname.2.1, if_neg hname.2.2] at htarget
  exact ⟨_, removeWhere_eq_ok.mpr ⟨_, es, name, false, inner, ⟨htarget, hchecked⟩, hinner, rfl, rfl⟩⟩

/-! ### Files -/

/-- Writing a file leaves all directories, and the file system takes its path. -/
theorem keepsDirectories_of_putFile {content : ByteArray} (h : d.putFile p content = .ok d') :
    checkPath p = .ok () ∧ d.KeepsDirectories d' := by
  obtain ⟨dir, es, name, hentry, -⟩ := putFile_eq_ok.mp h
  obtain ⟨hplace, hput⟩ := becomes_of_putFile h
  refine ⟨hentry.checkPath_eq, hput.workingDirectory, fun q hq => ?_⟩
  have hother : q ≠ d.destination p := fun heq => hplace (heq ▸ hq)
  rw [hput.kindAt?, if_neg hother]
  exact hq

/-! ### Changes below a place -/

/-- Whether a change has kept all directories, and all that does not stand at a place or below
it. -/
structure ChangesBelow (d d' : Disk) (place : Location) : Prop where
  /-- All directories are kept, those below the place too. -/
  keeps : d.KeepsDirectories d'
  /-- Outside of the place nothing has changed. -/
  kindAt? : ∀ q, ¬place <+: q → d'.kindAt? q = d.kindAt? q

/-- No change is one below a place. -/
theorem ChangesBelow.refl (d : Disk) (place : Location) : d.ChangesBelow d place :=
  ⟨keepsDirectories_self d, fun _ _ => rfl⟩

/-- Changes below a place, one after the other. -/
theorem ChangesBelow.trans {place : Location} (h : d.ChangesBelow d' place)
    (h' : d'.ChangesBelow d'' place) : d.ChangesBelow d'' place :=
  ⟨h.keeps.trans h'.keeps, fun q hq => (h'.kindAt? q hq).trans (h.kindAt? q hq)⟩

/-- Paths lead to the same places as before where all directories are kept. -/
theorem KeepsDirectories.destination (h : d.KeepsDirectories d') (p : Path) :
    d'.destination p = d.destination p :=
  destination_congr h.workingDirectory p

/-- A way through directories is one still where all directories are kept. -/
theorem KeepsDirectories.leads (h : d.KeepsDirectories d')
    (hleads : d.Leads (d.start p) p.segments) : d'.Leads (d'.start p) p.segments := by
  have hstart := start_congr h.workingDirectory p
  exact hstart ▸ hleads.congr fun _ _ => h.directory _

/-- Directories with names that lead down are made below a directory that is there. -/
theorem changesBelow_of_makeDirectories {ss : List String} {result : Except Fault Unit}
    (hleads : d.Leads (d.start p) p.segments)
    (hss : ∀ s ∈ ss, s ≠ "" ∧ s ≠ "." ∧ s ≠ "..")
    (h : d.makeDirectories (p.join ss) = (result, d')) :
    d.ChangesBelow d' (d.destination p) := by
  have hmade := addsDirectories_of_makeDirectories h
  refine ⟨hmade.keepsDirectories, fun q hq => (hmade.kindAt? q).resolve_right ?_⟩
  rintro ⟨hway, hvacant, -⟩
  obtain ⟨front, hfront, rfl⟩ | hbelow := hway.of_join hss
  · cases hvacant.symm.trans (hleads.directories front hfront)
  · exact hq hbelow

end GatedCalls.Disk
