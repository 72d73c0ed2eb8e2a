import GatedCalls.Proofs.Disk.Destination

/-!
# What the operations on disks do

Each operation on one place is told twice, whichever way its path goes. The first lemma says exactly
when it succeeds and with which disk (`makeDirectory_eq_ok` and those like it), so that no other
lemma takes an operation apart. The second one says what stands at all places afterwards
(`Becomes`): a directory or a file stands at the `destination` of the path, nothing stands below it,
or there stands what stood below another place.
-/

namespace GatedCalls.Disk

/-! ### Changes -/

/-- Whether a disk is another one after a change: the working directory is the same, names in
directories that differed differ still, and at each place stands what `kinds` says. -/
structure Becomes (d d' : Disk) (kinds : Location → Option Kind) : Prop where
  workingDirectory : d'.workingDirectory = d.workingDirectory
  namesDiffer : d.root.NamesDiffer → d'.root.NamesDiffer
  kindAt? : ∀ q, d'.kindAt? q = kinds q

variable {d d' : Disk} {p : Path} {dir : Location} {es : Entries} {name : String}

/-- Paths start from the same places as before. -/
theorem Becomes.start {kinds : Location → Option Kind} (h : d.Becomes d' kinds) (p : Path) :
    d'.start p = d.start p :=
  start_congr h.workingDirectory p

/-- Paths lead to the same places as before. -/
theorem Becomes.placeOf {kinds : Location → Option Kind} (h : d.Becomes d' kinds) (p : Path) :
    d'.placeOf p = d.placeOf p := by
  rw [Disk.placeOf, Disk.placeOf, h.start]

/-- Nothing has changed. -/
theorem becomes_self {kinds : Location → Option Kind} (h : ∀ q, d.kindAt? q = kinds q) :
    d.Becomes d kinds :=
  ⟨rfl, id, h⟩

/-- Changes that leave the same at all places are one change. -/
theorem Becomes.congr {kinds kinds' : Location → Option Kind} (h : d.Becomes d' kinds)
    (hkinds : ∀ q, kinds q = kinds' q) : d.Becomes d' kinds' :=
  ⟨h.workingDirectory, h.namesDiffer, fun q => (h.kindAt? q).trans (hkinds q)⟩

/-- One change after another. -/
theorem Becomes.trans {d'' : Disk} {kinds kinds' : Location → Option Kind}
    (h : d.Becomes d' kinds) (h' : d'.Becomes d'' kinds') : d.Becomes d'' kinds' :=
  ⟨h'.workingDirectory.trans h.workingDirectory, fun hnames => h'.namesDiffer (h.namesDiffer hnames),
    h'.kindAt?⟩

/-- A place below another one, told by its first name below. -/
theorem isPrefix_or (dir : Location) (name : String) (q : Location) :
    (∃ rest, q = dir ++ name :: rest) ∨ ¬dir ++ [name] <+: q := by
  by_cases h : dir ++ [name] <+: q
  · obtain ⟨rest, rfl⟩ := h
    exact .inl ⟨rest, by simp⟩
  · exact .inr h

/-- A tree that is entered under a name stands below it. -/
theorem kindAt?_put (hes : d.root.find? dir = some (.directory es)) (name : String) (new : Node)
    (q : Location) :
    (d.update dir (·.put name new)).kindAt? q =
      if dir ++ [name] <+: q then new.kindAt? (q.drop (dir ++ [name]).length)
      else d.kindAt? q := by
  obtain ⟨rest, rfl⟩ | hq := isPrefix_or dir name q
  · have hsplit : dir ++ name :: rest = dir ++ [name] ++ rest := by simp
    rw [hsplit, if_pos (List.prefix_append _ _), List.drop_left, ← hsplit]
    exact Node.kindAt?_put_below hes name new rest
  · rw [if_neg hq]
    exact Node.kindAt?_put_other hes new hq

/-- A file or an empty directory that is entered where no directory stands changes that place
only. -/
theorem becomes_put_leaf (hes : d.root.find? dir = some (.directory es))
    (hplace : d.kindAt? (dir ++ [name]) ≠ some .directory) {new : Node} (hnew : new.NamesDiffer)
    (hleaf : ∀ x rest, new.kindAt? (x :: rest) = none) :
    d.Becomes (d.update dir (·.put name new)) fun q =>
      if q = dir ++ [name] then some new.kind else d.kindAt? q := by
  refine ⟨rfl, fun h => h.update dir fun _ hdir => hdir.put name hnew, fun q => ?_⟩
  rw [kindAt?_put hes]
  obtain ⟨rest, rfl⟩ | hq := isPrefix_or dir name q
  · have hsplit : dir ++ name :: rest = dir ++ [name] ++ rest := by simp
    rw [hsplit, if_pos (List.prefix_append _ _), List.drop_left]
    cases rest with
    | nil => simp
    | cons x rest =>
      -- Nothing stood below either, where no directory was.
      have hbelow : d.kindAt? (dir ++ [name] ++ x :: rest) = none := by
        by_contra hsome
        obtain ⟨k, hk⟩ := Option.ne_none_iff_exists'.mp hsome
        exact hplace (Node.kindAt?_of_append hk (List.cons_ne_nil x rest))
      rw [hleaf, if_neg (by simp), hbelow]
  · have hne : q ≠ dir ++ [name] := fun heq => hq (heq ▸ List.prefix_refl _)
    rw [if_neg hq, if_neg hne]

/-- Nothing stands below a name that is taken away. -/
theorem becomes_erase (hes : d.root.find? dir = some (.directory es)) (name : String) :
    d.Becomes (d.update dir (·.erase name)) fun q =>
      if dir ++ [name] <+: q then none else d.kindAt? q where
  workingDirectory := rfl
  namesDiffer h := h.update dir fun _ hdir => hdir.erase name
  kindAt? q := by
    obtain ⟨rest, rfl⟩ | hq := isPrefix_or dir name q
    · rw [if_pos ⟨rest, by simp⟩]
      exact Node.kindAt?_erase_below hes name rest
    · rw [if_neg hq]
      exact Node.kindAt?_erase_other hes hq

/-! ### When operations succeed -/

/-- A directory is made exactly where an entry is named and there is none. -/
theorem makeDirectory_eq_ok :
    d.makeDirectory p = .ok d' ↔ ∃ dir es name slash, d.NamesEntry p dir es name slash ∧
      Entries.get? es name = none ∧ d' = d.update dir (·.put name (.directory [])) := by
  constructor
  · intro h
    obtain ⟨⟨target, slash⟩, htarget, h⟩ := exists_of_bind_eq_ok h
    cases target with
    | root | here | above => cases h
    | entry dir es name =>
      obtain ⟨_, hname, h⟩ := exists_of_bind_eq_ok h
      split at h
      case isTrue => cases h
      case isFalse hvacant =>
        cases h
        exact ⟨dir, es, name, slash, ⟨htarget, hname⟩, by simpa using hvacant, rfl⟩
  · rintro ⟨dir, es, name, slash, hentry, hvacant, rfl⟩
    rw [makeDirectory, hentry.target]
    simp only [bind, Except.bind, hentry.accepted, hvacant]
    rfl

/-- A file is put exactly where an entry is named, without a slash behind it, and there is no
directory. -/
theorem putFile_eq_ok {content : ByteArray} :
    d.putFile p content = .ok d' ↔ ∃ dir es name, d.NamesEntry p dir es name false ∧
      (∀ inner, Entries.get? es name ≠ some (.directory inner)) ∧
      d' = d.update dir (·.put name (.file content)) := by
  constructor
  · intro h
    obtain ⟨⟨target, slash⟩, htarget, h⟩ := exists_of_bind_eq_ok h
    cases target with
    | root | here | above => cases h
    | entry dir es name =>
      cases slash with
      | true => cases h
      | false =>
        obtain ⟨_, hname, h⟩ := exists_of_bind_eq_ok h
        split at h
        case isTrue => cases h
        case isFalse hplace =>
          cases h
          exact ⟨dir, es, name, ⟨htarget, hname⟩, fun inner hinner => hplace (hinner ▸ rfl), rfl⟩
  · rintro ⟨dir, es, name, hentry, hplace, rfl⟩
    have hleaf : (Entries.get? es name).any (·.isDirectory) = false := by
      cases hget : Entries.get? es name with
      | none => rfl
      | some node =>
        cases node with
        | file content => rfl
        | directory inner => exact absurd hget (hplace inner)
    rw [putFile, hentry.target]
    simp only [bind, Except.bind, hentry.accepted, hleaf]
    rfl

/-- A directory is taken away exactly where an entry is named that is one, and what is in it may be
removed. -/
theorem removeWhere_eq_ok {mayRemove : Entries → Bool} :
    d.removeWhere p mayRemove = .ok d' ↔ ∃ dir es name slash inner,
      d.NamesEntry p dir es name slash ∧ Entries.get? es name = some (.directory inner) ∧
        mayRemove inner = true ∧ d' = d.update dir (·.erase name) := by
  constructor
  · intro h
    obtain ⟨⟨target, slash⟩, htarget, h⟩ := exists_of_bind_eq_ok h
    cases target with
    | root | here | above => cases h
    | entry dir es name =>
      obtain ⟨_, hname, h⟩ := exists_of_bind_eq_ok h
      split at h
      · cases h
      · cases h
      · next inner hinner =>
        split at h
        case isFalse => cases h
        case isTrue hmay =>
          cases h
          exact ⟨dir, es, name, slash, inner, ⟨htarget, hname⟩, hinner, hmay, rfl⟩
  · rintro ⟨dir, es, name, slash, inner, hentry, hinner, hmay, rfl⟩
    rw [removeWhere, hentry.target]
    simp only [bind, Except.bind, hentry.accepted, hinner, hmay, if_true]
    rfl

/-- What a directory is moved to is nothing, or an empty directory. -/
theorem checkReplaced_eq_ok {present : Option Node} :
    checkReplaced present = .ok () ↔ present = none ∨ present = some (.directory []) := by
  unfold checkReplaced
  split
  · simp
  · simp
  · next es =>
    cases es with
    | nil => simp
    | cons e es => simp

/-- A directory is moved exactly where both paths name entries, the first one names a directory and
the second one does not lead into it, and then it is where it is moved to already, or nothing is
there but possibly an empty directory. -/
theorem moveDirectory_eq_ok {goal : Path} :
    d.moveDirectory p goal = .ok d' ↔ ∃ dir es name slash dir' es' name' slash' inner,
      d.NamesEntry p dir es name slash ∧ d.NamesEntry goal dir' es' name' slash' ∧
        Entries.get? es name = some (.directory inner) ∧ ¬dir ++ [name] <+: dir' ∧
        (dir ++ [name] = dir' ++ [name'] ∧ d' = d ∨
          dir ++ [name] ≠ dir' ++ [name'] ∧ checkReplaced (Entries.get? es' name') = .ok () ∧
            d' = (d.update dir (·.erase name)).update dir' (·.put name' (.directory inner))) := by
  constructor
  · intro h
    obtain ⟨⟨target, slash⟩, htarget, h⟩ := exists_of_bind_eq_ok h
    obtain ⟨⟨target', slash'⟩, htarget', h⟩ := exists_of_bind_eq_ok h
    cases target with
    | root | here | above => cases h
    | entry dir es name =>
      cases target' with
      | root | here | above => cases h
      | entry dir' es' name' =>
        obtain ⟨_, hname, h⟩ := exists_of_bind_eq_ok h
        obtain ⟨_, hname', h⟩ := exists_of_bind_eq_ok h
        split at h
        · cases h
        · cases h
        · next inner hinner =>
          refine ⟨dir, es, name, slash, dir', es', name', slash', inner, ⟨htarget, hname⟩,
            ⟨htarget', hname'⟩, hinner, ?_⟩
          by_cases hinside : (dir ++ [name]).isPrefixOf dir' = true
          · simp only [hinside, if_true] at h
            cases h
          simp only [hinside, Bool.false_eq_true, if_false] at h
          refine ⟨fun hprefix => hinside (List.isPrefixOf_iff_prefix.mpr hprefix), ?_⟩
          split at h
          case isTrue hsame =>
            cases h
            exact .inl ⟨hsame, rfl⟩
          case isFalse hother =>
            obtain ⟨_, hreplaced, h⟩ := exists_of_bind_eq_ok h
            cases h
            exact .inr ⟨hother, hreplaced, rfl⟩
  · rintro ⟨dir, es, name, slash, dir', es', name', slash', inner, hentry, hentry', hinner, hinside,
      hplaced⟩
    rw [moveDirectory, hentry.target, hentry'.target]
    simp only [bind, Except.bind, hentry.accepted, hentry'.accepted, hinner,
      List.isPrefixOf_iff_prefix, hinside, if_false]
    obtain ⟨hsame, rfl⟩ | ⟨hother, hreplaced, rfl⟩ := hplaced
    · rw [if_pos hsame]
      rfl
    · simp only [hother, if_false, hreplaced]
      rfl

/-! ### What operations that succeed leave -/

/-- A directory is made where nothing stood. -/
theorem becomes_of_makeDirectory (h : d.makeDirectory p = .ok d') :
    d.kindAt? (d.destination p) = none ∧
      d.Becomes d' fun q => if q = d.destination p then some .directory else d.kindAt? q := by
  obtain ⟨dir, es, name, slash, hentry, hvacant, rfl⟩ := makeDirectory_eq_ok.mp h
  have hnone : d.kindAt? (d.destination p) = none :=
    Node.kindAt?_eq_none.mpr (hentry.find?_destination.trans hvacant)
  refine ⟨hnone, ?_⟩
  rw [hentry.destination] at hnone ⊢
  exact becomes_put_leaf hentry.find? (by simp [hnone]) (.directory [] List.nodup_nil (by simp))
    fun x rest => rfl

/-- A file is put where no directory stood. -/
theorem becomes_of_putFile {content : ByteArray} (h : d.putFile p content = .ok d') :
    d.kindAt? (d.destination p) ≠ some .directory ∧
      d.Becomes d' fun q => if q = d.destination p then some (.file content) else d.kindAt? q := by
  obtain ⟨dir, es, name, hentry, hplace, rfl⟩ := putFile_eq_ok.mp h
  have hnot : d.kindAt? (d.destination p) ≠ some .directory := by
    intro hdirectory
    obtain ⟨inner, hinner⟩ := Node.kindAt?_eq_directory.mp hdirectory
    exact hplace inner (hentry.find?_destination.symm.trans hinner)
  refine ⟨hnot, ?_⟩
  rw [hentry.destination] at hnot ⊢
  exact becomes_put_leaf hentry.find? hnot (.file content) fun x rest => rfl

/-- A directory is taken away with all that is in it, which was such as may be removed. -/
theorem becomes_of_removeWhere {mayRemove : Entries → Bool}
    (h : d.removeWhere p mayRemove = .ok d') :
    (∃ inner, d.root.find? (d.destination p) = some (.directory inner) ∧ mayRemove inner = true) ∧
      d.Becomes d' fun q => if d.destination p <+: q then none else d.kindAt? q := by
  obtain ⟨dir, es, name, slash, inner, hentry, hinner, hmay, rfl⟩ := removeWhere_eq_ok.mp h
  refine ⟨⟨inner, hentry.find?_destination.trans hinner, hmay⟩, ?_⟩
  rw [hentry.destination]
  exact becomes_erase hentry.find? name

/-- A directory that is moved to another place stands there with all that is in it, where nothing
stood or an empty directory. -/
theorem becomes_of_moveDirectory {goal : Path} (hne : d.destination p ≠ d.destination goal)
    (h : d.moveDirectory p goal = .ok d') :
    d.IsEmptyAt (d.destination goal) ∧ d.Becomes d' fun q =>
      if d.destination goal <+: q then
        d.kindAt? (d.destination p ++ q.drop (d.destination goal).length)
      else if d.destination p <+: q then none else d.kindAt? q := by
  obtain ⟨dir, es, name, slash, dir', es', name', slash', inner, hentry, hentry', hinner, hinside,
    hplaced⟩ := moveDirectory_eq_ok.mp h
  have hfind := hentry.find?_destination.trans hinner
  have hempty := hentry'.find?_destination
  rw [hentry.destination] at hne hfind ⊢
  rw [hentry'.destination] at hne hempty ⊢
  obtain ⟨hsame, -⟩ | ⟨-, hreplaced, rfl⟩ := hplaced
  · exact absurd hsame hne
  -- The directory of the goal is there still once the source is taken away.
  have herased := becomes_erase hentry.find? name
  have hthere := herased.kindAt? dir'
  rw [if_neg hinside, kindAt?_of_find? hentry'.find?] at hthere
  obtain ⟨es'', hes'', -⟩ := exists_entriesAt hthere
  refine ⟨?_, rfl, fun hroot => ?_, fun q => ?_⟩
  · rw [IsEmptyAt, kindAt?, Node.kindAt?_eq_none, hempty]
    exact checkReplaced_eq_ok.mp hreplaced
  · exact (herased.namesDiffer hroot).update _ fun _ hdir => hdir.put name' (hroot.find? hfind)
  · rw [kindAt?_put hes'' name' (.directory inner), herased.kindAt?]
    split
    · rw [kindAt?, Node.kindAt?_append, hfind, Option.bind_some]
    · rfl

end GatedCalls.Disk
