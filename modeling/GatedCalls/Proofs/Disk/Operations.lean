import GatedCalls.Proofs.Disk.Effect

/-!
# Operations with plain paths

For a plain path each operation is done where its conditions hold, and they are told by what stands
at places: directories are made on the way to a place, a file is put at a place, what is below a
place is taken away, or what is below one place is below another.
-/

namespace GatedCalls.Disk

variable {d d' : Disk} {p : Path} {front : List String} {last : String} {es : Entries}

/-- A path can still be followed where it still starts from a directory. -/
theorem CanFollow.of_start {kinds : Location → Option Kind} (h : d.CanFollow p)
    (hd : d.Becomes d' kinds) (hstart : kinds (d.start p) = some .directory) : d'.CanFollow p where
  plain := h.plain
  acceptable := h.acceptable
  start := by rw [hd.start, hd.kindAt?, hstart]

/-- A path can still be followed where a directory stands at its place. -/
theorem CanFollow.of_becomes {kinds : Location → Option Kind} (h : d.CanFollow p)
    (hd : d.Becomes d' kinds) (hplace : kinds (d.placeOf p) = some .directory) :
    d'.CanFollow p := by
  have hthere : d'.kindAt? (d.placeOf p) = some .directory := by rw [hd.kindAt?, hplace]
  refine h.of_start hd ?_
  rw [← hd.kindAt?]
  exact Node.kindAt?_directory_of_append hthere

/-- The place of a path with a last name. -/
theorem placeOf_eq (d : Disk) (hnames : p.names = front ++ [last]) :
    d.placeOf p = d.start p ++ front ++ [last] := by
  rw [placeOf, hnames, List.append_assoc]

/-- What stands at the place of a path with a last name is an entry of a directory. -/
theorem exists_front (hnames : p.names = front ++ [last])
    (hplace : d.kindAt? (d.placeOf p) = some .directory) :
    ∃ es, d.root.find? (d.start p ++ front) = some (.directory es) := by
  rw [placeOf_eq d hnames] at hplace
  exact Node.kindAt?_eq_directory.mp (Node.kindAt?_directory_of_append hplace)

/-- The place of a path with a last name is not on the way to the directory of that name. -/
theorem not_placeOf_isPrefix (hnames : p.names = front ++ [last]) :
    ¬d.placeOf p <+: d.start p ++ front := by
  intro hbegin
  have hlength := hbegin.length_le
  rw [placeOf_eq d hnames, List.length_append, List.length_singleton] at hlength
  omega

namespace CanFollow

/-- Names of paths that can be followed are not too long. -/
theorem checkName_last (h : d.CanFollow p) (hnames : p.names = front ++ [last]) :
    checkName last = .ok () :=
  h.acceptable.2 last (Path.mem_segments_of_mem_names (by simp [hnames]))

/-- A path that can be followed names an entry by its last name. -/
theorem namesEntry (h : d.CanFollow p) (hnames : p.names = front ++ [last])
    (hes : d.root.find? (d.start p ++ front) = some (.directory es)) :
    d.NamesEntry p (d.start p ++ front) es last (decide (p.segments.getLast? = some "")) :=
  ⟨h.target_eq hnames hes, h.checkName_last hnames⟩

/-- The entry that a path names, as what stands at its place. -/
theorem get?_eq (hes : d.root.find? (d.start p ++ front) = some (.directory es))
    (hnames : p.names = front ++ [last]) : Entries.get? es last = d.root.find? (d.placeOf p) := by
  rw [placeOf_eq d hnames, Node.find?_append_singleton hes]

/-- A path leads to its place. -/
theorem destination_eq (h : d.CanFollow p) : d.destination p = d.placeOf p :=
  d.destination_of_isPlain h.plain

/-! ### Directories -/

/-- No directory is made where something stands. -/
theorem makeDirectory_of_present (h : d.CanFollow p) (hnames : p.names = front ++ [last])
    (hplace : d.kindAt? (d.placeOf p) = some .directory) :
    d.makeDirectory p = .error .alreadyExists := by
  obtain ⟨es, hes⟩ := exists_front hnames hplace
  obtain ⟨inner, hinner⟩ := Node.kindAt?_eq_directory.mp hplace
  have hentry : Entries.get? es last = some (.directory inner) := by rw [get?_eq hes hnames, hinner]
  rw [makeDirectory, h.target_eq hnames hes]
  simp only [bind, Except.bind, h.checkName_last hnames, hentry]
  rfl

/-- No directory is made where the one for it is missing. -/
theorem makeDirectory_of_missing (h : d.CanFollow p) (hnames : p.names = front ++ [last])
    (hfree : d.NoFileTo (d.start p ++ front)) (hplace : d.kindAt? (d.start p ++ front) = none) :
    d.makeDirectory p = .error .notFound := by
  rw [makeDirectory, h.target_of_missing hnames hfree hplace]
  rfl

end CanFollow

/-- No directory is made where it is there already. -/
theorem makeDirectories_of_present {fault : Fault} (htext : p.text ≠ "")
    (hmake : d.makeDirectory p = .error fault) (hfault : fault ≠ .notFound)
    (hthere : d.isDirectory p = true) : d.makeDirectories p = (.ok (), d) := by
  rw [makeDirectories.eq_def, if_neg htext, hmake]
  cases fault <;> first | exact absurd rfl hfault | simp only [hthere, if_true]

/-- One directory is missing. -/
theorem makeDirectories_of_ok (htext : p.text ≠ "") (hmake : d.makeDirectory p = .ok d') :
    d.makeDirectories p = (.ok (), d') := by
  rw [makeDirectories.eq_def, if_neg htext, hmake]

/-- Where the directory above is missing, it is made first. Then one more is made, or it is there
already, as with a path that leads up again. -/
theorem makeDirectories_eq_of_missing {parent : Path} {above : Disk} (htext : p.text ≠ "")
    (hmissing : d.makeDirectory p = .error .notFound) (hparent : p.parent? = some parent)
    (habove : d.makeDirectories parent = (.ok (), above)) :
    d.makeDirectories p =
      match above.makeDirectory p with
      | .ok made => (.ok (), made)
      | .error fault => (if above.isDirectory p then .ok () else .error fault, above) := by
  rw [makeDirectories.eq_def, if_neg htext, hmissing]
  simp only []
  split
  · next hnone => rw [hparent] at hnone; cases hnone
  · next q hq =>
    obtain rfl : parent = q := Option.some.inj (hparent.symm.trans hq)
    rewrite [habove]
    rfl

/-- Where the directory above is missing, it is made first, and the directory itself then. -/
theorem makeDirectories_of_notFound {parent : Path} {above : Disk} (htext : p.text ≠ "")
    (hmissing : d.makeDirectory p = .error .notFound) (hparent : p.parent? = some parent)
    (habove : d.makeDirectories parent = (.ok (), above))
    (hmake : above.makeDirectory p = .ok d') : d.makeDirectories p = (.ok (), d') := by
  rw [makeDirectories_eq_of_missing htext hmissing hparent habove, hmake]

/-- Where the directory above is missing and the directory itself is there once that is made, no
more is made. -/
theorem makeDirectories_of_parent {parent : Path} {above : Disk} {fault : Fault} (htext : p.text ≠ "")
    (hmissing : d.makeDirectory p = .error .notFound) (hparent : p.parent? = some parent)
    (habove : d.makeDirectories parent = (.ok (), above))
    (hmake : above.makeDirectory p = .error fault) (hthere : above.isDirectory p = true) :
    d.makeDirectories p = (.ok (), above) := by
  rw [makeDirectories_eq_of_missing htext hmissing hparent habove, hmake]
  simp only [hthere, if_true]

/-- One directory is made where the one for it is there and nothing stands. -/
theorem CanFollow.exists_makeDirectory (h : d.CanFollow p) (hnames : p.names = front ++ [last])
    (hfront : d.kindAt? (d.start p ++ front) = some .directory)
    (hplace : d.kindAt? (d.placeOf p) = none) :
    ∃ d', d.makeDirectory p = .ok d' ∧ d.Becomes d' fun q =>
      if q = d.placeOf p then some .directory else d.kindAt? q := by
  obtain ⟨es, hes, -⟩ := exists_entriesAt hfront
  obtain ⟨made, hmake⟩ : ∃ made, d.makeDirectory p = .ok made :=
    ⟨_, makeDirectory_eq_ok.mpr ⟨_, es, last, _, h.namesEntry hnames hes,
      (get?_eq hes hnames).trans (Node.kindAt?_eq_none.mp hplace), rfl⟩⟩
  exact ⟨made, hmake, h.destination_eq ▸ (becomes_of_makeDirectory hmake).2⟩

/-- Where a directory stands, directories stand on the way to it. -/
theorem kindAt?_eq_ite {place : Location} (h : d.kindAt? place = some .directory) (q : Location) :
    d.kindAt? q = if q <+: place then some .directory else d.kindAt? q := by
  split
  · next hq => exact kindAt?_of_isPrefix h hq
  · rfl

/-- On the way to a place under a directory are this place and what is on the way to the
directory. -/
theorem ite_prefix_concat {α : Type} (q front : Location) (last : String) (a b : α) :
    (if q = front ++ [last] then a else if q <+: front then a else b) =
      if q <+: front ++ [last] then a else b := by
  simp only [List.prefix_concat_iff, ite_or]

/-- No directory is made on the way to a path without names: it leads to where one follows it
from. -/
theorem makeDirectories_of_no_names (hplain : p.IsPlain)
    (hstart : d.kindAt? (d.start p) = some .directory)
    (haccept : p.text ≠ "" → p.IsAcceptable) (hnames : p.names = []) :
    d.makeDirectories p = (.ok (), d) ∧ d.kindAt? (d.placeOf p) = some .directory := by
  have hplace : d.kindAt? (d.placeOf p) = some .directory := by
    rw [placeOf, hnames, List.append_nil]
    exact hstart
  refine ⟨?_, hplace⟩
  by_cases htext : p.text = ""
  · rw [makeDirectories.eq_def, if_pos htext]
  · have hcan : d.CanFollow p := ⟨hplain, haccept htext, hstart⟩
    have hmake : d.makeDirectory p = .error .alreadyExists := by
      rw [makeDirectory, hcan.target_of_no_names hnames]
      rfl
    exact makeDirectories_of_present htext hmake (by simp) (hcan.isDirectory_eq_true hplace)

/-- Where the directory above is not there, it is made first, and the directory in it then. -/
theorem CanFollow.exists_makeDirectories_of_missing {parent : Path} {above : Disk}
    (hcan : d.CanFollow p) (hnames : p.names = front ++ [last]) (hparent : p.parent? = some parent)
    (hfront : d.NoFileTo (d.start p ++ front)) (habsent : d.kindAt? (d.start p ++ front) = none)
    (hnone : d.kindAt? (d.placeOf p) = none)
    (habove : d.makeDirectories parent = (.ok (), above))
    (hbecomes : d.Becomes above fun q =>
      if q <+: d.start p ++ front then some .directory else d.kindAt? q) :
    ∃ d', d.makeDirectories p = (.ok (), d') ∧ d.Becomes d' fun q =>
      if q <+: d.placeOf p then some .directory else d.kindAt? q := by
  have hcan' : above.CanFollow p := by
    refine ⟨hcan.plain, hcan.acceptable, ?_⟩
    rw [hbecomes.start, hbecomes.kindAt?, if_pos (List.prefix_append _ _)]
  have hfront' : above.kindAt? (above.start p ++ front) = some .directory := by
    rw [hbecomes.start, hbecomes.kindAt?, if_pos (List.prefix_refl _)]
  have hnone' : above.kindAt? (above.placeOf p) = none := by
    rw [hbecomes.placeOf, hbecomes.kindAt?, if_neg (not_placeOf_isPrefix hnames), hnone]
  obtain ⟨d', hmake, hbecomes'⟩ := hcan'.exists_makeDirectory hnames hfront' hnone'
  have htext : p.text ≠ "" := Path.text_ne_empty (by simp [hnames])
  refine ⟨d', makeDirectories_of_notFound htext
    (hcan.makeDirectory_of_missing hnames hfront habsent) hparent habove hmake, ?_⟩
  refine (hbecomes.trans hbecomes').congr fun q => ?_
  rw [hbecomes.placeOf, hbecomes.kindAt?, placeOf_eq d hnames]
  exact ite_prefix_concat ..

/-- With no file in the way, the directories on the way to a place are made, and nothing else
changes. -/
theorem exists_makeDirectories (hplain : p.IsPlain)
    (hstart : d.kindAt? (d.start p) = some .directory)
    (haccept : p.text ≠ "" → p.IsAcceptable) (hfree : d.NoFileTo (d.placeOf p)) :
    ∃ d', d.makeDirectories p = (.ok (), d') ∧ d.Becomes d' fun q =>
      if q <+: d.placeOf p then some .directory else d.kindAt? q := by
  -- On the names from the last one up, as the operation goes to the parent.
  induction hnames : p.names using List.reverseRecOn generalizing p with
  | nil =>
    obtain ⟨hmake, hplace⟩ := makeDirectories_of_no_names hplain hstart haccept hnames
    exact ⟨d, hmake, becomes_self (kindAt?_eq_ite hplace)⟩
  | append_singleton front last ih =>
    have htext : p.text ≠ "" := Path.text_ne_empty (by simp [hnames])
    have hcan : d.CanFollow p := ⟨hplain, haccept htext, hstart⟩
    have hplaceOf := placeOf_eq d hnames
    have hfront : d.NoFileTo (d.start p ++ front) :=
      hfree.of_isPrefix (hplaceOf ▸ List.prefix_append _ _)
    obtain hnone | hdirectory := hfree.kindAt?_eq
    · obtain habsent | hpresent := hfront.kindAt?_eq
      · obtain ⟨parent, hparent, hsame, hsegments, hparentNames⟩ := Path.parent?_eq hplain hnames
        have hstartEq := d.start_of_isAbsolute hsame
        have hparentPlace : d.placeOf parent = d.start p ++ front := by
          rw [placeOf, hstartEq, hparentNames]
        obtain ⟨above, habove, hbecomes⟩ := ih (p := parent)
          (fun s hs => hplain s (hsegments.subset hs)) (hstartEq ▸ hstart)
          (fun htext' => hcan.acceptable.of_isPrefix hsame hsegments htext')
          (hparentPlace ▸ hfront) hparentNames
        rw [hparentPlace] at hbecomes
        exact hcan.exists_makeDirectories_of_missing hnames hparent hfront habsent hnone habove hbecomes
      · obtain ⟨d', hmake, hbecomes⟩ := hcan.exists_makeDirectory hnames hpresent hnone
        refine ⟨d', makeDirectories_of_ok htext hmake, hbecomes.congr fun q => ?_⟩
        rw [hplaceOf, ← ite_prefix_concat, ← kindAt?_eq_ite hpresent q]
    · have hmake := hcan.makeDirectory_of_present hnames hdirectory
      exact ⟨d, makeDirectories_of_present htext hmake (by simp) (hcan.isDirectory_eq_true hdirectory),
        becomes_self (kindAt?_eq_ite hdirectory)⟩

/-- With no file in the way, the directories on the way below a directory are made. -/
theorem CanFollow.exists_makeDirectories_join (h : d.CanFollow p) {ss : List String}
    (hss : ∀ x ∈ ss, x ≠ "" ∧ x ≠ "." ∧ x ≠ "..") (haccept : (p.join ss).IsAcceptable)
    (hfree : d.NoFileTo (d.placeOf p ++ ss)) :
    ∃ d', d.makeDirectories (p.join ss) = (.ok (), d') ∧ d.Becomes d' fun q =>
      if q <+: d.placeOf p ++ ss then some .directory else d.kindAt? q := by
  have hcan := h.join hss haccept
  rw [← d.placeOf_join p fun x hx => (hss x hx).1] at hfree ⊢
  exact exists_makeDirectories hcan.plain hcan.start (fun _ => haccept) hfree

namespace CanFollow

/-! ### Files and removal -/

/-- A file is put where no directory stands, in the directory that is there. -/
theorem exists_putFile (h : d.CanFollow p) (hnames : p.names = front ++ [last])
    (hslash : p.segments.getLast? ≠ some "")
    (hfront : d.kindAt? (d.start p ++ front) = some .directory)
    (hplace : d.kindAt? (d.placeOf p) ≠ some .directory) (content : ByteArray) :
    ∃ d', d.putFile p content = .ok d' ∧ d.Becomes d' fun q =>
      if q = d.placeOf p then some (.file content) else d.kindAt? q := by
  obtain ⟨es, hes, -⟩ := exists_entriesAt hfront
  have hentry := h.namesEntry hnames hes
  rw [decide_eq_false hslash] at hentry
  obtain ⟨written, hput⟩ : ∃ written, d.putFile p content = .ok written :=
    ⟨_, putFile_eq_ok.mpr ⟨_, es, last, hentry, fun inner hinner =>
      hplace (kindAt?_of_find? ((get?_eq hes hnames).symm.trans hinner)), rfl⟩⟩
  exact ⟨written, hput, h.destination_eq ▸ (becomes_of_putFile hput).2⟩

/-- A file is put below a directory, where the directories on the way are there. -/
theorem exists_putFile_join (h : d.CanFollow p) {ss : List String} {s : String}
    (hss : ∀ x ∈ ss ++ [s], x ≠ "" ∧ x ≠ "." ∧ x ≠ "..")
    (haccept : (p.join (ss ++ [s])).IsAcceptable)
    (hway : d.kindAt? (d.placeOf p ++ ss) = some .directory)
    (hplace : d.kindAt? (d.placeOf p ++ (ss ++ [s])) ≠ some .directory) (content : ByteArray) :
    ∃ d', d.putFile (p.join (ss ++ [s])) content = .ok d' ∧ d.Becomes d' fun q =>
      if q = d.placeOf p ++ (ss ++ [s]) then some (.file content) else d.kindAt? q := by
  have hne : ∀ x ∈ ss ++ [s], x ≠ "" := fun x hx => (hss x hx).1
  have hstart := d.start_of_isAbsolute (p.isAbsolute_join (ss ++ [s]))
  have hnames : (p.join (ss ++ [s])).names = p.names ++ ss ++ [s] := by
    rw [p.names_join hne, List.append_assoc]
  have hslash : (p.join (ss ++ [s])).segments.getLast? ≠ some "" := by
    obtain ⟨ahead, hsegments⟩ := p.exists_segments_join ss s
    simpa [hsegments] using hne s (by simp)
  have hfront : d.kindAt? (d.start (p.join (ss ++ [s])) ++ (p.names ++ ss)) = some .directory := by
    rw [hstart, ← List.append_assoc]
    exact hway
  rw [← d.placeOf_join p hne] at hplace ⊢
  exact (h.join hss haccept).exists_putFile hnames hslash hfront hplace content

/-- A directory is taken away with all that is in it, if that is allowed. -/
theorem exists_removeWhere (h : d.CanFollow p) (hnames : p.names = front ++ [last])
    {inner : Entries} (hinner : d.root.find? (d.placeOf p) = some (.directory inner))
    {mayRemove : Entries → Bool} (hmay : mayRemove inner = true) :
    ∃ d', d.removeWhere p mayRemove = .ok d' ∧ d.Becomes d' fun q =>
      if d.placeOf p <+: q then none else d.kindAt? q := by
  obtain ⟨es, hes⟩ := exists_front hnames (kindAt?_of_find? hinner)
  obtain ⟨removed, hremove⟩ : ∃ removed, d.removeWhere p mayRemove = .ok removed :=
    ⟨_, removeWhere_eq_ok.mpr ⟨_, es, last, _, inner, h.namesEntry hnames hes,
      (get?_eq hes hnames).trans hinner, hmay, rfl⟩⟩
  exact ⟨removed, hremove, h.destination_eq ▸ (becomes_of_removeWhere hremove).2⟩

/-- A directory is taken away with all that is in it. -/
theorem exists_removeTree (h : d.CanFollow p) (hnames : p.names = front ++ [last])
    (hplace : d.kindAt? (d.placeOf p) = some .directory) :
    ∃ d', d.removeTree p = .ok d' ∧ d.Becomes d' fun q =>
      if d.placeOf p <+: q then none else d.kindAt? q := by
  obtain ⟨inner, hinner, -⟩ := exists_entriesAt hplace
  exact h.exists_removeWhere hnames hinner rfl

/-- An empty directory is taken away. -/
theorem exists_removeDirectory (h : d.CanFollow p) (hnames : p.names = front ++ [last])
    (hempty : d.root.find? (d.placeOf p) = some (.directory [])) :
    ∃ d', d.removeDirectory p = .ok d' ∧ d.Becomes d' fun q =>
      if d.placeOf p <+: q then none else d.kindAt? q :=
  h.exists_removeWhere hnames hempty rfl

/-- A directory is moved with all that is in it to where nothing stands, but not into itself. -/
theorem exists_moveDirectory {goal : Path} {front' : List String} {last' : String}
    (h : d.CanFollow p) (hnames : p.names = front ++ [last])
    (hplace : d.kindAt? (d.placeOf p) = some .directory) (hgoal : d.CanFollow goal)
    (hnames' : goal.names = front' ++ [last'])
    (hfront' : d.kindAt? (d.start goal ++ front') = some .directory)
    (hvacant : d.kindAt? (d.placeOf goal) = none)
    (houtside : ¬d.placeOf p <+: d.start goal ++ front') :
    ∃ d', d.moveDirectory p goal = .ok d' ∧ d.Becomes d' fun q =>
      if d.placeOf goal <+: q then d.kindAt? (d.placeOf p ++ q.drop (d.placeOf goal).length)
      else if d.placeOf p <+: q then none else d.kindAt? q := by
  obtain ⟨inner, hinner⟩ := Node.kindAt?_eq_directory.mp hplace
  obtain ⟨es, hes⟩ := exists_front hnames hplace
  obtain ⟨es', hes', -⟩ := exists_entriesAt hfront'
  have hne : d.placeOf p ≠ d.placeOf goal := fun heq => by
    rw [heq, hvacant] at hplace
    cases hplace
  have hnone : Entries.get? es' last' = none :=
    (get?_eq hes' hnames').trans (Node.kindAt?_eq_none.mp hvacant)
  obtain ⟨moved, hmove⟩ : ∃ moved, d.moveDirectory p goal = .ok moved :=
    ⟨_, moveDirectory_eq_ok.mpr ⟨_, es, last, _, _, es', last', _, inner,
      h.namesEntry hnames hes, hgoal.namesEntry hnames' hes', (get?_eq hes hnames).trans hinner,
      placeOf_eq d hnames ▸ houtside, .inr ⟨by rwa [← placeOf_eq d hnames, ← placeOf_eq d hnames'],
        checkReplaced_eq_ok.mpr (.inl hnone), rfl⟩⟩⟩
  have hbecomes := becomes_of_moveDirectory (by rwa [h.destination_eq, hgoal.destination_eq]) hmove
  rw [h.destination_eq, hgoal.destination_eq] at hbecomes
  exact ⟨moved, hmove, hbecomes.2⟩

end CanFollow

end GatedCalls.Disk
