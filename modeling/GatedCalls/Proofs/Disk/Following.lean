import GatedCalls.Proofs.Disk.Path
import GatedCalls.Proofs.Disk.Tree

/-!
# Following plain paths

A plain path that the file system takes leads from a directory to the place `placeOf`, and what
stands there decides what becomes of it. If a directory stands there, all on the way are
directories, and the path is followed to its end; if nothing does, and no file is in the way,
something is found missing. The entry that a path names is found in the same way, from the names
ahead of the last.
-/

namespace GatedCalls.Disk

open Disk.Path (namesIn)

/-- What stands at a place of a disk. -/
def kindAt? (d : Disk) (place : Location) : Option Kind :=
  d.root.kindAt? place

/-- The place to which a plain path leads. -/
def placeOf (d : Disk) (p : Path) : Location :=
  d.start p ++ p.names

/-- Whether no file stands on the way to a place, nor there. -/
def NoFileTo (d : Disk) (place : Location) : Prop :=
  ∀ q, q <+: place → ∀ content, d.kindAt? q ≠ some (.file content)

/-- Whether a path is plain, is taken by the file system and starts from a directory. -/
structure CanFollow (d : Disk) (p : Path) : Prop where
  plain : p.IsPlain
  acceptable : p.IsAcceptable
  start : d.kindAt? (d.start p) = some .directory

variable {d : Disk} {p : Path} {place : Location} {ss : List String}

/-- Whether nothing is at a place, or an empty directory. -/
def IsEmptyAt (d : Disk) (place : Location) : Prop :=
  d.kindAt? place = none ∨ d.root.find? place = some (.directory [])

/-- Paths start from the same place if a slash stands in front of both or of none. -/
theorem start_of_isAbsolute (d : Disk) {q : Path} (h : q.isAbsolute = p.isAbsolute) :
    d.start q = d.start p := by
  rw [start, start, h]

/-- A path starts from the same place where the working directory is the same. -/
theorem start_congr {d' : Disk} (h : d'.workingDirectory = d.workingDirectory) (p : Path) :
    d'.start p = d.start p := by
  rw [start, start, h]

/-- A directory stands where it is found. -/
theorem kindAt?_of_find? {es : Entries} (h : d.root.find? place = some (.directory es)) :
    d.kindAt? place = some .directory :=
  Node.kindAt?_eq_directory.mpr ⟨es, h⟩

/-- Where a directory stands, directories stand on the way to it. -/
theorem kindAt?_of_isPrefix {q : Location} (h : d.kindAt? place = some .directory)
    (hq : q <+: place) : d.kindAt? q = some .directory := by
  obtain ⟨rest, rfl⟩ := hq
  exact Node.kindAt?_directory_of_append h

/-- No file is on the way to a directory. -/
theorem noFileTo_of_directory (h : d.kindAt? place = some .directory) : d.NoFileTo place :=
  fun _ hq _ hfile => by cases (kindAt?_of_isPrefix h hq).symm.trans hfile

/-- Where no file is in the way to a place, none is in the way to the places ahead of it. -/
theorem NoFileTo.of_isPrefix {ahead : Location} (h : d.NoFileTo place) (hahead : ahead <+: place) :
    d.NoFileTo ahead :=
  fun q hq => h q (hq.trans hahead)

/-- With no file on the way, nor at the next place, none is on the way there. -/
theorem NoFileTo.concat {name : String} (h : d.NoFileTo place)
    (hname : ∀ content, d.kindAt? (place ++ [name]) ≠ some (.file content)) :
    d.NoFileTo (place ++ [name]) := by
  intro q hq content
  obtain rfl | hq := List.prefix_concat_iff.mp hq
  · exact hname content
  · exact h q hq content

/-- No file is where nothing is or an empty directory. -/
theorem IsEmptyAt.ne_file (h : d.IsEmptyAt place) (content : ByteArray) :
    d.kindAt? place ≠ some (.file content) := by
  intro hfile
  obtain hnone | hempty := h
  · cases hnone.symm.trans hfile
  · cases (kindAt?_of_find? hempty).symm.trans hfile

/-- What stands at a place and below it tells whether it is empty. -/
theorem IsEmptyAt.congr {d' : Disk} (h : d.IsEmptyAt place)
    (hkinds : ∀ rest, d'.kindAt? (place ++ rest) = d.kindAt? (place ++ rest)) :
    d'.IsEmptyAt place := by
  have hplace := hkinds []
  rw [List.append_nil] at hplace
  obtain hnone | hempty := h
  · exact .inl (hplace.trans hnone)
  · refine .inr (Node.find?_eq_empty (hplace.trans (kindAt?_of_find? hempty)) fun name => ?_)
    refine (hkinds [name]).trans ?_
    rw [kindAt?, Node.kindAt?_append, hempty]
    rfl

/-- Without files in the way something that stands there is a directory. -/
theorem NoFileTo.kindAt?_eq (h : d.NoFileTo place) :
    d.kindAt? place = none ∨ d.kindAt? place = some .directory := by
  cases hkind : d.kindAt? place with
  | none => exact .inl rfl
  | some k =>
    cases k with
    | file content => exact absurd hkind (h place (List.prefix_refl _) content)
    | directory => exact .inr rfl

/-- The place of a path with more names. -/
theorem placeOf_join (d : Disk) (p : Path) (h : ∀ s ∈ ss, s ≠ "") :
    d.placeOf (p.join ss) = d.placeOf p ++ ss := by
  rw [placeOf, placeOf, start, start, p.isAbsolute_join, p.names_join h, List.append_assoc]

/-- A directory has entries. -/
theorem exists_entriesAt (h : d.kindAt? place = some .directory) :
    ∃ es, d.root.find? place = some (.directory es) ∧ d.entriesAt place = .ok es := by
  obtain ⟨es, hes⟩ := Node.kindAt?_eq_directory.mp h
  exact ⟨es, hes, by rw [entriesAt, hes]⟩

/-- Entries are found in a directory. -/
theorem find?_of_entriesAt {es : Entries} (h : d.entriesAt place = .ok es) :
    d.root.find? place = some (.directory es) := by
  unfold entriesAt at h
  split at h <;> cases h
  assumption

/-- From a directory, an empty segment leads nowhere else. -/
theorem follow_empty (h : d.kindAt? place = some .directory) (ss : List String) :
    d.follow place ("" :: ss) = d.follow place ss := by
  obtain ⟨es, -, hentries⟩ := exists_entriesAt h
  rw [follow, hentries]
  simp

/-- From a directory, a name leads to its entry, if there is one. -/
theorem follow_name {s : String} (h : d.kindAt? place = some .directory)
    (hempty : s ≠ "") (hplain : s ≠ "." ∧ s ≠ "..") (hname : checkName s = .ok ())
    (ss : List String) :
    d.follow place (s :: ss) =
      if d.kindAt? (place ++ [s]) = none then .error .notFound
      else d.follow (place ++ [s]) ss := by
  obtain ⟨es, hes, hentries⟩ := exists_entriesAt h
  have hlimit : ¬nameLimit < s.utf8ByteSize := by
    intro hlong
    rw [checkName, if_pos hlong] at hname
    cases hname
  have hentry : (Entries.get? es s).isNone = true ↔ d.kindAt? (place ++ [s]) = none := by
    rw [← Node.find?_append_singleton hes, Option.isNone_iff_eq_none, kindAt?,
      Node.kindAt?_eq_none]
  rw [follow, hentries]
  simp only [hempty, hplain.1, hplain.2, hlimit, or_false, if_false, hentry]

/-- A path that leads to a directory is followed to it. -/
theorem follow_of_directory (hplain : ∀ s ∈ ss, s ≠ "." ∧ s ≠ "..")
    (hnames : ∀ s ∈ ss, checkName s = .ok ())
    (h : d.kindAt? (place ++ namesIn ss) = some .directory) :
    d.follow place ss = .ok (place ++ namesIn ss) := by
  -- On the segments, while the place moves down by each name.
  induction ss generalizing place with
  | nil => rw [follow]; simp [namesIn]
  | cons s ss ih =>
    obtain ⟨hs, hplain'⟩ := List.forall_mem_cons.mp hplain
    obtain ⟨hname, hnames'⟩ := List.forall_mem_cons.mp hnames
    have hplace : d.kindAt? place = some .directory := Node.kindAt?_directory_of_append h
    by_cases hempty : s = ""
    · subst hempty
      rw [Path.namesIn_cons_empty] at h ⊢
      rw [follow_empty hplace, ih hplain' hnames' h]
    · have hsplit : place ++ namesIn (s :: ss) = place ++ [s] ++ namesIn ss := by
        rw [Path.namesIn_cons hempty, List.append_assoc, List.singleton_append]
      rw [hsplit] at h ⊢
      have hnext : d.kindAt? (place ++ [s]) ≠ none := by
        rw [kindAt?, Node.kindAt?_directory_of_append h]
        exact Option.some_ne_none _
      rw [follow_name hplace hempty hs hname, if_neg hnext, ih hplain' hnames' h]

/-- A path that leads to nothing, with no file in the way, ends where something is missing. -/
theorem follow_of_missing (hplain : ∀ s ∈ ss, s ≠ "." ∧ s ≠ "..")
    (hnames : ∀ s ∈ ss, checkName s = .ok ()) (hplace : d.kindAt? place = some .directory)
    (hfree : d.NoFileTo (place ++ namesIn ss)) (h : d.kindAt? (place ++ namesIn ss) = none) :
    d.follow place ss = .error .notFound := by
  induction ss generalizing place with
  | nil =>
    rw [show namesIn [] = [] from rfl, List.append_nil, hplace] at h
    cases h
  | cons s ss ih =>
    obtain ⟨hs, hplain'⟩ := List.forall_mem_cons.mp hplain
    obtain ⟨hname, hnames'⟩ := List.forall_mem_cons.mp hnames
    by_cases hempty : s = ""
    · subst hempty
      rw [Path.namesIn_cons_empty] at h hfree
      rw [follow_empty hplace, ih hplain' hnames' hplace hfree h]
    · have hsplit : place ++ namesIn (s :: ss) = place ++ [s] ++ namesIn ss := by
        rw [Path.namesIn_cons hempty, List.append_assoc, List.singleton_append]
      rw [hsplit] at h hfree
      rw [follow_name hplace hempty hs hname]
      obtain hnone | hdirectory := (hfree.of_isPrefix (List.prefix_append _ _)).kindAt?_eq
      · rw [if_pos hnone]
      · have hthere : d.kindAt? (place ++ [s]) ≠ none := by
          rw [hdirectory]
          exact Option.some_ne_none _
        rw [if_neg hthere, ih hplain' hnames' hdirectory hfree h]

/-- Segments are followed one list after the other. -/
theorem follow_append (d : Disk) (place : Location) (ss ss' : List String) :
    d.follow place (ss ++ ss') = d.follow place ss >>= fun place' => d.follow place' ss' := by
  induction ss generalizing place with
  | nil => simp [follow]; rfl
  | cons s ss ih =>
    rw [List.cons_append, follow, follow]
    cases d.entriesAt place with
    | error fault => rfl
    | ok es =>
      simp only []
      split
      · exact ih place
      split
      · exact ih place.dropLast
      split
      · rfl
      split
      · rfl
      · exact ih (place ++ [s])

/-! ### Whole paths -/

/-- The text of the file to which a path leads is read. -/
theorem readText_of_resolve {text : String} (h : d.resolve p = .ok place)
    (hfile : d.root.find? place = some (.file text.toUTF8)) : d.readText p = .ok text := by
  have htext : String.fromUTF8? text.toUTF8 = some text := dif_pos text.isValidUTF8
  rw [readText, h]
  simp only [bind, Except.bind, hfile, htext]
  rfl

namespace CanFollow

/-- A path with more names can be followed if the file system takes it. -/
theorem join (h : d.CanFollow p) (hss : ∀ s ∈ ss, s ≠ "" ∧ s ≠ "." ∧ s ≠ "..")
    (haccept : (p.join ss).IsAcceptable) : d.CanFollow (p.join ss) where
  plain := h.plain.join fun s hs => (hss s hs).2
  acceptable := haccept
  start := by
    exact d.start_of_isAbsolute (p.isAbsolute_join ss) ▸ h.start

/-- A path that leads to a directory is resolved to its place. -/
theorem resolve_of_directory (h : d.CanFollow p)
    (hplace : d.kindAt? (d.placeOf p) = some .directory) : d.resolve p = .ok (d.placeOf p) := by
  have hfollow := follow_of_directory h.plain h.acceptable.2 hplace
  rw [resolve, h.acceptable.1]
  exact hfollow

/-- A path that leads to nothing is not resolved. -/
theorem resolve_of_missing (h : d.CanFollow p) (hfree : d.NoFileTo (d.placeOf p))
    (hplace : d.kindAt? (d.placeOf p) = none) : d.resolve p = .error .notFound := by
  have hfollow := follow_of_missing h.plain h.acceptable.2 h.start hfree hplace
  rw [resolve, h.acceptable.1]
  exact hfollow

/-- With no file in the way, a path leads to something exactly if something stands at its place. -/
theorem pathExists_eq (h : d.CanFollow p) (hfree : d.NoFileTo (d.placeOf p)) :
    d.pathExists p = (d.kindAt? (d.placeOf p)).isSome := by
  obtain hnone | hdirectory := hfree.kindAt?_eq
  · rw [pathExists, node?, h.resolve_of_missing hfree hnone, hnone]
    rfl
  · have hfound := h.resolve_of_directory hdirectory
    obtain ⟨es, hes, -⟩ := exists_entriesAt hdirectory
    rw [pathExists, node?, hfound, hdirectory]
    simp [hes]

/-- A path that leads to a directory is one of a directory. -/
theorem isDirectory_eq_true (h : d.CanFollow p)
    (hplace : d.kindAt? (d.placeOf p) = some .directory) : d.isDirectory p = true := by
  obtain ⟨es, hes, -⟩ := exists_entriesAt hplace
  rw [isDirectory, node?, h.resolve_of_directory hplace]
  simp [hes, Node.isDirectory]

/-- The entries of the directory to which a path leads are listed. -/
theorem list_eq (h : d.CanFollow p) {es : Entries}
    (hes : d.root.find? (d.placeOf p) = some (.directory es)) : d.list p = .ok es := by
  have hplace := kindAt?_of_find? hes
  rw [list, h.resolve_of_directory hplace]
  simp only [bind, Except.bind, entriesAt, hes]

/-- A path without names leads to where it starts. -/
theorem target_of_no_names (h : d.CanFollow p) (hnames : p.names = []) :
    d.target p = .ok (.root, true) := by
  rw [target, h.acceptable.1, Path.splitLast?_eq_none hnames]
  rfl

variable {front : List String} {last : String}

/-- The entry that a path names is one of the directory to which the other names lead. -/
theorem target_eq (h : d.CanFollow p) (hnames : p.names = front ++ [last]) {es : Entries}
    (hes : d.root.find? (d.start p ++ front) = some (.directory es)) :
    d.target p =
      .ok (.entry (d.start p ++ front) es last, decide (p.segments.getLast? = some "")) := by
  obtain ⟨ahead, hsplit, hahead, rfl⟩ := Path.splitLast?_eq hnames
  have hlast : last ∈ p.segments := Path.mem_segments_of_mem_names (by simp [hnames])
  have hfollow : d.follow (d.start p) ahead = .ok (d.start p ++ namesIn ahead) :=
    follow_of_directory (fun s hs => h.plain s (hahead.subset hs))
      (fun s hs => h.acceptable.2 s (hahead.subset hs)) (kindAt?_of_find? hes)
  rw [target, h.acceptable.1, hsplit]
  simp only [bind, Except.bind, hfollow, entriesAt, hes, h.plain last hlast, if_false]
  rfl

/-- Where the directory is missing, so is the entry that a path names. -/
theorem target_of_missing (h : d.CanFollow p) (hnames : p.names = front ++ [last])
    (hfree : d.NoFileTo (d.start p ++ front)) (hplace : d.kindAt? (d.start p ++ front) = none) :
    d.target p = .error .notFound := by
  obtain ⟨ahead, hsplit, hahead, rfl⟩ := Path.splitLast?_eq hnames
  have hfollow : d.follow (d.start p) ahead = .error .notFound :=
    follow_of_missing (fun s hs => h.plain s (hahead.subset hs))
      (fun s hs => h.acceptable.2 s (hahead.subset hs)) h.start hfree hplace
  rw [target, h.acceptable.1, hsplit]
  simp only [bind, Except.bind, hfollow]

/-- A path that ends in a name is followed to what stands at its place, be it a file. -/
theorem resolve_of_segments (h : d.CanFollow p) {ahead : List String}
    (hsegments : p.segments = ahead ++ [last]) (hlast : last ≠ "")
    (hplace : d.kindAt? (d.placeOf p) ≠ none) : d.resolve p = .ok (d.placeOf p) := by
  have hplaceOf : d.placeOf p = d.start p ++ namesIn ahead ++ [last] := by
    rw [placeOf, Path.names, hsegments, Path.namesIn_append, Path.namesIn_cons hlast,
      List.append_assoc]
    rfl
  obtain ⟨k, hk⟩ := Option.ne_none_iff_exists'.mp hplace
  rw [hplaceOf] at hk hplace ⊢
  have hahead : d.kindAt? (d.start p ++ namesIn ahead) = some .directory :=
    Node.kindAt?_of_append hk (List.cons_ne_nil last [])
  have hsub : ∀ s ∈ ahead, s ∈ p.segments := fun s hs => by simp [hsegments, hs]
  have hmem : last ∈ p.segments := by simp [hsegments]
  have hfollow := follow_of_directory (fun s hs => h.plain s (hsub s hs))
    (fun s hs => h.acceptable.2 s (hsub s hs)) hahead
  rw [resolve, h.acceptable.1, hsegments]
  simp only [bind, Except.bind, follow_append, hfollow]
  rw [follow_name hahead hlast (h.plain last hmem) (h.acceptable.2 last hmem), if_neg hplace,
    follow]

/-- The text of a file is read. -/
theorem readText_eq (h : d.CanFollow p) {ahead : List String}
    (hsegments : p.segments = ahead ++ [last]) (hlast : last ≠ "") {text : String}
    (hfile : d.kindAt? (d.placeOf p) = some (.file text.toUTF8)) : d.readText p = .ok text :=
  readText_of_resolve
    (h.resolve_of_segments hsegments hlast (by rw [hfile]; exact Option.some_ne_none _))
    (Node.kindAt?_eq_file.mp hfile)

end CanFollow

end GatedCalls.Disk
