import GatedCalls.Proofs.Disk.Lead
import Mathlib.Data.List.Induction

/-!
# Where paths lead

The segments of a path lead one by one to a place, its `destination`, plain or not. A path that
names an entry leads to that name in the directory of the entry (`destination_of_target`), a parent
and a path with more segments lead as far less or more, and the places in between are those on the
way (`IsOnWay`).
-/

namespace GatedCalls.Disk

variable {d d' : Disk} {p : Path} {dir : Location} {es : Entries} {name : String}

/-! ### Steps that succeed -/

/-- Where two steps succeed, the first one does, and then the second one. -/
theorem exists_of_bind_eq_ok {α β : Type} {x : Except Fault α} {f : α → Except Fault β} {b : β}
    (h : x >>= f = .ok b) : ∃ a, x = .ok a ∧ f a = .ok b := by
  cases x with
  | error fault => cases h
  | ok a => exact ⟨a, rfl, h⟩

/-- Where a step with its result changed succeeds, the step does. -/
theorem exists_of_map_eq_ok {α β : Type} {x : Except Fault α} {f : α → β} {b : β}
    (h : x.map f = .ok b) : ∃ a, x = .ok a ∧ f a = b := by
  cases x with
  | error fault => cases h
  | ok a => exact ⟨a, rfl, Except.ok.inj h⟩

/-! ### Where paths lead -/

/-- The place to which a path leads, if it is followed. -/
def destination (d : Disk) (p : Path) : Location :=
  placeAlong (d.start p) p.segments

/-- A path leads to the same place where the working directory is the same. -/
theorem destination_congr (h : d'.workingDirectory = d.workingDirectory) (p : Path) :
    d'.destination p = d.destination p := by
  rw [destination, destination, start_congr h]

/-- A plain path leads to the place that its names tell. -/
theorem destination_of_isPlain (d : Disk) (hplain : p.IsPlain) : d.destination p = d.placeOf p :=
  placeAlong_eq _ hplain

/-- A path with one more segment leads one step further. -/
theorem placeAlong_push (place : Location) (p : Path) (s : String) :
    placeAlong place (p.push s).segments = stepAlong (placeAlong place p.segments) s := by
  unfold Path.push
  split
  case isTrue hslash =>
    -- The empty segment at the end has led nowhere.
    obtain ⟨front, hsegments⟩ := List.getLast?_eq_some_iff.mp hslash
    rw [hsegments, List.dropLast_concat, placeAlong_append, placeAlong_append]
    rfl
  case isFalse =>
    rw [placeAlong_append]
    rfl

/-- A path with one more segment leads one step further from where the path leads. -/
theorem destination_push (d : Disk) (p : Path) (s : String) :
    d.destination (p.push s) = stepAlong (d.destination p) s := by
  rw [destination, d.start_of_isAbsolute (p.isAbsolute_push s), placeAlong_push]
  rfl

/-- A path with more segments leads on along them. -/
theorem placeAlong_join (place : Location) (p : Path) (ss : List String) :
    placeAlong place (p.join ss).segments = placeAlong (placeAlong place p.segments) ss := by
  induction ss generalizing p with
  | nil => rfl
  | cons s ss ih =>
    refine (ih (p.push s)).trans ?_
    rw [placeAlong_push]
    rfl

/-- A path with more segments leads on from where the path leads. -/
theorem destination_join (d : Disk) (p : Path) (ss : List String) :
    d.destination (p.join ss) = placeAlong (d.destination p) ss := by
  rw [destination, d.start_of_isAbsolute (p.isAbsolute_join ss), placeAlong_join]
  rfl

/-- A path that names a file or a directory leads to that name, in the directory to which its parent
leads. -/
theorem destination_of_fileName? {parent : Path} (d : Disk) (hname : p.fileName? = some name)
    (hparent : p.parent? = some parent) : d.destination p = d.destination parent ++ [name] := by
  obtain ⟨habsolute, last, between, behind, hlast, hempty, hsegments, hbetween, hbehind⟩ :=
    Path.exists_segments_of_parent? hparent
  obtain ⟨rest, hsignificant⟩ := List.head?_eq_some_iff.mp hlast
  unfold Path.fileName? at hname
  simp only [hsignificant] at hname
  split at hname
  case isTrue => cases hname
  case isFalse hplain =>
    obtain rfl := Option.some.inj hname
    obtain ⟨hdot, hup⟩ := not_or.mp hplain
    -- What is passed over, behind the name and in front of it, leads nowhere.
    rw [destination, hsegments, placeAlong_append, placeAlong_append, ← List.singleton_append,
      placeAlong_append, placeAlong_of_blank _ hbetween, placeAlong_of_blank _ hbehind]
    simp [placeAlong, stepAlong, hempty, hdot, hup, destination, start, habsolute]

/-! ### What paths name -/

/-- The last segment that is divided off is not empty, and behind it stand only empty ones. -/
theorem exists_of_splitLast? {ss front : List String} {last : String} {slash : Bool}
    (h : splitLast? ss = some (front, last, slash)) :
    last ≠ "" ∧ ∃ blanks, ss = front ++ last :: blanks ∧ ∀ s ∈ blanks, s = "" := by
  unfold splitLast? at h
  split at h
  · cases h
  · next last' ahead hdrop =>
    cases h
    have hsplit := List.takeWhile_append_dropWhile (p := (· = "")) (l := ss.reverse)
    rw [hdrop] at hsplit
    refine ⟨?_, (ss.reverse.takeWhile (· = "")).reverse, ?_, fun s hs => ?_⟩
    · have hhead := List.head?_dropWhile_not (· = "") ss.reverse
      simpa [hdrop] using hhead
    · have hreverse := congrArg List.reverse hsplit
      simpa using hreverse.symm
    · simpa using List.mem_takeWhile_imp (List.mem_reverse.mp hs)

/-- The entry that a path names is named by its last segment that is not empty, in the directory to
which the segments in front of it lead. -/
theorem exists_of_target {slash : Bool} (h : d.target p = .ok (.entry dir es name, slash)) :
    checkPath p = .ok () ∧ d.root.find? dir = some (.directory es) ∧
      ∃ front blanks, p.segments = front ++ name :: blanks ∧ (∀ s ∈ blanks, s = "") ∧
        (name ≠ "" ∧ name ≠ "." ∧ name ≠ "..") ∧ d.Leads (d.start p) front ∧
        dir = placeAlong (d.start p) front := by
  obtain ⟨⟨⟩, hpath, h⟩ := exists_of_bind_eq_ok h
  split at h
  · cases h
  · next front last slash' hsplit =>
    obtain ⟨dir', hfollow, h⟩ := exists_of_bind_eq_ok h
    obtain ⟨es', hentries, h⟩ := exists_of_bind_eq_ok h
    split at h
    · cases h
    · next hdot =>
      split at h
      · cases h
      · next hup =>
        cases h
        have hes := find?_of_entriesAt hentries
        obtain ⟨hname, blanks, hsegments, hblanks⟩ := exists_of_splitLast? hsplit
        exact ⟨hpath, hes, front, blanks, hsegments, hblanks, ⟨hname, hdot, hup⟩,
          leads_of_follow hfollow (kindAt?_of_find? hes), eq_placeAlong_of_follow hfollow⟩

/-- The entry that a path names is where the path leads. -/
theorem destination_of_target {slash : Bool} (h : d.target p = .ok (.entry dir es name, slash)) :
    d.destination p = dir ++ [name] := by
  obtain ⟨-, -, front, blanks, hsegments, hblanks, ⟨hname, hdot, hup⟩, -, rfl⟩ := exists_of_target h
  rw [destination, hsegments, ← List.singleton_append, placeAlong_append, placeAlong_append,
    placeAlong_of_blank _ fun s hs => .inl (hblanks s hs)]
  simp [placeAlong, stepAlong, hname, hdot, hup]

/-- Whether a path names an entry of the directory at a place, by a name that the file system takes,
and whether a slash stands behind it. -/
structure NamesEntry (d : Disk) (p : Path) (dir : Location) (es : Entries) (name : String)
    (slash : Bool) : Prop where
  /-- The path leads to the directory at `dir`, which has the entries `es`, and ends with the name. -/
  target : d.target p = .ok (.entry dir es name, slash)
  /-- The file system takes the name. -/
  accepted : checkName name = .ok ()

namespace NamesEntry

variable {slash : Bool} (h : d.NamesEntry p dir es name slash)

include h

/-- The file system takes a path that names an entry. -/
theorem checkPath_eq : checkPath p = .ok () :=
  (exists_of_target h.target).1

/-- The entries are found in the directory. -/
theorem find? : d.root.find? dir = some (.directory es) :=
  (exists_of_target h.target).2.1

/-- The entry is where the path leads. -/
theorem destination : d.destination p = dir ++ [name] :=
  destination_of_target h.target

/-- What stands where the path leads is what is entered. -/
theorem find?_destination : d.root.find? (d.destination p) = Entries.get? es name := by
  rw [h.destination, Node.find?_append_singleton h.find?]

end NamesEntry

/-- What a path names whose last segment that is not empty is divided off, where the segments in
front of it lead through directories. -/
theorem target_eq_of_leads {front : List String} {last : String} {slash : Bool}
    (hpath : checkPath p = .ok ()) (hsplit : splitLast? p.segments = some (front, last, slash))
    (h : d.Leads (d.start p) front)
    (hes : d.root.find? (placeAlong (d.start p) front) = some (.directory es)) :
    d.target p = .ok
      (if last = "." then .here else if last = ".." then .above
        else .entry (placeAlong (d.start p) front) es last, slash) := by
  have hentries : d.entriesAt (placeAlong (d.start p) front) = .ok es := by rw [entriesAt, hes]
  rw [target, hpath, hsplit]
  simp only [bind, Except.bind, h.follow_eq, hentries]
  split
  · rfl
  · split <;> rfl

/-- A name on a way through directories is that of an entry that is one. -/
theorem Leads.exists_entry {place : Location} {front rest : List String}
    (h : d.Leads place (front ++ name :: rest)) (hname : name ≠ "" ∧ name ≠ "." ∧ name ≠ "..") :
    checkName name = .ok () ∧ ∃ es inner,
      d.root.find? (placeAlong place front) = some (.directory es) ∧
        Entries.get? es name = some (.directory inner) := by
  obtain ⟨hempty, hdot, hup⟩ := hname
  have hplace := h.directories front (List.prefix_append _ _)
  have hthere : d.kindAt? (placeAlong place front ++ [name]) = some .directory := by
    have hnext := h.directories (front ++ [name]) ⟨rest, by simp⟩
    rw [placeAlong_append] at hnext
    simpa [placeAlong, stepAlong, hempty, hdot, hup] using hnext
  obtain ⟨es, hes⟩ := Node.kindAt?_eq_directory.mp hplace
  obtain ⟨inner, hinner⟩ := Node.kindAt?_eq_directory.mp hthere
  exact ⟨h.names name (by simp), es, inner, hes,
    (Node.find?_append_singleton hes name).symm.trans hinner⟩

/-! ### Paths of directories -/

/-- The paths of directories are those that the file system takes and that lead through
directories. -/
theorem isDirectory_iff :
    d.isDirectory p = true ↔ checkPath p = .ok () ∧ d.Leads (d.start p) p.segments := by
  unfold isDirectory node?
  constructor
  · intro h
    cases hresolve : d.resolve p with
    | error fault => simp [hresolve] at h
    | ok place =>
      obtain ⟨⟨⟩, hpath, hfollow⟩ := exists_of_bind_eq_ok hresolve
      simp only [hresolve, Option.any_eq_true] at h
      obtain ⟨node, hnode, hdirectory⟩ := h
      refine ⟨hpath, leads_of_follow hfollow ?_⟩
      cases node with
      | file content => cases hdirectory
      | directory es => exact kindAt?_of_find? hnode
  · rintro ⟨hpath, hleads⟩
    have hplace := hleads.directories p.segments (List.prefix_refl _)
    obtain ⟨es, hes⟩ := Node.kindAt?_eq_directory.mp hplace
    have hresolve : d.resolve p = .ok (placeAlong (d.start p) p.segments) := by
      rw [resolve, hpath]
      exact hleads.follow_eq
    simp [hresolve, hes, Node.isDirectory]

/-- A fault is passed over only if a directory is there. -/
theorem isDirectory_of_ite {fault : Fault}
    (h : (if d.isDirectory p = true then .ok () else .error fault : Except Fault Unit) = .ok ()) :
    d.isDirectory p = true := by
  by_contra hnot
  rw [if_neg hnot] at h
  cases h

/-! ### The way along a path -/

/-- Whether a place is on the way along a path, or where it leads. -/
def IsOnWay (d : Disk) (p : Path) (q : Location) : Prop :=
  ∃ front, front <+: p.segments ∧ q = placeAlong (d.start p) front

/-- A path leads to the last place on its way. -/
theorem isOnWay_destination (d : Disk) (p : Path) : d.IsOnWay p (d.destination p) :=
  ⟨p.segments, List.prefix_refl _, rfl⟩

/-- The way along a path stays where the working directory does. -/
theorem IsOnWay.congr {q : Location} (h : d.IsOnWay p q)
    (hstart : d'.workingDirectory = d.workingDirectory) : d'.IsOnWay p q := by
  obtain ⟨front, hfront, rfl⟩ := h
  exact ⟨front, hfront, by rw [start_congr hstart]⟩

/-- The way along a parent is the beginning of the way along a path. -/
theorem IsOnWay.of_parent {parent : Path} {q : Location} (h : d.IsOnWay parent q)
    (hparent : p.parent? = some parent) : d.IsOnWay p q := by
  obtain ⟨front, hfront, rfl⟩ := h
  obtain ⟨habsolute, last, between, behind, -, -, hsegments, -⟩ :=
    Path.exists_segments_of_parent? hparent
  exact ⟨front, hsegments ▸ hfront.trans (List.prefix_append _ _),
    by rw [d.start_of_isAbsolute habsolute]⟩

/-- The way along a path with one more segment goes one step further. -/
theorem IsOnWay.of_push {s : String} {q : Location} (h : d.IsOnWay (p.push s) q) :
    d.IsOnWay p q ∨ q = stepAlong (d.destination p) s := by
  obtain ⟨front, hfront, rfl⟩ := h
  have hstart := d.start_of_isAbsolute (p.isAbsolute_push s)
  obtain ⟨ahead, hsegments, hahead, -⟩ := p.segments_push s
  rw [hstart]
  obtain rfl | hbefore := List.prefix_concat_iff.mp (hsegments ▸ hfront)
  · exact .inr (by rw [← hsegments, ← destination_push, destination, hstart])
  · exact .inl ⟨front, hbefore.trans hahead, rfl⟩

/-- The way along a path with more names leads on below where the path leads. -/
theorem IsOnWay.of_join {ss : List String} {q : Location} (h : d.IsOnWay (p.join ss) q)
    (hss : ∀ s ∈ ss, s ≠ "" ∧ s ≠ "." ∧ s ≠ "..") : d.IsOnWay p q ∨ d.destination p <+: q := by
  induction ss using List.reverseRecOn with
  | nil => exact .inl h
  | append_singleton ss s ih =>
    rw [Path.join_append] at h
    have hss' : ∀ x ∈ ss, x ≠ "" ∧ x ≠ "." ∧ x ≠ ".." := fun x hx =>
      hss x (List.mem_append_left _ hx)
    obtain h | rfl := h.of_push
    · exact ih h hss'
    · obtain ⟨hempty, hdot, hup⟩ := hss s (by simp)
      rw [destination_join, placeAlong_eq _ fun x hx => (hss' x hx).2, stepAlong,
        if_neg (not_or.mpr ⟨hempty, hdot⟩), if_neg hup, List.append_assoc]
      exact .inr (List.prefix_append _ _)

end GatedCalls.Disk
