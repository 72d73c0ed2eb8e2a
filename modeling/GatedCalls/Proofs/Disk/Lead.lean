import GatedCalls.Proofs.Disk.Following

/-!
# Segments ahead of a path

A path may go on with a plain one behind segments that are not, as `../lib/out` goes on with
`lib/out`. What is done with its text comes down to the plain path then, with the same segments
ahead: its parent, its name, and the paths below it (`parent?_of_append`,
`segments_join_of_append`). The segments ahead lead to a place that is read off them (`placeAlong`),
and they are followed to it if all places on the way are directories (`Leads.follow_eq`).
-/

namespace GatedCalls.Disk

open Disk.Path (namesIn)

namespace Path

variable {p q : Path} {lead : List String}

/-! ### Texts and segments -/

/-- A segment that means nothing is passed over, if it is not the only one. -/
theorem significantFrom_cons (isAbsolute : Bool) (s : String) {ss : List String} (h : ss ≠ []) :
    significantFrom isAbsolute (s :: ss) =
      if s = "" ∨ s = "." then significantFrom isAbsolute ss else s :: ss := by
  obtain ⟨x, ss, rfl⟩ := List.exists_cons_of_ne_nil h
  rfl

/-- Empty segments are passed over. -/
theorem significantFrom_append_of_empty (isAbsolute : Bool) {blanks : List String}
    (h : ∀ s ∈ blanks, s = "") (ss : List String) :
    significantFrom isAbsolute (blanks ++ ss) = significantFrom isAbsolute ss := by
  induction blanks with
  | nil => rfl
  | cons s blanks ih =>
    obtain ⟨rfl, hblanks⟩ := List.forall_mem_cons.mp h
    by_cases hempty : blanks ++ ss = []
    · obtain ⟨rfl, rfl⟩ := List.append_eq_nil_iff.mp hempty
      rfl
    · rw [List.cons_append, significantFrom_cons isAbsolute "" hempty, if_pos (.inl rfl), ih hblanks]

/-- What lies behind a name counts as it is. -/
theorem significantFrom_append (isAbsolute : Bool) {ss : List String} (h : ∀ s ∈ ss, s ≠ ".")
    (hname : namesIn ss ≠ []) (rest : List String) :
    significantFrom isAbsolute (ss ++ rest) = ss.dropWhile (· = "") ++ rest := by
  induction ss with
  | nil => exact absurd rfl hname
  | cons s ss ih =>
    obtain ⟨hs, hss⟩ := List.forall_mem_cons.mp h
    by_cases hempty : s = ""
    · subst hempty
      rw [namesIn_cons_empty] at hname
      have hne : ss ++ rest ≠ [] := fun hnil => hname (by
        rw [(List.append_eq_nil_iff.mp hnil).1]
        rfl)
      rw [List.cons_append, significantFrom_cons isAbsolute "" hne, if_pos (.inl rfl), ih hss hname,
        List.dropWhile_cons_of_pos (by simp)]
    · rw [List.dropWhile_cons_of_neg (by simpa using hempty), List.cons_append]
      by_cases hne : ss ++ rest = []
      · obtain ⟨rfl, rfl⟩ := List.append_eq_nil_iff.mp hne
        simp [significantFrom, hempty, hs]
      · rw [significantFrom_cons isAbsolute s hne, if_neg (by simp [hempty, hs])]

/-- Only segments that mean nothing are passed over. -/
theorem exists_significantFrom (isAbsolute : Bool) (ss : List String) :
    ∃ blanks, ss = blanks ++ significantFrom isAbsolute ss ∧ ∀ s ∈ blanks, s = "" ∨ s = "." := by
  fun_induction significantFrom isAbsolute ss with
  | case1 => exact ⟨[], rfl, by simp⟩
  | case2 s hs => exact ⟨[s], by simp, by simpa using hs.imp id And.right⟩
  | case3 s hs => exact ⟨[], rfl, by simp⟩
  | case4 s rest hne hs ih =>
    obtain ⟨blanks, hrest, hblanks⟩ := ih
    exact ⟨s :: blanks, by rw [List.cons_append, ← hrest], List.forall_mem_cons.mpr ⟨hs, hblanks⟩⟩
  | case5 s rest hne hs => exact ⟨[], rfl, by simp⟩

/-- What counts does not begin with an empty segment. -/
theorem head?_significantFrom (isAbsolute : Bool) (ss : List String) :
    (significantFrom isAbsolute ss).head? ≠ some "" := by
  fun_induction significantFrom isAbsolute ss <;> simp_all

/-- The segments of a path are those of its parent and the last one that counts, with such as mean
nothing in front of that one and behind it. -/
theorem exists_segments_of_parent? {parent : Path} (h : p.parent? = some parent) :
    parent.isAbsolute = p.isAbsolute ∧ ∃ last between behind, p.significant.head? = some last ∧
      last ≠ "" ∧ p.segments = parent.segments ++ (between ++ last :: behind) ∧
      (∀ s ∈ between, s = "" ∨ s = ".") ∧ ∀ s ∈ behind, s = "" ∨ s = "." := by
  unfold parent? at h
  cases hsignificant : p.significant with
  | nil => simp [hsignificant] at h
  | cons last rest =>
    simp only [hsignificant] at h
    obtain rfl := Option.some.inj h
    have hempty : last ≠ "" := by
      have hhead := head?_significantFrom p.isAbsolute p.segments.reverse
      rw [show significantFrom _ _ = last :: rest from hsignificant] at hhead
      simpa using hhead
    obtain ⟨behind, hsegments, hbehind⟩ := exists_significantFrom p.isAbsolute p.segments.reverse
    obtain ⟨between, hrest, hbetween⟩ := exists_significantFrom p.isAbsolute rest
    rw [show significantFrom _ p.segments.reverse = last :: rest from hsignificant] at hsegments
    refine ⟨rfl, last, between.reverse, behind.reverse, rfl, hempty, ?_,
      fun s hs => hbetween s (List.mem_reverse.mp hs),
      fun s hs => hbehind s (List.mem_reverse.mp hs)⟩
    have hreverse := congrArg List.reverse hsegments
    rw [List.reverse_reverse, hrest] at hreverse
    simpa using hreverse

/-- What counts of a path that goes on with a plain path is what counts of that one, and all that is
ahead of it. -/
theorem significant_of_append (h : p.segments = lead ++ q.segments)
    (hq : q.IsPlain) (hnames : q.names ≠ []) : p.significant = q.significant ++ lead.reverse := by
  have hplain : ∀ s ∈ q.segments.reverse, s ≠ "." := fun s hs => (hq s (List.mem_reverse.mp hs)).1
  have hname : namesIn q.segments.reverse ≠ [] := by
    rw [namesIn_reverse]
    exact mt List.reverse_eq_nil_iff.mp hnames
  rw [significant, h, List.reverse_append, significantFrom_append _ hplain hname, significant,
    significantFrom_eq _ hplain]

/-- A path that goes on with a plain path names the same file or directory. -/
theorem fileName?_of_append (h : p.segments = lead ++ q.segments)
    (hq : q.IsPlain) (hnames : q.names ≠ []) : p.fileName? = q.fileName? := by
  obtain hnone | ⟨front, last, hlast⟩ := List.eq_nil_or_concat' q.names
  · exact absurd hnone hnames
  · obtain ⟨ahead, hsignificant, -⟩ := exists_significant_eq hq hlast
    rw [fileName?, significant_of_append h hq hnames, fileName?, hsignificant]
    rfl

/-- The parent of a path that goes on with a plain path of several names goes on with its parent. -/
theorem parent?_of_append (h : p.segments = lead ++ q.segments)
    (hq : q.IsPlain) {front : List String} {last : String} (hnames : q.names = front ++ [last])
    (hfront : front ≠ []) {parent : Path} (hparent : q.parent? = some parent) :
    p.parent? = some ⟨p.isAbsolute, lead ++ parent.segments⟩ := by
  obtain ⟨ahead, hsignificant, hahead, rfl⟩ := exists_significant_eq hq hnames
  have hplain : ∀ s ∈ ahead.reverse, s ≠ "." := fun s hs =>
    (hq s (hahead.subset (List.mem_reverse.mp hs))).1
  have hname : namesIn ahead.reverse ≠ [] := by
    rw [namesIn_reverse]
    exact mt List.reverse_eq_nil_iff.mp hfront
  rw [parent?, hsignificant] at hparent
  obtain rfl := Option.some.inj hparent
  rw [parent?, significant_of_append h hq (by simp [hnames]), hsignificant, List.cons_append]
  simp only [significantFrom_append _ hplain hname, significantFrom_eq _ hplain,
    List.reverse_append, List.reverse_reverse]

/-- The parent of a path that goes on with a plain path of one name is what leads there, without
segments at its end that mean nothing. -/
theorem parent?_of_append_single (h : p.segments = lead ++ q.segments)
    (hq : q.IsPlain) {last : String} (hnames : q.names = [last]) :
    p.parent? = some ⟨p.isAbsolute, (significantFrom p.isAbsolute lead.reverse).reverse⟩ := by
  obtain ⟨ahead, hsignificant, -, hnone⟩ :=
    exists_significant_eq hq (show q.names = [] ++ [last] from hnames)
  have hempty : ∀ s ∈ ahead.reverse, s = "" := fun s hs => by
    simpa using List.filter_eq_nil_iff.mp hnone s (List.mem_reverse.mp hs)
  rw [parent?, significant_of_append h hq (by simp [hnames]), hsignificant, List.cons_append]
  simp only [significantFrom_append_of_empty _ hempty]

/-- A segment is added to a path that goes on with another one as to that one. -/
theorem segments_push_of_append (h : p.segments = lead ++ q.segments)
    (hq : q.segments ≠ []) (s : String) : (p.push s).segments = lead ++ (q.push s).segments := by
  have hlast : p.segments.getLast? = q.segments.getLast? := by
    rw [h, List.getLast?_append_of_ne_nil _ hq]
  rw [push, push, hlast]
  split
  · rw [h, List.dropLast_append_of_ne_nil hq, List.append_assoc]
  · rw [h, List.append_assoc]

/-- Segments are added to a path that goes on with another one as to that one. -/
theorem segments_join_of_append (h : p.segments = lead ++ q.segments)
    (hq : q.segments ≠ []) (ss : List String) :
    (p.join ss).segments = lead ++ (q.join ss).segments := by
  induction ss generalizing p q with
  | nil => exact h
  | cons s ss ih =>
    obtain ⟨front, hsegments, -⟩ := q.segments_push s
    exact ih (segments_push_of_append h hq s) (by simp [hsegments])

/-- The file system takes what a path that it takes goes on with, if that has a name. -/
theorem checkPath_of_append (h : p.segments = lead ++ q.segments)
    (hrelative : q.isAbsolute = false) (hnames : q.names ≠ []) (hp : checkPath p = .ok ()) :
    checkPath q = .ok () := by
  have htext : q.text.toList <:+ p.text.toList := by
    rw [text, text, hrelative, h, String.toList_append, String.toList_append,
      String.toList_intercalate, String.toList_intercalate, List.map_append]
    exact (Text.intercalate_isSuffix _ (List.suffix_append _ _)).trans (List.suffix_append _ _)
  exact checkPath_of_isInfix hp htext.isInfix (text_ne_empty hnames)

end Path

variable {d d' : Disk} {place : Location} {ss : List String}

/-! ### Ways through directories -/

/-- The place one segment further. An empty segment and `.` lead nowhere else, and `..` leads up. -/
def stepAlong (place : Location) (segment : String) : Location :=
  if segment = "" ∨ segment = "." then place
  else if segment = ".." then place.dropLast
  else place ++ [segment]

/-- The place to which segments lead from a place, if they are followed. -/
def placeAlong (place : Location) (ss : List String) : Location :=
  ss.foldl stepAlong place

/-- Whether segments lead from a place through directories only, and to one. -/
structure Leads (d : Disk) (place : Location) (ss : List String) : Prop where
  /-- Each part of the way, and the whole of it, ends at a directory. -/
  directories : ∀ front, front <+: ss → d.kindAt? (placeAlong place front) = some .directory
  /-- The file system takes all names on the way. -/
  names : ∀ s ∈ ss, checkName s = .ok ()

/-- Plain segments lead down by their names. -/
theorem placeAlong_eq (place : Location) (h : ∀ s ∈ ss, s ≠ "." ∧ s ≠ "..") :
    placeAlong place ss = place ++ namesIn ss := by
  induction ss generalizing place with
  | nil => exact (List.append_nil place).symm
  | cons s ss ih =>
    obtain ⟨hs, hss⟩ := List.forall_mem_cons.mp h
    refine (ih (stepAlong place s) hss).trans ?_
    by_cases hempty : s = ""
    · rw [stepAlong, if_pos (.inl hempty), hempty, Path.namesIn_cons_empty]
    · rw [stepAlong, if_neg (by simp [hempty, hs.1]), if_neg hs.2, Path.namesIn_cons hempty,
        List.append_assoc, List.singleton_append]

/-- Segments that mean nothing lead nowhere else. -/
theorem placeAlong_of_blank (place : Location) (h : ∀ s ∈ ss, s = "" ∨ s = ".") :
    placeAlong place ss = place := by
  induction ss with
  | nil => rfl
  | cons s ss ih =>
    obtain ⟨hs, hss⟩ := List.forall_mem_cons.mp h
    rw [placeAlong, List.foldl_cons, stepAlong, if_pos hs]
    exact ih hss

/-- Segments lead on from where those ahead of them lead. -/
theorem placeAlong_append (place : Location) (ss ss' : List String) :
    placeAlong place (ss ++ ss') = placeAlong (placeAlong place ss) ss' :=
  List.foldl_append

namespace Leads

/-- The first segments lead through directories too. -/
theorem of_isPrefix {front : List String} (h : d.Leads place ss) (hfront : front <+: ss) :
    d.Leads place front :=
  ⟨fun ahead hahead => h.directories ahead (hahead.trans hfront), fun s hs =>
    h.names s (hfront.subset hs)⟩

/-- Segments lead the same way still where directories are still on it. -/
theorem congr (h : d.Leads place ss)
    (hkeep : ∀ front, front <+: ss → d.kindAt? (placeAlong place front) = some .directory →
      d'.kindAt? (placeAlong place front) = some .directory) : d'.Leads place ss :=
  ⟨fun front hfront => hkeep front hfront (h.directories front hfront), h.names⟩

/-- The segments behind the first one lead on through directories. -/
theorem of_cons {s : String} (h : d.Leads place (s :: ss)) :
    checkName s = .ok () ∧ d.Leads (stepAlong place s) ss := by
  obtain ⟨hs, hnames⟩ := List.forall_mem_cons.mp h.names
  exact ⟨hs, fun front hfront => h.directories (s :: front) (List.cons_prefix_cons.mpr ⟨rfl, hfront⟩),
    hnames⟩

/-- Segments that lead through directories are followed. -/
theorem follow_eq (h : d.Leads place ss) : d.follow place ss = .ok (placeAlong place ss) := by
  induction ss generalizing place with
  | nil => rfl
  | cons s ss ih =>
    obtain ⟨hs, hrest⟩ := h.of_cons
    have hplace : d.kindAt? place = some .directory := h.directories [] List.nil_prefix
    have hnext : d.kindAt? (stepAlong place s) = some .directory :=
      h.directories [s] (List.cons_prefix_cons.mpr ⟨rfl, List.nil_prefix⟩)
    refine Eq.trans ?_ (ih hrest)
    obtain ⟨es, hes, hentries⟩ := exists_entriesAt hplace
    unfold stepAlong at hnext ⊢
    by_cases hblank : s = "" ∨ s = "."
    · rw [follow, hentries]
      simp only [hblank, if_true]
    · by_cases hup : s = ".."
      · rw [follow, hentries]
        simp only [if_neg hblank, if_pos hup]
      · rw [if_neg hblank, if_neg hup] at hnext ⊢
        obtain ⟨hempty, hdot⟩ := not_or.mp hblank
        have hthere : d.kindAt? (place ++ [s]) ≠ none := by
          rw [hnext]
          exact Option.some_ne_none _
        rw [follow_name hplace hempty ⟨hdot, hup⟩ hs, if_neg hthere]

/-- From a directory, one more segment leads to a place from which the others lead on. -/
theorem cons {s : String} (hplace : d.kindAt? place = some .directory) (hs : checkName s = .ok ())
    (h : d.Leads (stepAlong place s) ss) : d.Leads place (s :: ss) := by
  refine ⟨fun front hfront => ?_, List.forall_mem_cons.mpr ⟨hs, h.names⟩⟩
  obtain rfl | ⟨rest, rfl, hrest⟩ := List.prefix_cons_iff.mp hfront
  · exact hplace
  · exact h.directories rest hrest

/-- Segments lead on through directories from where others have led through directories. -/
theorem append {ss' : List String} (h : d.Leads place ss) (h' : d.Leads (placeAlong place ss) ss') :
    d.Leads place (ss ++ ss') := by
  induction ss generalizing place with
  | nil => exact h'
  | cons s ss ih =>
    obtain ⟨hs, hrest⟩ := h.of_cons
    exact cons (h.directories [] List.nil_prefix) hs (ih hrest h')

/-- Empty segments lead from a directory to itself. -/
theorem of_empty (hplace : d.kindAt? place = some .directory) (h : ∀ s ∈ ss, s = "") :
    d.Leads place ss := by
  refine ⟨fun front hfront => ?_, fun s hs => h s hs ▸ rfl⟩
  rw [placeAlong_of_blank place fun s hs => .inl (h s (hfront.subset hs))]
  exact hplace

end Leads

/-- A segment is followed from a directory, and the others are followed from where it leads. -/
theorem exists_of_follow_cons {s : String} {place' : Location}
    (h : d.follow place (s :: ss) = .ok place') :
    d.kindAt? place = some .directory ∧ checkName s = .ok () ∧
      d.follow (stepAlong place s) ss = .ok place' := by
  rw [follow] at h
  rw [stepAlong]
  split at h
  case h_1 => cases h
  case h_2 es hentries =>
    refine ⟨kindAt?_of_find? (find?_of_entriesAt hentries), ?_⟩
    split at h
    case isTrue hblank =>
      rw [if_pos hblank]
      obtain rfl | rfl := hblank <;> exact ⟨rfl, h⟩
    case isFalse hblank =>
      rw [if_neg hblank]
      split at h
      case isTrue hup =>
        rw [if_pos hup]
        exact ⟨hup ▸ rfl, h⟩
      case isFalse hup =>
        rw [if_neg hup]
        split at h
        case isTrue => cases h
        case isFalse hlimit =>
          split at h
          case isTrue => cases h
          case isFalse => exact ⟨if_neg hlimit, h⟩

/-- Segments that are followed lead where they lead one by one. -/
theorem eq_placeAlong_of_follow {place' : Location} (h : d.follow place ss = .ok place') :
    place' = placeAlong place ss := by
  induction ss generalizing place with
  | nil => exact (Except.ok.inj h).symm
  | cons s ss ih => exact ih (exists_of_follow_cons h).2.2

/-- Segments that are followed to a directory lead through directories. -/
theorem leads_of_follow {place' : Location} (h : d.follow place ss = .ok place')
    (hplace : d.kindAt? place' = some .directory) : d.Leads place ss := by
  induction ss generalizing place with
  | nil =>
    obtain rfl : place = place' := Except.ok.inj h
    exact .of_empty hplace (by simp)
  | cons s ss ih =>
    obtain ⟨hdirectory, hs, hrest⟩ := exists_of_follow_cons h
    exact .cons hdirectory hs (ih hrest)

end GatedCalls.Disk
