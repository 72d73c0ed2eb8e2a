import GatedCalls.Disk.Basic
import GatedCalls.Proofs.Text.Split
import Mathlib.Data.List.Basic
import Mathlib.Data.List.TakeWhile

/-!
# Paths of names

A path is plain if none of its segments is `.` or `..`; then it leads down by its segments that are
not empty, its names. For plain paths, taking the parent, adding a segment and dividing off the last
segment come down to taking the last name off or adding one (`parent?_eq`, `names_push`,
`splitLast?_eq`), wherever there are slashes too many. A path that the file system accepts has
only acceptable paths ahead of it (`IsAcceptable.of_isPrefix`).
-/

namespace GatedCalls.Disk

namespace Path

/-- The names among segments: those that are not empty. -/
def namesIn (segments : List String) : List String :=
  segments.filter (· ≠ "")

/-- The names on the way along a path. -/
def names (p : Path) : List String :=
  namesIn p.segments

/-- Whether a path leads down only: no segment is `.` or `..`. -/
def IsPlain (p : Path) : Prop :=
  ∀ s ∈ p.segments, s ≠ "." ∧ s ≠ ".."

instance (p : Path) : Decidable p.IsPlain :=
  inferInstanceAs (Decidable (∀ s ∈ p.segments, s ≠ "." ∧ s ≠ ".."))

/-- Whether the file system takes a path: its text can be that of a path, and no segment is too
long. -/
def IsAcceptable (p : Path) : Prop :=
  checkPath p = .ok () ∧ ∀ s ∈ p.segments, checkName s = .ok ()

/-- Empty segments are no names. -/
@[simp] theorem namesIn_cons_empty (ss : List String) : namesIn ("" :: ss) = namesIn ss := by
  simp [namesIn]

/-- A segment that is not empty is a name. -/
theorem namesIn_cons {s : String} (h : s ≠ "") (ss : List String) :
    namesIn (s :: ss) = s :: namesIn ss := by
  simp [namesIn, h]

/-- The names in two lists of segments, one after the other. -/
theorem namesIn_append (ss ss' : List String) :
    namesIn (ss ++ ss') = namesIn ss ++ namesIn ss' :=
  List.filter_append ..

/-- The names of reversed segments. -/
theorem namesIn_reverse (ss : List String) : namesIn ss.reverse = (namesIn ss).reverse :=
  List.filter_reverse ..

/-- No name is empty. -/
theorem ne_empty_of_mem_names {p : Path} {s : String} (h : s ∈ p.names) : s ≠ "" := by
  simpa using (List.mem_filter.mp h).2

/-- Names are segments. -/
theorem mem_segments_of_mem_names {p : Path} {s : String} (h : s ∈ p.names) : s ∈ p.segments :=
  (List.mem_filter.mp h).1

/-! ### Adding segments -/

/-- A segment is added behind the segments that are kept, and these have the same names. -/
theorem segments_push (p : Path) (s : String) :
    ∃ front, (p.push s).segments = front ++ [s] ∧ front <+: p.segments ∧ namesIn front = p.names := by
  unfold push
  split
  · next hlast =>
    -- The empty segment at the end gives way.
    have hsegments : p.segments.dropLast ++ [""] = p.segments :=
      List.dropLast_append_getLast? "" hlast
    refine ⟨p.segments.dropLast, rfl, List.dropLast_prefix _, ?_⟩
    rw [names, ← hsegments, namesIn_append, namesIn_cons_empty]
    simp [namesIn]
  · exact ⟨p.segments, rfl, List.prefix_refl _, rfl⟩

/-- Adding a segment keeps where a path starts. -/
@[simp] theorem isAbsolute_push (p : Path) (s : String) :
    (p.push s).isAbsolute = p.isAbsolute := by
  unfold push
  split <;> rfl

/-- Adding a name. -/
theorem names_push (p : Path) {s : String} (h : s ≠ "") : (p.push s).names = p.names ++ [s] := by
  obtain ⟨front, hsegments, -, hnames⟩ := p.segments_push s
  rw [names, hsegments, namesIn_append, hnames, namesIn_cons h]
  rfl

/-- A plain path stays plain with one more name. -/
theorem IsPlain.push {p : Path} (hp : p.IsPlain) {s : String} (h : s ≠ "." ∧ s ≠ "..") :
    (p.push s).IsPlain := by
  obtain ⟨front, hsegments, hfront, -⟩ := p.segments_push s
  intro x hx
  rw [hsegments] at hx
  obtain hx | hx := List.mem_append.mp hx
  · exact hp x (hfront.subset hx)
  · exact List.mem_singleton.mp hx ▸ h

/-- Adding segments one after another. -/
theorem join_append (p : Path) (ss ss' : List String) :
    p.join (ss ++ ss') = (p.join ss).join ss' :=
  List.foldl_append

/-- Adding segments keeps where a path starts. -/
@[simp] theorem isAbsolute_join (p : Path) (ss : List String) :
    (p.join ss).isAbsolute = p.isAbsolute := by
  induction ss generalizing p with
  | nil => rfl
  | cons s ss ih => exact (ih (p.push s)).trans (p.isAbsolute_push s)

/-- Adding names. -/
theorem names_join (p : Path) {ss : List String} (h : ∀ s ∈ ss, s ≠ "") :
    (p.join ss).names = p.names ++ ss := by
  induction ss generalizing p with
  | nil => exact (List.append_nil _).symm
  | cons s ss ih =>
    obtain ⟨hs, hss⟩ := List.forall_mem_cons.mp h
    calc ((p.push s).join ss).names
        = (p.push s).names ++ ss := ih (p.push s) hss
      _ = p.names ++ s :: ss := by rw [p.names_push hs, List.append_assoc, List.singleton_append]

/-- Names are added behind all segments, if no slash stands at the end. -/
theorem segments_isPrefix_join {p : Path} (hslash : p.segments.getLast? ≠ some "")
    {ss : List String} (h : ∀ s ∈ ss, s ≠ "") : p.segments <+: (p.join ss).segments := by
  induction ss generalizing p with
  | nil => exact List.prefix_refl _
  | cons s ss ih =>
    obtain ⟨hs, hss⟩ := List.forall_mem_cons.mp h
    have hsegments : (p.push s).segments = p.segments ++ [s] := by rw [push, if_neg hslash]
    have hlast : (p.push s).segments.getLast? ≠ some "" := by simpa [hsegments] using hs
    exact (hsegments ▸ List.prefix_append p.segments [s]).trans (ih hlast hss)

/-- The last of the segments that are added is the last one. -/
theorem exists_segments_join (p : Path) (front : List String) (s : String) :
    ∃ ahead, (p.join (front ++ [s])).segments = ahead ++ [s] := by
  obtain ⟨ahead, hsegments, -⟩ := (p.join front).segments_push s
  exact ⟨ahead, by rw [join_append]; exact hsegments⟩

/-- The segments of a path with more of them are those that it had and those that are added. -/
theorem mem_segments_join {p : Path} {ss : List String} {s : String}
    (h : s ∈ (p.join ss).segments) : s ∈ p.segments ∨ s ∈ ss := by
  induction ss generalizing p with
  | nil => exact .inl h
  | cons x ss ih =>
    obtain ⟨front, hsegments, hfront, -⟩ := p.segments_push x
    obtain h | h := ih h
    · rw [hsegments, List.mem_append, List.mem_singleton] at h
      obtain h | rfl := h
      · exact .inl (hfront.subset h)
      · exact .inr List.mem_cons_self
    · exact .inr (List.mem_cons_of_mem x h)

/-- A plain path stays plain with more names. -/
theorem IsPlain.join {p : Path} (hp : p.IsPlain) {ss : List String}
    (h : ∀ s ∈ ss, s ≠ "." ∧ s ≠ "..") : (p.join ss).IsPlain := by
  induction ss generalizing p with
  | nil => exact hp
  | cons s ss ih =>
    obtain ⟨hs, hss⟩ := List.forall_mem_cons.mp h
    exact ih (hp.push hs) hss

/-! ### The last name -/

/-- Behind the empty segments at the end stands the last name, and ahead of it the others. -/
theorem exists_dropWhile_eq_cons {ss : List String} {front : List String} {last : String}
    (h : namesIn ss = front ++ [last]) :
    ∃ ahead, ss.reverse.dropWhile (· = "") = last :: ahead.reverse ∧ ahead <+: ss ∧
      namesIn ahead = front := by
  induction hr : ss.reverse generalizing ss with
  | nil =>
    rw [List.reverse_eq_nil_iff.mp hr] at h
    simp [namesIn] at h
  | cons s r ih =>
    have hss : ss = r.reverse ++ [s] := by rw [← List.reverse_reverse ss, hr, List.reverse_cons]
    rw [hss, namesIn_append] at h
    by_cases hs : s = ""
    · subst hs
      have hnames : namesIn r.reverse = front ++ [last] := by simpa [namesIn] using h
      obtain ⟨ahead, hdrop, hahead, hfront⟩ := ih hnames (List.reverse_reverse r)
      refine ⟨ahead, ?_, ?_, hfront⟩
      · rw [List.dropWhile_cons_of_pos (by simp)]
        exact hdrop
      · exact hss ▸ hahead.trans (List.prefix_append _ _)
    · rw [namesIn_cons hs] at h
      obtain ⟨hfront, hlast⟩ := List.append_inj' h rfl
      obtain rfl := (List.cons.inj hlast).1
      refine ⟨r.reverse, ?_, hss ▸ List.prefix_append _ _, hfront⟩
      rw [List.dropWhile_cons_of_neg (by simpa using hs), List.reverse_reverse]

/-- Passing over empty segments at the end keeps the names. -/
theorem namesIn_dropWhile (r : List String) :
    namesIn (r.dropWhile (· = "")).reverse = namesIn r.reverse := by
  induction r with
  | nil => rfl
  | cons s r ih =>
    by_cases hs : s = ""
    · rw [List.dropWhile_cons_of_pos (by simpa using hs), ih, List.reverse_cons, namesIn_append, hs]
      simp [namesIn]
    · rw [List.dropWhile_cons_of_neg (by simpa using hs)]

/-- Without segments `.`, only empty segments at the end are passed over. -/
theorem significantFrom_eq (isAbsolute : Bool) {ss : List String} (h : ∀ s ∈ ss, s ≠ ".") :
    significantFrom isAbsolute ss = ss.dropWhile (· = "") := by
  fun_induction significantFrom isAbsolute ss <;> simp_all

variable {p : Path}

/-- What counts of a plain path with a last name: this name, and the segments of the parent. -/
theorem exists_significant_eq (hp : p.IsPlain) {front : List String} {last : String}
    (h : p.names = front ++ [last]) :
    ∃ ahead, p.significant = last :: ahead.reverse ∧ ahead <+: p.segments ∧
      namesIn ahead = front := by
  obtain ⟨ahead, hdrop, hahead, hfront⟩ := exists_dropWhile_eq_cons h
  refine ⟨ahead, ?_, hahead, hfront⟩
  rw [significant, significantFrom_eq _ fun s hs => (hp s (List.mem_reverse.mp hs)).1, hdrop]

/-- The last name of a plain path names its file or directory. -/
theorem fileName?_eq (hp : p.IsPlain) {front : List String} {last : String}
    (h : p.names = front ++ [last]) : p.fileName? = some last := by
  obtain ⟨ahead, hsignificant, -⟩ := exists_significant_eq hp h
  have hlast : last ∈ p.segments :=
    mem_segments_of_mem_names (h ▸ List.mem_append_right _ (List.mem_singleton_self _))
  rw [fileName?, hsignificant]
  simp [hp last hlast]

/-- The parent of a plain path has its names but the last, and its segments stand at the beginning
of those of the path. -/
theorem parent?_eq (hp : p.IsPlain) {front : List String} {last : String}
    (h : p.names = front ++ [last]) :
    ∃ q, p.parent? = some q ∧ q.isAbsolute = p.isAbsolute ∧ q.segments <+: p.segments ∧
      q.names = front := by
  obtain ⟨ahead, hsignificant, hahead, hfront⟩ := exists_significant_eq hp h
  have hplain : ∀ s ∈ ahead.reverse, s ≠ "." := fun s hs =>
    (hp s (hahead.subset (List.mem_reverse.mp hs))).1
  have hparent : p.parent? = some ⟨p.isAbsolute, (ahead.reverse.dropWhile (· = "")).reverse⟩ := by
    rw [parent?, hsignificant]
    simp only [significantFrom_eq _ hplain]
  refine ⟨_, hparent, rfl, ?_, ?_⟩
  · have hsuffix : ahead.reverse.dropWhile (· = "") <:+ ahead.reverse := List.dropWhile_suffix _
    have hbegin := List.reverse_prefix.mpr hsuffix
    rw [List.reverse_reverse] at hbegin
    exact hbegin.trans hahead
  · rw [names, namesIn_dropWhile, List.reverse_reverse, hfront]

/-- Without names nothing but empty segments is there. -/
theorem dropWhile_reverse_eq_nil {ss : List String} (h : namesIn ss = []) :
    ss.reverse.dropWhile (· = "") = [] := by
  rw [List.dropWhile_eq_nil_iff]
  intro s hs
  have hname := List.filter_eq_nil_iff.mp h s (List.mem_reverse.mp hs)
  simpa using hname

/-- Without names there is no last one. -/
theorem splitLast?_eq_none {ss : List String} (h : namesIn ss = []) : splitLast? ss = none := by
  rw [splitLast?, dropWhile_reverse_eq_nil h]

/-- Nothing counts of a plain path without names. -/
theorem significant_eq_nil (hp : p.IsPlain) (h : p.names = []) : p.significant = [] := by
  rw [significant, significantFrom_eq _ fun s hs => (hp s (List.mem_reverse.mp hs)).1,
    dropWhile_reverse_eq_nil h]

/-- A plain path without names does not name a file or directory. -/
theorem fileName?_eq_none (hp : p.IsPlain) (h : p.names = []) : p.fileName? = none := by
  rw [fileName?, significant_eq_nil hp h]

/-- A plain path without names has no parent. -/
theorem parent?_eq_none (hp : p.IsPlain) (h : p.names = []) : p.parent? = none := by
  rw [parent?, significant_eq_nil hp h]

/-- The last name is divided off, and the segments ahead of it have the other names. Behind it a
slash stands only if the last segment is empty. -/
theorem splitLast?_eq {ss front : List String} {last : String} (h : namesIn ss = front ++ [last]) :
    ∃ ahead, splitLast? ss = some (ahead, last, decide (ss.getLast? = some "")) ∧ ahead <+: ss ∧
      namesIn ahead = front := by
  obtain ⟨ahead, hdrop, hahead, hfront⟩ := exists_dropWhile_eq_cons h
  refine ⟨ahead, ?_, hahead, hfront⟩
  rw [splitLast?, hdrop]
  simp only [List.reverse_reverse]

/-! ### Texts -/

/-- The text of a path begins with the text of a path ahead of it. -/
theorem text_isPrefix {q : Path} (hstart : q.isAbsolute = p.isAbsolute)
    (h : q.segments <+: p.segments) : q.text.toList <+: p.text.toList := by
  have hsegments : ("/".intercalate q.segments).toList <+: ("/".intercalate p.segments).toList := by
    rw [String.toList_intercalate, String.toList_intercalate]
    exact Text.intercalate_isPrefix _ (h.map String.toList)
  rw [text, text, hstart, String.toList_append, String.toList_append]
  exact (List.prefix_append_right_inj _).mpr hsegments

/-- The file system takes a text as that of a path if it is not empty, not too long and has no
NUL. -/
theorem checkPath_eq_ok : checkPath p = .ok () ↔
    '\x00' ∉ p.text.toList ∧ p.text ≠ "" ∧ p.text.utf8ByteSize < pathLimit := by
  unfold checkPath
  simp only [String.contains_char_eq, decide_eq_true_eq, String.isEmpty_iff]
  split
  · next h => simp [h]
  · next h =>
    split
    · next h' => simp [h']
    · next h' =>
      split
      · next hlong => simp only [reduceCtorEq, false_iff]; omega
      · next hlong => simp only [true_iff]; exact ⟨h, h', by omega⟩

/-- The file system finds a path too long if it has no NUL and reaches the limit. -/
theorem checkPath_eq_nameTooLong : checkPath p = .error .nameTooLong ↔
    '\x00' ∉ p.text.toList ∧ pathLimit ≤ p.text.utf8ByteSize := by
  have hempty : p.text = "" → p.text.utf8ByteSize < pathLimit := fun h => by rw [h]; decide
  unfold checkPath
  simp only [String.contains_char_eq, decide_eq_true_eq, String.isEmpty_iff]
  split
  · next h => simp [h]
  · next h =>
    split
    · next h' => simp [hempty h']
    · next h' =>
      split
      · next hlong => simp [h, hlong]
      · next hlong => simp [hlong]

/-- The file system takes a text that stands in one that it takes. -/
theorem checkPath_of_isInfix {q : Path} (hp : checkPath p = .ok ())
    (h : q.text.toList <:+: p.text.toList) (hq : q.text ≠ "") : checkPath q = .ok () := by
  obtain ⟨hnul, -, hsize⟩ := checkPath_eq_ok.mp hp
  refine checkPath_eq_ok.mpr ⟨fun hmem => hnul (h.subset hmem), hq, ?_⟩
  obtain ⟨ahead, behind, htext⟩ := h
  have hp : p.text = String.ofList ahead ++ q.text ++ String.ofList behind := by
    rw [← String.toList_inj, String.toList_append, String.toList_append, String.toList_ofList,
      String.toList_ofList, htext]
  rw [hp, String.utf8ByteSize_append, String.utf8ByteSize_append] at hsize
  omega

instance (p : Path) : Decidable p.IsAcceptable :=
  decidable_of_iff _ (and_congr_left' checkPath_eq_ok.symm)

/-- What is ahead of a path that the file system takes is taken too, unless it is no path at all. -/
theorem IsAcceptable.of_isPrefix {q : Path} (hp : p.IsAcceptable)
    (hstart : q.isAbsolute = p.isAbsolute) (h : q.segments <+: p.segments) (hq : q.text ≠ "") :
    q.IsAcceptable := by
  obtain ⟨hpath, hnames⟩ := hp
  exact ⟨checkPath_of_isInfix hpath (text_isPrefix hstart h).isInfix hq, fun s hs =>
    hnames s (h.subset hs)⟩

/-- A path with a name has segments. -/
theorem segments_ne_nil (h : p.names ≠ []) : p.segments ≠ [] := fun hnone => h (by
  rw [names, hnone]
  rfl)

/-- A path with a name has a text. -/
theorem text_ne_empty (h : p.names ≠ []) : p.text ≠ "" := by
  intro hempty
  obtain ⟨s, hs⟩ := List.exists_mem_of_ne_nil _ h
  have hne : s.toList ≠ [] := by simpa using ne_empty_of_mem_names hs
  have hjoin : ("/".intercalate p.segments).toList = [] := by
    have happend := congrArg String.toList hempty
    rw [text, String.toList_append] at happend
    exact (List.append_eq_nil_iff.mp happend).2
  rw [String.toList_intercalate] at hjoin
  exact hne (Text.eq_nil_of_intercalate_eq_nil hjoin _
    (List.mem_map_of_mem (mem_segments_of_mem_names hs)))

/-- On the way to a place the segments up to each name are a beginning. -/
theorem segments_join_isPrefix {front rest : List String} (hne : front ≠ [])
    (hfront : ∀ s ∈ front, s ≠ "") (hrest : ∀ s ∈ rest, s ≠ "") :
    (p.join front).segments <+: (p.join (front ++ rest)).segments := by
  obtain ⟨front, s, rfl⟩ := (List.eq_nil_or_concat' front).resolve_left hne
  obtain ⟨ahead, hsegments⟩ := p.exists_segments_join front s
  have hslash : (p.join (front ++ [s])).segments.getLast? ≠ some "" := by
    simpa [hsegments] using hfront s (by simp)
  rw [p.join_append (front ++ [s]) rest]
  exact segments_isPrefix_join hslash hrest

/-- A path with names behind it has a text. -/
theorem text_join_ne_empty {front : List String} (hne : front ≠ []) (hfront : ∀ s ∈ front, s ≠ "") :
    (p.join front).text ≠ "" :=
  text_ne_empty (by rw [names_join p hfront]; simp [hne])

/-- The way to a place that the file system takes is taken up to each of the names on it. -/
theorem IsAcceptable.of_join {front rest : List String} (hp : p.IsAcceptable)
    (hfront : ∀ s ∈ front, s ≠ "") (hrest : ∀ s ∈ rest, s ≠ "")
    (h : (p.join (front ++ rest)).IsAcceptable) : (p.join front).IsAcceptable := by
  by_cases hne : front = []
  · exact hne ▸ hp
  · exact h.of_isPrefix (by simp) (segments_join_isPrefix hne hfront hrest)
      (text_join_ne_empty hne hfront)

/-- Where the file system takes the path of a place, it takes those of the places on the way. -/
theorem checkPath_of_join {front rest : List String} (hp : checkPath p = .ok ())
    (hfront : ∀ s ∈ front, s ≠ "") (hrest : ∀ s ∈ rest, s ≠ "")
    (h : checkPath (p.join (front ++ rest)) = .ok ()) : checkPath (p.join front) = .ok () := by
  by_cases hne : front = []
  · exact hne ▸ hp
  · exact checkPath_of_isInfix h
      (text_isPrefix (by simp) (segments_join_isPrefix hne hfront hrest)).isInfix
      (text_join_ne_empty hne hfront)

/-- The text of a path with one more segment. -/
theorem text_push (p : Path) (s : String) : (p.push s).text =
    p.text ++ (if p.segments = [] ∨ p.segments.getLast? = some "" then "" else "/") ++ s := by
  rw [← String.toList_inj]
  unfold push
  split
  · next hlast =>
    -- The empty segment at the end gives way.
    have hsegments : p.segments = p.segments.dropLast ++ [""] :=
      (List.dropLast_append_getLast? "" hlast).symm
    have hjoin := Text.intercalate_concat_append "/".toList
      (p.segments.dropLast.map String.toList) [] s.toList
    rw [if_pos (.inr hlast), text, text]
    simp only [String.toList_append, String.toList_intercalate, List.map_append, List.map_singleton,
      List.append_assoc]
    rw [hsegments]
    simpa using hjoin
  · next hlast =>
    simp only [text, String.toList_append, String.toList_intercalate, List.map_append,
      List.map_singleton, List.append_assoc]
    by_cases hempty : p.segments = []
    · simp [hempty]
    · have hslash : ¬(p.segments = [] ∨ p.segments.getLast? = some "") := by simp [hempty, hlast]
      rw [if_neg hslash, Text.intercalate_append _ (by simpa using hempty) (List.cons_ne_nil _ [])]
      simp

/-- What is added to a path makes it no more too long than a path that is spelled as long. -/
theorem checkPath_push_of_le {q : Path} {s : String} (hp : checkPath p = .ok ())
    (hle : p.text.utf8ByteSize ≤ q.text.utf8ByteSize) (hq : q.segments ≠ [])
    (hslash : q.segments.getLast? ≠ some "") (h : checkPath (q.push s) = .ok ()) :
    checkPath (p.push s) = .ok () ∧
      (p.push s).text.utf8ByteSize ≤ (q.push s).text.utf8ByteSize := by
  have hqtext := text_push q s
  rw [if_neg (by simp [hq, hslash])] at hqtext
  obtain ⟨hnul, -, hsize⟩ := checkPath_eq_ok.mp h
  obtain ⟨hpnul, hne, -⟩ := checkPath_eq_ok.mp hp
  have hle' : (p.push s).text.utf8ByteSize ≤ (q.push s).text.utf8ByteSize := by
    rw [text_push, hqtext]
    split <;> simp only [String.utf8ByteSize_append] <;> simp <;> omega
  refine ⟨checkPath_eq_ok.mpr ⟨fun hmem => ?_, ?_, by omega⟩, hle'⟩
  · rw [text_push] at hmem
    rw [hqtext] at hnul
    simp only [String.toList_append, List.mem_append, not_or] at hmem hnul
    obtain (hmem | hmem) | hmem := hmem
    · exact hpnul hmem
    · split at hmem
      · cases hmem
      · exact hnul.1.2 hmem
    · exact hnul.2 hmem
  · intro hempty
    rw [text_push, ← String.toList_inj] at hempty
    simp only [String.toList_append, String.toList_empty, List.append_eq_nil_iff] at hempty
    exact hne (String.toList_inj.mp hempty.1.1)

/-- Where the file system takes the path of a file below a directory, it takes that below a
directory whose path is spelled no longer. -/
theorem checkPath_join_of_le {q : Path} {ss : List String} (hp : checkPath p = .ok ())
    (hle : p.text.utf8ByteSize ≤ q.text.utf8ByteSize) (hq : q.segments ≠ [])
    (hslash : q.segments.getLast? ≠ some "") (hss : ∀ s ∈ ss, s ≠ "")
    (h : checkPath (q.join ss) = .ok ()) : checkPath (p.join ss) = .ok () := by
  induction ss generalizing p q with
  | nil => exact hp
  | cons s ss ih =>
    obtain ⟨hs, hss⟩ := List.forall_mem_cons.mp hss
    have hsegments : (q.push s).segments = q.segments ++ [s] := by rw [push, if_neg hslash]
    have hslash' : (q.push s).segments.getLast? ≠ some "" := by simpa [hsegments] using hs
    have hq' : checkPath (q.push s) = .ok () :=
      checkPath_of_isInfix h
        (text_isPrefix (by simp) (segments_isPrefix_join hslash' hss)).isInfix
        (text_ne_empty (by simp [names_push q hs]))
    obtain ⟨hp', hle'⟩ := checkPath_push_of_le hp hle hq hslash hq'
    exact ih hp' hle' (by simp [hsegments]) hslash' hss h

end Path

end GatedCalls.Disk
