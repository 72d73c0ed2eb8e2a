import GatedCalls.Disk.Tree

/-!
# What changes in a tree

A tree is looked at place by place: `kindAt?` tells whether a file stands there, and with which
content, or a directory, whatever is in it. Changing the entries of one directory changes what
stands below the names that are entered or taken away, and nothing anywhere else
(`kindAt?_put_below`, `kindAt?_put_other` and the same for `erase`). Everything that is said of the
operations on disks comes down to these.
-/

namespace GatedCalls.Disk

/-- What stands at a place: a file with its content, or a directory, whatever is in it. -/
inductive Kind where
  | file (content : ByteArray)
  | directory

/-- In a list of different names, the entry of a name is the one in the list. -/
theorem Entries.get?_eq_some {es : Entries} (hnodup : (es.map (·.1)).Nodup) {name : String}
    {node : Node} : es.get? name = some node ↔ (name, node) ∈ es := by
  induction es with
  | nil => simp
  | cons e es ih =>
    obtain ⟨hfresh, hnodup⟩ := List.nodup_cons.mp hnodup
    rw [get?_cons, List.mem_cons]
    split
    case isTrue hname =>
      subst hname
      have hmem : (e.1, node) ∉ es := fun hmem => hfresh (List.mem_map.mpr ⟨_, hmem, rfl⟩)
      simp [hmem, Prod.ext_iff, eq_comm]
    case isFalse hname =>
      rw [ih hnodup]
      simp [Prod.ext_iff, Ne.symm hname]

namespace Node

/-- What a node is. -/
def kind : Node → Kind
  | file content => .file content
  | directory _ => .directory

/-- What stands at a place of a tree. -/
def kindAt? (node : Node) (place : Location) : Option Kind :=
  (node.find? place).map kind

/-- What stands at the root. -/
@[simp] theorem kindAt?_nil (node : Node) : node.kindAt? [] = some node.kind := by
  simp [kindAt?]

/-- Nothing stands below a file. -/
@[simp] theorem kindAt?_file_cons (content : ByteArray) (name : String) (rest : Location) :
    (file content).kindAt? (name :: rest) = none := rfl

/-- What stands below a directory stands below one of its entries. -/
theorem kindAt?_directory_cons (es : Entries) (name : String) (rest : Location) :
    (directory es).kindAt? (name :: rest) = (Entries.get? es name).bind (·.kindAt? rest) := by
  simp only [kindAt?, find?_directory_cons]
  cases Entries.get? es name <;> rfl

/-- What stands at a place is found from what stands on the way. -/
theorem kindAt?_append (node : Node) (front rest : Location) :
    node.kindAt? (front ++ rest) = (node.find? front).bind (·.kindAt? rest) := by
  rw [kindAt?, find?_append]
  cases node.find? front <;> rfl

/-- A directory stands where one is found. -/
theorem kindAt?_eq_directory {node : Node} {place : Location} :
    node.kindAt? place = some .directory ↔ ∃ es, node.find? place = some (directory es) := by
  unfold kindAt?
  cases node.find? place with
  | none => simp
  | some n => cases n <;> simp [kind]

/-- A file stands where it is found. -/
theorem kindAt?_eq_file {node : Node} {place : Location} {content : ByteArray} :
    node.kindAt? place = some (.file content) ↔ node.find? place = some (file content) := by
  unfold kindAt?
  cases node.find? place with
  | none => simp
  | some n => cases n <;> simp [kind]

/-- Nothing stands where nothing is found. -/
theorem kindAt?_eq_none {node : Node} {place : Location} :
    node.kindAt? place = none ↔ node.find? place = none :=
  Option.map_eq_none_iff

/-- The entry of a directory under a name is what is found there. -/
theorem find?_append_singleton {node : Node} {dir : Location} {es : Entries}
    (h : node.find? dir = some (directory es)) (name : String) :
    node.find? (dir ++ [name]) = es.get? name := by
  rw [find?_append, h, Option.bind_some, find?_directory_cons]
  cases Entries.get? es name <;> simp

/-- Only in a directory something stands. -/
theorem kindAt?_of_append {node : Node} {front rest : Location} {k : Kind}
    (h : node.kindAt? (front ++ rest) = some k) (hrest : rest ≠ []) :
    node.kindAt? front = some .directory := by
  rw [kindAt?_append] at h
  obtain ⟨inner, hinner, hkind⟩ := Option.bind_eq_some_iff.mp h
  cases inner with
  | file content =>
    obtain ⟨name, rest, rfl⟩ := List.exists_cons_of_ne_nil hrest
    cases hkind
  | directory es => exact kindAt?_eq_directory.mpr ⟨es, hinner⟩

/-- On the way to a directory all are directories. -/
theorem kindAt?_directory_of_append {node : Node} {front rest : Location}
    (h : node.kindAt? (front ++ rest) = some .directory) :
    node.kindAt? front = some .directory := by
  by_cases hrest : rest = []
  · rwa [hrest, List.append_nil] at h
  · exact kindAt?_of_append h hrest

/-- Where nothing stands there is nothing below either. -/
theorem kindAt?_append_eq_none {node : Node} {front : Location} (h : node.kindAt? front = none)
    (rest : Location) : node.kindAt? (front ++ rest) = none := by
  rw [kindAt?_append, kindAt?_eq_none.mp h, Option.bind_none]

/-- A directory below which nothing stands has no entries. -/
theorem find?_eq_empty {node : Node} {place : Location}
    (hdirectory : node.kindAt? place = some .directory)
    (hbelow : ∀ name, node.kindAt? (place ++ [name]) = none) :
    node.find? place = some (directory []) := by
  obtain ⟨es, hes⟩ := kindAt?_eq_directory.mp hdirectory
  cases es with
  | nil => exact hes
  | cons e es =>
    have hentry := find?_append_singleton hes e.1
    rw [kindAt?_eq_none.mp (hbelow e.1), Entries.get?_cons, if_pos rfl] at hentry
    cases hentry

/-! ### Changing a directory -/

/-- On the way to the directory that changes, every directory changes below. -/
theorem find?_update_append (node : Node) (front rest : Location) (f : Entries → Entries) :
    (node.update (front ++ rest) f).find? front = (node.find? front).map (·.update rest f) := by
  induction front generalizing node with
  | nil => simp
  | cons name front ih =>
    cases node with
    | file content => simp [update]
    | directory es =>
      rw [List.cons_append, update, find?_directory_cons, Entries.get?_modify, if_pos rfl,
        find?_directory_cons]
      cases Entries.get? es name with
      | none => rfl
      | some n => exact ih n

/-- A directory has its entries changed. -/
theorem find?_update {node : Node} {dir : Location} {es : Entries}
    (h : node.find? dir = some (directory es)) (f : Entries → Entries) :
    (node.update dir f).find? dir = some (directory (f es)) := by
  have hfound := node.find?_update_append dir [] f
  rw [List.append_nil, h] at hfound
  exact hfound

/-- Nothing changes but below the directory. -/
theorem kindAt?_update_of_not_isPrefix {node : Node} {dir q : Location} (h : ¬dir <+: q)
    (f : Entries → Entries) : (node.update dir f).kindAt? q = node.kindAt? q := by
  induction dir generalizing node q with
  | nil => exact absurd q.nil_prefix h
  | cons name dir ih =>
    cases node with
    | file content => rfl
    | directory es =>
      cases q with
      | nil => rw [update, kindAt?_nil, kindAt?_nil]; rfl
      | cons x q =>
        rw [update, kindAt?_directory_cons, kindAt?_directory_cons, Entries.get?_modify]
        by_cases hx : x = name
        · subst hx
          have hq : ¬dir <+: q := fun hq => h (List.cons_prefix_cons.mpr ⟨rfl, hq⟩)
          rw [if_pos rfl]
          cases Entries.get? es x with
          | none => rfl
          | some n => exact ih hq
        · rw [if_neg hx]

/-- Below the directory stands what its new entries say. -/
theorem kindAt?_update_cons {node : Node} {dir : Location} {es : Entries}
    (h : node.find? dir = some (directory es)) (f : Entries → Entries) (x : String)
    (rest : Location) :
    (node.update dir f).kindAt? (dir ++ x :: rest) =
      (Entries.get? (f es) x).bind (·.kindAt? rest) := by
  rw [kindAt?_append, find?_update h, Option.bind_some, kindAt?_directory_cons]

/-- Where a change concerns one name only, nothing changes but below that name. -/
theorem kindAt?_update_other {node : Node} {dir : Location} {es : Entries}
    (h : node.find? dir = some (directory es)) {f : Entries → Entries} {name : String}
    (hf : ∀ x, x ≠ name → Entries.get? (f es) x = Entries.get? es x) {q : Location}
    (hq : ¬dir ++ [name] <+: q) : (node.update dir f).kindAt? q = node.kindAt? q := by
  by_cases hdir : dir <+: q
  · obtain ⟨rest, rfl⟩ := hdir
    cases rest with
    | nil =>
      rw [List.append_nil, kindAt?_eq_directory.mpr ⟨_, find?_update h f⟩,
        kindAt?_eq_directory.mpr ⟨_, h⟩]
    | cons x rest =>
      have hx : x ≠ name := fun hx => hq ⟨rest, by simp [hx]⟩
      rw [kindAt?_update_cons h, hf x hx, kindAt?_append, h, Option.bind_some,
        kindAt?_directory_cons]
  · exact kindAt?_update_of_not_isPrefix hdir f

variable {node : Node} {dir : Location} {es : Entries}

/-- Below a name stands what is put under it. -/
theorem kindAt?_put_below (h : node.find? dir = some (directory es)) (name : String) (new : Node)
    (rest : Location) :
    (node.update dir (·.put name new)).kindAt? (dir ++ name :: rest) = new.kindAt? rest := by
  rw [kindAt?_update_cons h, Entries.get?_put, if_pos rfl, Option.bind_some]

/-- Nothing changes but below the name under which something is put. -/
theorem kindAt?_put_other (h : node.find? dir = some (directory es)) {name : String} (new : Node)
    {q : Location} (hq : ¬dir ++ [name] <+: q) :
    (node.update dir (·.put name new)).kindAt? q = node.kindAt? q :=
  kindAt?_update_other h (fun x hx => by rw [Entries.get?_put, if_neg hx]) hq

/-- Nothing stands below a name that is taken away. -/
theorem kindAt?_erase_below (h : node.find? dir = some (directory es)) (name : String)
    (rest : Location) :
    (node.update dir (·.erase name)).kindAt? (dir ++ name :: rest) = none := by
  rw [kindAt?_update_cons h, Entries.get?_erase, if_pos rfl, Option.bind_none]

/-- Nothing changes but below the name that is taken away. -/
theorem kindAt?_erase_other (h : node.find? dir = some (directory es)) {name : String}
    {q : Location} (hq : ¬dir ++ [name] <+: q) :
    (node.update dir (·.erase name)).kindAt? q = node.kindAt? q :=
  kindAt?_update_other h (fun x hx => by rw [Entries.get?_erase, if_neg hx]) hq

/-! ### Names in a directory -/

/-- Whether the names in each directory of a tree differ. -/
inductive NamesDiffer : Node → Prop where
  | file (content : ByteArray) : NamesDiffer (file content)
  | directory (es : Entries) (nodup : (es.map (·.1)).Nodup) (inner : ∀ e ∈ es, NamesDiffer e.2) :
    NamesDiffer (directory es)

/-- The names in the directory itself differ. -/
theorem NamesDiffer.nodup (h : (Node.directory es).NamesDiffer) : (es.map (·.1)).Nodup := by
  cases h with
  | directory es nodup inner => exact nodup

/-- Where names differ, they differ in every part of the tree. -/
theorem NamesDiffer.find? {place : Location} {inner : Node} (h : node.NamesDiffer)
    (hfind : node.find? place = some inner) : inner.NamesDiffer := by
  induction place generalizing node with
  | nil =>
    rw [find?_nil] at hfind
    exact Option.some.inj hfind ▸ h
  | cons name place ih =>
    cases h with
    | file content => cases hfind
    | directory es nodup hinner =>
      rw [find?_directory_cons] at hfind
      obtain ⟨n, hn, hfind⟩ := Option.bind_eq_some_iff.mp hfind
      exact ih (hinner _ ((Entries.get?_eq_some nodup).mp hn)) hfind

/-- Names still differ where the entries of one directory are changed and differ then. -/
theorem NamesDiffer.update (h : node.NamesDiffer) {f : Entries → Entries} (dir : Location)
    (hf : ∀ es : Entries, (Node.directory es).NamesDiffer → (Node.directory (f es)).NamesDiffer) :
    (node.update dir f).NamesDiffer := by
  induction dir generalizing node with
  | nil =>
    cases node with
    | file content => exact h
    | directory es => exact hf es h
  | cons name dir ih =>
    cases h with
    | file content => exact .file content
    | directory es nodup inner =>
      refine .directory _ ?_ fun e he => ?_
      · have hnames : (Entries.modify es name fun node => node.update dir f).map (·.1) =
            es.map (·.1) := by
          rw [Entries.modify, List.map_map]
          exact List.map_congr_left fun e _ => by
            simp only [Function.comp_apply]
            split <;> rfl
        exact hnames ▸ nodup
      · obtain ⟨e', he', rfl⟩ := List.mem_map.mp he
        split
        · exact ih (inner e' he')
        · exact inner e' he'

/-- Names still differ where one entry is taken away. -/
theorem NamesDiffer.erase (h : (Node.directory es).NamesDiffer) (name : String) :
    (Node.directory (es.erase name)).NamesDiffer := by
  cases h with
  | directory es nodup inner =>
    have hsub : List.Sublist (Entries.erase es name) es := List.filter_sublist
    exact .directory _ (nodup.sublist (hsub.map _)) fun e he => inner e (hsub.subset he)

/-- Names still differ where a tree of different names is entered. -/
theorem NamesDiffer.put (h : (Node.directory es).NamesDiffer) (name : String) {new : Node}
    (hnew : new.NamesDiffer) : (Node.directory (es.put name new)).NamesDiffer := by
  cases h.erase name with
  | directory es' nodup inner =>
    refine .directory _ ?_ fun e he => ?_
    · rw [Entries.put, List.map_append, List.map_singleton, List.nodup_append]
      refine ⟨nodup, by simp, fun x hx y hy => ?_⟩
      obtain ⟨e, he, rfl⟩ := List.mem_map.mp hx
      rw [List.mem_singleton.mp hy]
      simpa [Entries.erase] using (List.mem_filter.mp he).2
    · obtain he | he := List.mem_append.mp he
      · exact inner e he
      · rw [List.mem_singleton.mp he]
        exact hnew

end Node

end GatedCalls.Disk
