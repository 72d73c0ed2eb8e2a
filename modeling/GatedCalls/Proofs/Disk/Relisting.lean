import GatedCalls.Proofs.Disk.Following

/-!
# Listing a directory in another order

Directories list their entries in some order, which means nothing. Two disks that differ in these
orders only hold the same at every place (`Relists`): that is so where any directories list their
entries in any orders (`relists_foldl_update`). Paths lead to the same places on both
(`Relists.resolve_eq`).
-/

namespace GatedCalls.Disk

/-- Whether a disk holds at every place what another one holds, in whatever order its directories
list their entries. -/
structure Relists (d d' : Disk) : Prop where
  /-- At each place stands the same. -/
  kindAt?_eq : ∀ place, d'.kindAt? place = d.kindAt? place
  /-- Relative paths start from the same place. -/
  workingDirectory_eq : d'.workingDirectory = d.workingDirectory
  /-- No directory lists a name twice. -/
  namesDiffer : d'.root.NamesDiffer

variable {d d' : Disk} {place : Location}

namespace Node

/-- In another order the entries of different names are the same. -/
theorem get?_perm {es fs : Entries} (hperm : fs.Perm es) (hnodup : (es.map (·.1)).Nodup)
    (name : String) : Entries.get? fs name = Entries.get? es name := by
  have hnodup' : (fs.map (·.1)).Nodup := (hperm.map _).nodup_iff.mpr hnodup
  refine Option.ext fun node => ?_
  rw [Entries.get?_eq_some hnodup', Entries.get?_eq_some hnodup, hperm.mem_iff]

/-- Where a directory lists its entries in another order, all places hold the same. -/
theorem kindAt?_update_perm {node : Node} (hnames : node.NamesDiffer) {f : Entries → Entries}
    (hf : ∀ es, (f es).Perm es) (dir place : Location) :
    (node.update dir f).kindAt? place = node.kindAt? place := by
  by_cases hdir : dir <+: place
  · obtain ⟨rest, rfl⟩ := hdir
    have hfound := node.find?_update_append dir [] f
    rw [List.append_nil] at hfound
    rw [kindAt?_append, hfound, kindAt?_append]
    cases hinner : node.find? dir with
    | none => rfl
    | some inner =>
      cases inner with
      | file content => rfl
      | directory es =>
        -- Only the entries of this directory are in another order.
        have hnodup := (hnames.find? hinner).nodup
        cases rest with
        | nil => rfl
        | cons x rest =>
          simp only [Option.map_some, Option.bind_some, update, kindAt?_directory_cons]
          rw [get?_perm (hf es) hnodup]
  · exact kindAt?_update_of_not_isPrefix hdir f

end Node

/-- A disk lists what it holds. -/
theorem Relists.refl (hnames : d.root.NamesDiffer) : Relists d d :=
  ⟨fun _ => rfl, rfl, hnames⟩

/-- Listing twice in another order is listing in another order. -/
theorem Relists.trans {d'' : Disk} (h : Relists d d') (h' : Relists d' d'') : Relists d d'' :=
  ⟨fun place => (h'.kindAt?_eq place).trans (h.kindAt?_eq place),
    h'.workingDirectory_eq.trans h.workingDirectory_eq, h'.namesDiffer⟩

/-- One directory may list its entries in any order. -/
theorem relists_update (hnames : d.root.NamesDiffer) {f : Entries → Entries}
    (hf : ∀ es, (f es).Perm es) (dir : Location) : Relists d (d.update dir f) where
  kindAt?_eq := Node.kindAt?_update_perm hnames hf dir
  workingDirectory_eq := rfl
  namesDiffer := by
    refine hnames.update dir fun es h => ?_
    cases h with
    | directory es nodup inner =>
      exact .directory _ (((hf es).map _).nodup_iff.mpr nodup) fun e he =>
        inner e ((hf es).mem_iff.mp he)

/-- Any directories may list their entries in any orders. -/
theorem relists_foldl_update (hnames : d.root.NamesDiffer)
    {orders : List (Location × (Entries → Entries))}
    (h : ∀ order ∈ orders, ∀ es, (order.2 es).Perm es) :
    Relists d (orders.foldl (fun d order => d.update order.1 order.2) d) := by
  induction orders generalizing d with
  | nil => exact .refl hnames
  | cons order orders ih =>
    obtain ⟨horder, horders⟩ := List.forall_mem_cons.mp h
    have hfirst := relists_update hnames horder order.1
    exact hfirst.trans (ih hfirst.namesDiffer horders)

/-- Segments are followed to the same end on disks that hold the same. -/
theorem follow_congr (h : ∀ q, d'.kindAt? q = d.kindAt? q) (place : Location) (ss : List String) :
    d'.follow place ss = d.follow place ss := by
  induction ss generalizing place with
  | nil => rw [follow, follow]
  | cons s ss ih =>
    rw [follow, follow]
    have hplace := h place
    cases hnode : d.root.find? place with
    | none =>
      rw [kindAt?, kindAt?, Node.kindAt?_eq_none.mpr hnode, Node.kindAt?_eq_none] at hplace
      simp only [entriesAt, hnode, hplace]
    | some node =>
      cases node with
      | file content =>
        rw [kindAt?, kindAt?, Node.kindAt?_eq_file.mpr hnode, Node.kindAt?_eq_file] at hplace
        simp only [entriesAt, hnode, hplace]
      | directory es =>
        rw [kindAt?, kindAt?, Node.kindAt?_eq_directory.mpr ⟨es, hnode⟩,
          Node.kindAt?_eq_directory] at hplace
        obtain ⟨fs, hnode'⟩ := hplace
        -- A segment has an entry on one disk if it has one on the other.
        have hentry : (Entries.get? fs s).isNone = (Entries.get? es s).isNone := by
          have hnext := h (place ++ [s])
          rw [kindAt?, kindAt?, Node.kindAt?, Node.kindAt?, Node.find?_append_singleton hnode',
            Node.find?_append_singleton hnode] at hnext
          rw [← Option.isNone_map (f := Node.kind), hnext, Option.isNone_map]
        simp only [entriesAt, hnode, hnode', hentry, ih]

/-- A path leads to the same place, in whatever order directories are listed. -/
theorem Relists.resolve_eq (h : Relists d d') (p : Path) : d'.resolve p = d.resolve p := by
  rw [resolve, resolve, start_congr h.workingDirectory_eq]
  simp only [follow_congr h.kindAt?_eq]

end GatedCalls.Disk
