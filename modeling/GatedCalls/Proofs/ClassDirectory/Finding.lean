import GatedCalls.ClassDirectory.Basic
import GatedCalls.Proofs.ClassDirectory.Walk
import GatedCalls.Proofs.Run

/-!
# How finding class files ends

Finding class files lists one directory and opens those below it in the order of the walk. Where the
file system takes all their paths, the class files of the tree are found (`ends_find`); the first
path that it refuses is the failure (`ends_find_error`).
-/

namespace GatedCalls.ClassDirectory

open Disk (Location Node Path)

variable {d : Disk} {p : Path} {es : Disk.Entries}

/-- The class files of a tree are found where each directory in it can be opened. -/
theorem ends_find (hlist : d.list p = .ok es)
    (hopen : ∀ place ∈ (Node.directory es).subdirectories, Disk.checkPath (p.join place) = .ok ()) :
    (find p).Ends d (.ok ((Node.directory es).classFiles.map p.join)) d := by
  refine (Run.ends_reading hlist _).bind ((Run.ends_forM fun below hbelow => ?_).bind
    (Run.ends_pure _ d))
  obtain ⟨place, hplace, rfl⟩ := List.mem_map.mp hbelow
  exact Run.ends_reading (hopen place hplace) _

/-- The first directory that cannot be opened is the failure. -/
theorem ends_find_error (hlist : d.list p = .ok es) {ahead behind : List Location} {place : Location}
    {fault : Disk.Fault} (hwalk : (Node.directory es).subdirectories = ahead ++ place :: behind)
    (hahead : ∀ q ∈ ahead, Disk.checkPath (p.join q) = .ok ())
    (hplace : Disk.checkPath (p.join place) = .error fault) :
    (find p).Ends d (.error (Cause.readingDirectory (p.join place).text fault).failure) d := by
  refine (Run.ends_reading hlist _).bind (Run.Ends.bind_error ?_)
  rw [hwalk, List.map_append, List.map_cons]
  refine Run.ends_forM_error (fun below hbelow => ?_) (Run.ends_reading_error hplace _)
  obtain ⟨q, hq, rfl⟩ := List.mem_map.mp hbelow
  exact Run.ends_reading (hahead q hq) _

end GatedCalls.ClassDirectory
