import GatedCalls.Permission.Table
import GatedCalls.Run

/-!
# Permission tables in files
-/

namespace GatedCalls.PermissionTable

/-- Reads the table in a file. -/
def readFrom (p : Disk.Path) : Run PermissionTable := do
  let text ← Run.reading (·.readText p) (Cause.loadingTable p.text)
  let table ← Run.ofExcept ((ofText text).mapError (·.within p.text))
  Run.report .info .table
    ("Loaded " ++ toString table.size ++ " permission-protected APIs from " ++ p.text)
  return table

end GatedCalls.PermissionTable
