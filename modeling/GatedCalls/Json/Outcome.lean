import GatedCalls.Json.Reader
import GatedCalls.Json.Reference
import GatedCalls.Redirection.Basic
import GatedCalls.Resolution.Program

/-!
# Redirections and counters in JSON

The JSON form of redirections and of the counters of a resolution, and the reading of whole texts.
-/

namespace GatedCalls

/-- The JSON form of a redirection. -/
def Redirection.toJson (r : Redirection) : Json :=
  .object [("original", r.callee.toJson), ("replacement", r.replacement.toJson)]

/-- Reads a redirection. -/
def Redirection.ofJson? (room : Nat) (j : Json) : Option Redirection := do
  guard (0 < room)
  let [callee, replacement] ← j.fields? ["original", "replacement"] | none
  return ⟨← MethodRef.ofJson? (room - 1) callee, ← MethodRef.ofJson? (room - 1) replacement⟩

/-- The JSON form of the counters of a resolution. -/
def Tally.toJson (t : Tally) : Json :=
  .object [("redirected", .ofNat t.redirected), ("removed", .ofNat t.removed),
    ("unresolved", .ofNat t.unresolved)]

/-- Reads the counters of a resolution. -/
def Tally.ofJson? (room : Nat) (j : Json) : Option Tally := do
  guard (0 < room)
  let [redirected, removed, unresolved] ← j.fields? ["redirected", "removed", "unresolved"] | none
  return ⟨← redirected.asNat?, ← removed.asNat?, ← unresolved.asNat?⟩

/-- Reads a whole text as a value, by the reader of its JSON form. -/
def Json.readAs? {α : Type} (ofJson? : Nat → Json → Option α) (text : String) : Option α := do
  ofJson? maxNesting (← Json.read? text)

end GatedCalls
