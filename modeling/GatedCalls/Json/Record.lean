import GatedCalls.Json.Syntax

/-!
# Records in JSON

A record is an object with a member for each field, in any order and among members that mean
nothing, or an array with the fields in their order. Documents may be nested only so deep: `room` is
the number of arrays and objects that may still be opened.
-/

namespace GatedCalls.Json

/-- The number of arrays and objects that may stand one inside another. -/
def maxNesting : Nat := 127

/-- The members with the names that their spellings denote, unless one denotes nothing. -/
def namedMembers? (members : List (String × Json)) : Option (List (String × Json)) :=
  members.mapM fun (name, j) => do return (← (string name).asString?, j)

/-- The one value with the given name. -/
def uniqueMember? (members : List (String × Json)) (name : String) : Option Json :=
  match members.filter fun (n, _) => n == name with
  | [(_, j)] => some j
  | _ => none

/-- The values of the fields of a record, in the order of the names. -/
def fields? (names : List String) : Json → Option (List Json)
  | object members => do
    let members ← namedMembers? members
    names.mapM (uniqueMember? members)
  | array items => if items.length = names.length then some items else none
  | _ => none

/-- The items of an array. -/
def items? : Json → Option (List Json)
  | array items => some items
  | _ => none

end GatedCalls.Json
