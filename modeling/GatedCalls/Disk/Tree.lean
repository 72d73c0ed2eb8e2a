/-!
# File trees

A file tree is a file with its bytes, or a directory with entries under names. The entries stand in
the order in which the directory lists them, which means nothing. A place in a tree is given by the
names on the way down to it from the root.

Names are texts. A file system may also hold names whose bytes are no UTF-8; a tree with such a name
is not one of these trees.
-/

namespace GatedCalls.Disk

/-- A file, or a directory with its entries. -/
inductive Node where
  | file (content : ByteArray)
  | directory (entries : List (String × Node))

/-- The entries of a directory, under their names. -/
abbrev Entries : Type :=
  List (String × Node)

/-- The names on the way from the root of a tree to a place in it. -/
abbrev Location : Type :=
  List String

namespace Entries

/-- The entry with the given name. -/
def get? (es : Entries) (name : String) : Option Node :=
  List.lookup name es

/-- Takes the entry with the given name away. -/
def erase (es : Entries) (name : String) : Entries :=
  es.filter fun e => e.1 != name

/-- Enters a node under a name, in place of what the name stood for. -/
def put (es : Entries) (name : String) (node : Node) : Entries :=
  erase es name ++ [(name, node)]

/-- Changes the node under a name. -/
def modify (es : Entries) (name : String) (f : Node → Node) : Entries :=
  es.map fun e => if e.1 = name then (e.1, f e.2) else e

/-- The first entry with a name is the one that counts. -/
theorem get?_cons (e : String × Node) (es : Entries) (name : String) :
    get? (e :: es) name = if e.1 = name then some e.2 else get? es name := by
  obtain ⟨key, node⟩ := e
  by_cases h : name = key
  · simp [get?, h]
  · simp [get?, List.lookup_cons, beq_false_of_ne h, Ne.symm h]

/-- An empty directory has no entry. -/
@[simp] theorem get?_nil (name : String) : get? [] name = none := rfl

/-- An erased name has no entry, and all others keep theirs. -/
theorem get?_erase (es : Entries) (name other : String) :
    get? (erase es name) other = if other = name then none else get? es other := by
  induction es with
  | nil => simp [erase]
  | cons e es ih =>
    have ih' : get? (List.filter (fun e => e.1 != name) es) other = _ := ih
    by_cases h : e.1 = name <;> grind [erase, get?_cons]

/-- An entry further ahead in the list counts first. -/
theorem get?_append (es fs : Entries) (name : String) :
    get? (es ++ fs) name = (get? es name).or (get? fs name) := by
  induction es with
  | nil => simp
  | cons e es ih =>
    rw [List.cons_append, get?_cons, get?_cons, ih]
    split <;> rfl

/-- What is put under a name is found there, and all other names keep their entries. -/
theorem get?_put (es : Entries) (name other : String) (node : Node) :
    get? (put es name node) other = if other = name then some node else get? es other := by
  rw [put, get?_append, get?_erase, get?_cons]
  by_cases h : other = name
  · simp [h]
  · simp [h, Ne.symm h]

/-- Only the node under the given name changes. -/
theorem get?_modify (es : Entries) (name other : String) (f : Node → Node) :
    get? (modify es name f) other =
      if other = name then (get? es other).map f else get? es other := by
  induction es with
  | nil => simp [modify]
  | cons e es ih =>
    have ih' : get? (List.map (fun e => if e.1 = name then (e.1, f e.2) else e) es) other = _ := ih
    by_cases h : e.1 = name <;> grind [modify, get?_cons]

end Entries

namespace Node

/-- Whether the node is a directory. -/
def isDirectory : Node → Bool
  | directory _ => true
  | file _ => false

/-- The node at a place. -/
def find? : Node → Location → Option Node
  | node, [] => some node
  | file _, _ :: _ => none
  | directory es, name :: rest => (Entries.get? es name).bind (find? · rest)

/-- Changes the entries of the directory at a place, if there is one. -/
def update : Node → Location → (Entries → Entries) → Node
  | file content, _, _ => file content
  | directory es, [], f => directory (f es)
  | directory es, name :: rest, f =>
    directory (Entries.modify es name fun node => node.update rest f)

/-- The root is found by the empty way. -/
@[simp] theorem find?_nil (node : Node) : node.find? [] = some node := by
  cases node <;> rfl

/-- No way leads through a file. -/
@[simp] theorem find?_file_cons (content : ByteArray) (name : String) (rest : Location) :
    (file content).find? (name :: rest) = none := rfl

/-- A way leads through the entry of its first name. -/
@[simp] theorem find?_directory_cons (es : Entries) (name : String) (rest : Location) :
    (directory es).find? (name :: rest) = (Entries.get? es name).bind (find? · rest) := rfl

/-- A place is found by finding the first part of the way, then the rest. -/
theorem find?_append (node : Node) (front rest : Location) :
    node.find? (front ++ rest) = (node.find? front).bind (find? · rest) := by
  induction front generalizing node with
  | nil => simp
  | cons name front ih =>
    cases node with
    | file content => simp
    | directory es => cases h : Entries.get? es name <;> simp [h, ih]

/-! ### Listing a tree -/

mutual

/-- The places of a tree below its root, each with the node there. A directory comes before what is
in it. -/
def places : Node → List (Location × Node)
  | file _ => []
  | directory es => placesOfEntries es

/-- The places in a list of entries. -/
def placesOfEntries : List (String × Node) → List (Location × Node)
  | [] => []
  | (name, node) :: es =>
    ([name], node) :: node.places.map (fun (rest, n) => (name :: rest, n)) ++ placesOfEntries es

end

end Node

end GatedCalls.Disk
