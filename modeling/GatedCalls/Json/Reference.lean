import GatedCalls.Descriptor.MethodRef
import GatedCalls.Json.Record

/-!
# Types and references in JSON

The JSON form of class names, types, prototypes and method references. A primitive type is its name
as a string; an array or a class is an object with one member, named for the kind of type. The
readers take the number of levels that a document may still open.
-/

namespace GatedCalls

/-! ### Class names -/

/-- The JSON form of a class name. -/
def ClassName.toJson (c : ClassName) : Json :=
  .object [("class_name", .ofString c.path)]

/-- Reads a class name. -/
def ClassName.ofJson? (room : Nat) (j : Json) : Option ClassName := do
  guard (0 < room)
  let [path] ← j.fields? ["class_name"] | none
  return ⟨← path.asString?⟩

/-! ### Types -/

/-- The name of a primitive type in JSON. -/
def Primitive.jsonName : Primitive → String
  | int => "Int"
  | boolean => "Bool"
  | byte => "Byte"
  | char => "Char"
  | short => "Short"
  | long => "Long"
  | float => "Float"
  | double => "Double"
  | void => "Void"

/-- The primitive type with the given name in JSON. -/
def Primitive.ofJsonName? (name : String) : Option Primitive :=
  all.find? fun p => p.jsonName == name

/-- The JSON form of a type. -/
def JavaType.toJson : JavaType → Json
  | array t => .object [("Array", t.toJson)]
  | object c => .object [("Object", c.toJson)]
  | primitive p => .ofString p.jsonName

/-- Reads a type. The name of a primitive type may also be the only member of an object, with the
value `null`. -/
def JavaType.ofJson? : (room : Nat) → Json → Option JavaType
  | _, .string body => do
    let name ← (Json.string body).asString?
    return primitive (← Primitive.ofJsonName? name)
  | room + 1, .object [(key, value)] => do
    match ← (Json.string key).asString? with
    | "Array" => return array (← JavaType.ofJson? room value)
    | "Object" => return object (← ClassName.ofJson? room value)
    | name =>
      let .null := value | none
      return primitive (← Primitive.ofJsonName? name)
  | _, _ => none

/-! ### Prototypes and method references -/

/-- The JSON form of a prototype. -/
def Prototype.toJson (p : Prototype) : Json :=
  .object [("args", .array (p.params.map JavaType.toJson)), ("result", p.result.toJson)]

/-- Reads a prototype. -/
def Prototype.ofJson? (room : Nat) (j : Json) : Option Prototype := do
  guard (1 < room)
  let [params, result] ← j.fields? ["args", "result"] | none
  let params ← (← params.items?).mapM (JavaType.ofJson? (room - 2))
  return ⟨params, ← JavaType.ofJson? (room - 1) result⟩

/-- The JSON form of a method reference. -/
def MethodRef.toJson (m : MethodRef) : Json :=
  .object [("class", .ofString m.owner), ("name", .ofString m.name), ("signature", m.proto.toJson)]

/-- Reads a method reference. -/
def MethodRef.ofJson? (room : Nat) (j : Json) : Option MethodRef := do
  guard (0 < room)
  let [owner, name, proto] ← j.fields? ["class", "name", "signature"] | none
  return ⟨← owner.asString?, ← name.asString?, ← Prototype.ofJson? (room - 1) proto⟩

end GatedCalls
