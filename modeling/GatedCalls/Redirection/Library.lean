import GatedCalls.Descriptor.Reading
import GatedCalls.Log
import GatedCalls.Permission.Table
import GatedCalls.Program
import GatedCalls.Redirection.Basic

/-!
# Replacement libraries

A replacement library is a program whose classes offer themselves by an annotation, the class
marker. In such a class a public static method with another annotation, the method marker, replaces
a method of the platform: the marker names the permission (`permission`) and the class whose method
is replaced (`defClass`), and that class has to be the type of the first parameter.

Loading decodes all markers before it takes anything over, so a library with a malformed marker
leaves no trace.
-/

namespace GatedCalls

/-- The types of the two annotations by which a library marks its classes and methods. -/
structure Markers where
  classMarker : String
  methodMarker : String
  deriving DecidableEq, Repr

/-- The markers that are used where no others are given. -/
def Markers.standard : Markers :=
  ⟨"Lit/unige/dibris/rmperm/annotations/CustomMethodClass;",
    "Lit/unige/dibris/rmperm/annotations/MethodPermission;"⟩

/-- What a method marker says: the permission, and the class whose method is replaced. -/
structure MethodMarker where
  permission : String
  receiver : JavaType
  deriving DecidableEq, Repr

namespace MethodMarker

/-- The elements of a marker that have been read so far. -/
structure Draft where
  permission : Option String
  receiver : Option JavaType

/-- Reads one more element of a marker of the given type. -/
def Draft.addElement (type : JavaType) (known : Draft) (e : Element) : Except Failure Draft :=
  match e.value.asString? with
  | none => .error (Cause.elementNotString e.name type).failure
  | some value =>
    if e.name = "permission" then .ok { known with permission := some value }
    else if e.name = "defClass" then do
      let receiver ← JavaType.readJavaName value
      return { known with receiver := some receiver }
    else .error (Cause.unexpectedElement e.name type).failure

/-- Decodes a marker. Of an element that is given twice, the last one counts. -/
def ofBlock (a : AnnotationBlock) : Except Failure MethodMarker := do
  let found ← a.elements.foldlM (Draft.addElement a.type) ⟨none, none⟩
  match found.permission, found.receiver with
  | some permission, some receiver => return ⟨permission, receiver⟩
  | _, _ => .error (Cause.missingElement a.type).failure

end MethodMarker

/-- A method with a method marker, in its class. -/
structure MarkedMethod where
  owner : ClassDef
  method : Method
  marker : AnnotationBlock

namespace MarkedMethod

/-- The name by which the method is reported. -/
def fullName (m : MarkedMethod) : String :=
  m.owner.name.descriptor ++ "->" ++ m.method.name

/-- Whether the method can replace another one. -/
def isUsable (m : MarkedMethod) : Bool :=
  m.method.isPublic && m.method.isStatic

/-- Decodes the marker of the method. -/
def decode (m : MarkedMethod) : Except Failure MethodMarker :=
  (MethodMarker.ofBlock m.marker).mapError (·.within m.fullName)

/-- What becomes of a marked method. -/
inductive Selection where
  | noReceiver
  | otherReceiver (actual : JavaType)
  | notRequested (r : Redirection)
  | selected (r : Redirection)

/-- The redirection to the method from a method of the class that its first parameter stands for. -/
def redirection (m : MarkedMethod) (receiver : JavaType) (params : List JavaType) :
    Redirection where
  callee := ⟨receiver.descriptor, m.method.name, ⟨params, m.method.proto.result⟩⟩
  replacement := m.owner.methodRef m.method

/-- Decides what becomes of the method, by its parameters and by the permission. -/
def select (requested : PermissionSet) (m : MarkedMethod) (marker : MethodMarker) : Selection :=
  match m.method.proto.params with
  | [] => .noReceiver
  | first :: params =>
    if first ≠ marker.receiver then .otherReceiver first
    else if marker.permission ∈ requested then .selected (m.redirection marker.receiver params)
    else .notRequested (m.redirection marker.receiver params)

/-- The record of what becomes of the method. -/
def Selection.record (m : MarkedMethod) (marker : MethodMarker) : Selection → Log.Record
  | noReceiver => ⟨.warn, .library, "Ignoring " ++ m.fullName ++
      " because its signature is missing the receiver parameter"⟩
  | otherReceiver actual => ⟨.warn, .library, "Ignoring " ++ m.fullName ++
      " because its receiver parameter has type " ++ actual.descriptor ++ " instead of " ++
      marker.receiver.descriptor⟩
  | notRequested r =>
    ⟨.debug, .library, "[" ++ marker.permission ++ "] Skipping redirection " ++ r.text⟩
  | selected r =>
    ⟨.debug, .library, "[" ++ marker.permission ++ "] Adding redirection " ++ r.text⟩

/-- The redirection that is taken over, if one is. -/
def Selection.redirection? : Selection → Option Redirection
  | selected r => some r
  | _ => none

end MarkedMethod

namespace Markers

/-- The classes of a program with the class marker. -/
def markedClasses (ms : Markers) (p : Program) : List ClassDef :=
  p.classes.filter fun c => c.annotations.any (·.hasType ms.classMarker)

/-- The classes that a library offers: the marked ones that are public. -/
def offeredClasses (ms : Markers) (p : Program) : List ClassDef :=
  (ms.markedClasses p).filter (·.isPublic)

/-- The methods of a class with a method marker. Of several markers the first one counts. -/
def markedMethods (ms : Markers) (c : ClassDef) : List MarkedMethod :=
  c.methods.filterMap fun m =>
    (m.annotations.find? (·.hasType ms.methodMarker)).map fun a => ⟨c, m, a⟩

/-- The methods that a library offers: the marked ones of offered classes that are public and
static. -/
def offeredMethods (ms : Markers) (p : Program) : List MarkedMethod :=
  ((ms.offeredClasses p).flatMap ms.markedMethods).filter (·.isUsable)

/-- The offered methods with their markers, if all markers are well formed; else the failure of the
first one that is not. -/
def decodeAll (ms : Markers) (p : Program) : Except Failure (List (MarkedMethod × MethodMarker)) :=
  (ms.offeredMethods p).mapM fun m => do return (m, ← m.decode)

/-- The warnings about marked classes and methods that cannot be offered. -/
def warnings (ms : Markers) (p : Program) : List Log.Record :=
  ((ms.markedClasses p).filter (!·.isPublic)).map (fun c =>
    ⟨.warn, .library, "Ignoring class " ++ c.name.descriptor ++ " because it is not public"⟩) ++
  (((ms.offeredClasses p).flatMap ms.markedMethods).filter (!·.isUsable)).map fun m =>
    ⟨.warn, .library, "Ignoring method " ++ m.fullName ++
      " because it is not static and public"⟩

/-- Takes over the redirections of decoded methods. -/
def addSelected (requested : PermissionSet) (decoded : List (MarkedMethod × MethodMarker))
    (known : Replacements) : Replacements :=
  decoded.foldl
    (fun known (m, marker) =>
      match (m.select requested marker).redirection? with
      | some r => known.add marker.permission r
      | none => known)
    known

/-- Adds what a library offers for the requested permissions to what is known already. -/
def load (ms : Markers) (p : Program) (requested : PermissionSet) (known : Replacements) :
    Logged (Except Failure Replacements) :=
  match ms.decodeAll p with
  | .error f => ⟨.error f, ms.warnings p⟩
  | .ok decoded =>
    let classes := ms.offeredClasses p
    let extended := addSelected requested decoded known
    let records := decoded.map fun (m, marker) => (m.select requested marker).record m marker
    let summary : Log.Record := ⟨.info, .library, "Loaded " ++ toString classes.length ++
      " custom classes and " ++
      toString (extended.redirectionCount - known.redirectionCount) ++ " redirections"⟩
    ⟨.ok (extended.addClasses classes), ms.warnings p ++ records ++ [summary]⟩

end Markers

end GatedCalls
