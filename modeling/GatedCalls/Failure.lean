import GatedCalls.Descriptor.MethodRef
import GatedCalls.Disk.Fault

/-!
# Failures

A failure is a cause together with the places where it happened, the innermost first: a method, a
class file, a directory. The cause says what went wrong as data; `Cause.message` is its only
wording.
-/

namespace GatedCalls

/-- What went wrong. -/
inductive Cause where
  /-- The text is no type descriptor. -/
  | typeDescriptor (text : String)
  /-- The text is no descriptor of a prototype. -/
  | protoDescriptor (text : String)
  /-- The text is no method reference. -/
  | methodReference (text : String)
  /-- A Java type has no name. -/
  | emptyJavaName
  /-- The word is no modifier. -/
  | modifier (word : String)
  /-- The word is no visibility of annotations. -/
  | visibility (word : String)
  /-- A smali document cannot be read from this line on. -/
  | line (number : Nat) (text : String)
  /-- A smali document does not say which class it defines. -/
  | noClassLine
  /-- A line of a permission table has the wrong form. -/
  | tableLine (number : Nat) (text : String)
  /-- A method is entered into a permission table without a permission. -/
  | noPermissions (method : MethodRef)
  /-- An element of a marker does not hold a string. -/
  | elementNotString (name : String) (marker : JavaType)
  /-- A marker has an element that means nothing. -/
  | unexpectedElement (name : String) (marker : JavaType)
  /-- A marker lacks one of its two elements. -/
  | missingElement (marker : JavaType)
  /-- Two classes of a program have the same name. -/
  | duplicateClass (name : ClassName)
  /-- A replacement class has the name of a class of the application. -/
  | replacementClash (name : ClassName)
  /-- The file of a permission table cannot be read. -/
  | loadingTable (path : String) (fault : Disk.Fault)
  /-- The file of a class cannot be read. -/
  | loadingFile (path : String) (fault : Disk.Fault)
  /-- The file of a class cannot be written. -/
  | writingFile (path : String) (fault : Disk.Fault)
  /-- A directory cannot be listed. -/
  | readingDirectory (path : String) (fault : Disk.Fault)
  /-- A directory cannot be made. -/
  | creatingDirectory (path : String) (fault : Disk.Fault)
  /-- A directory that is in the way cannot be removed. -/
  | removing (path : String) (fault : Disk.Fault)
  /-- A finished directory cannot be moved to where it belongs. -/
  | moving (source target : String) (fault : Disk.Fault)
  /-- A program is to be read from something that is no directory. -/
  | notDirectory (path : String)
  /-- A program is to be written to a directory that holds something. -/
  | outputNotEmpty (path : String)
  /-- A program is to be written to a path that ends in no name. -/
  | outputUnnamed (path : String)
  /-- The report of a removal cannot be written. -/
  | writingReport (path : String) (fault : Disk.Fault)
  deriving DecidableEq, Repr

/-- The wording of a cause. -/
def Cause.message : Cause → String
  | typeDescriptor s => "Could not parse type descriptor " ++ s
  | protoDescriptor s => "Could not parse method descriptor " ++ s
  | methodReference s => "Could not parse method reference " ++ s
  | emptyJavaName => "Empty Java type name"
  | modifier word => "Unknown modifier " ++ word
  | visibility word => "Unknown annotation visibility " ++ word
  | line n text => "Unable to parse line " ++ toString n ++ " `" ++ text ++ "`"
  | noClassLine => "Missing .class directive"
  | tableLine n text =>
    "Malformed permission table entry on line " ++ toString n ++ ": `" ++ text ++ "`"
  | noPermissions m => "No permissions given for " ++ m.text
  | elementNotString name marker =>
    "Element " ++ name ++ " of " ++ marker.descriptor ++ " is not a string"
  | unexpectedElement name marker =>
    "Unexpected element " ++ name ++ " in " ++ marker.descriptor
  | missingElement marker =>
    marker.descriptor ++ " needs both a permission and a defClass element"
  | duplicateClass name => "Class " ++ name.descriptor ++ " is defined more than once"
  | replacementClash name =>
    "Class " ++ name.descriptor ++
      " is defined by both the application and a replacement library"
  | loadingTable path fault => "Error loading permission table " ++ path ++ ": " ++ fault.text
  | loadingFile path fault => "Error loading file " ++ path ++ ": " ++ fault.text
  | writingFile path fault => "Error writing file " ++ path ++ ": " ++ fault.text
  | readingDirectory path fault => "Error reading directory " ++ path ++ ": " ++ fault.text
  | creatingDirectory path fault => "Error creating directory " ++ path ++ ": " ++ fault.text
  | removing path fault => "Error removing " ++ path ++ ": " ++ fault.text
  | moving source target fault =>
    "Error moving " ++ source ++ " to " ++ target ++ ": " ++ fault.text
  | notDirectory path => "Module path " ++ path ++ " is not a directory"
  | outputNotEmpty path => "Output directory " ++ path ++ " is not empty"
  | outputUnnamed path => "Output path " ++ path ++ " has no directory name"
  | writingReport path fault => "writing report " ++ path ++ ": " ++ fault.text

/-- A cause with the places where it happened, the innermost first. -/
structure Failure where
  cause : Cause
  places : List String
  deriving DecidableEq, Repr

namespace Failure

/-- The sentence that names a message and its places, the innermost first. -/
def describe (message : String) : List String → String
  | [] => message
  | place :: places =>
    places.foldl (fun text outer => text ++ " of " ++ outer) (message ++ " for " ++ place)

/-- The text by which a failure is reported. -/
def text (f : Failure) : String :=
  describe f.cause.message f.places

/-- The failure, seen from one place further out. -/
def within (place : String) (f : Failure) : Failure :=
  { f with places := f.places ++ [place] }

end Failure

/-- A cause is a failure with no place yet. -/
def Cause.failure (c : Cause) : Failure :=
  ⟨c, []⟩

end GatedCalls
