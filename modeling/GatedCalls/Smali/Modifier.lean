import GatedCalls.Failure

/-!
# Modifiers and visibilities

The words that stand before the name of a class, a field or a method, and those that say how long an
annotation is kept.
-/

namespace GatedCalls

/-- A modifier of a class, a field or a method. -/
inductive Modifier where
  | «public»
  | «private»
  | «protected»
  | static
  | final
  | synchronized
  | volatile
  | bridge
  | transient
  | varargs
  | native
  | interface
  | abstract
  | strict
  | synthetic
  | annotationType
  | enum
  | declaredSynchronized
  deriving DecidableEq, Repr, Inhabited

namespace Modifier

/-- All modifiers. -/
def all : List Modifier :=
  [.public, .private, .protected, .static, .final, .synchronized, .volatile, .bridge, .transient,
    .varargs, .native, .interface, .abstract, .strict, .synthetic, .annotationType, .enum,
    .declaredSynchronized]

/-- The word by which the modifier is written. -/
def word : Modifier → String
  | .public => "public"
  | .private => "private"
  | .protected => "protected"
  | static => "static"
  | final => "final"
  | synchronized => "synchronized"
  | volatile => "volatile"
  | bridge => "bridge"
  | transient => "transient"
  | varargs => "varargs"
  | native => "native"
  | interface => "interface"
  | abstract => "abstract"
  | strict => "strict"
  | synthetic => "synthetic"
  | annotationType => "annotation"
  | enum => "enum"
  | declaredSynchronized => "declared-synchronized"

/-- The modifier that a word stands for. -/
def ofWord? (w : String) : Option Modifier :=
  all.find? fun m => m.word == w

/-- Reads a modifier. -/
def read (w : String) : Except Failure Modifier :=
  match ofWord? w with
  | some m => .ok m
  | none => .error (Cause.modifier w).failure

/-- The word of a modifier is read as that modifier. -/
theorem ofWord?_word (m : Modifier) : ofWord? m.word = some m := by
  cases m <;> decide

end Modifier

/-- How long an annotation is kept. -/
inductive Visibility where
  | build
  | runtime
  | system
  deriving DecidableEq, Repr, Inhabited

namespace Visibility

/-- All visibilities. -/
def all : List Visibility :=
  [build, runtime, system]

/-- The word by which the visibility is written. -/
def word : Visibility → String
  | build => "build"
  | runtime => "runtime"
  | system => "system"

/-- The visibility that a word stands for. -/
def ofWord? (w : String) : Option Visibility :=
  all.find? fun v => v.word == w

/-- Reads a visibility. -/
def read (w : String) : Except Failure Visibility :=
  match ofWord? w with
  | some v => .ok v
  | none => .error (Cause.visibility w).failure

/-- The word of a visibility is read as that visibility. -/
theorem ofWord?_word (v : Visibility) : ofWord? v.word = some v := by
  cases v <;> decide

end Visibility

end GatedCalls
