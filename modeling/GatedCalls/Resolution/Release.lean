import GatedCalls.Redirection.Basic
import GatedCalls.Resolution.Program

/-!
# Releases

A release is an application with its gated calls resolved, together with the replacement classes
that its calls are sent to, which come first. No two of its classes may have the same name.
-/

namespace GatedCalls

/-- A program to be written out, with the counters of the resolution that led to it. -/
structure Release where
  program : Program
  tally : Tally

namespace Release

/-- The first replacement class that has the name of a class of the application. -/
def clash? (rs : Replacements) (target : Program) : Option ClassDef :=
  let taken : Std.ExtTreeSet ClassName := .ofList target.names
  rs.classes.find? fun c => taken.contains c.name

/-- Resolves the calls of an application by the redirections of the libraries and puts their classes
in front. -/
def build (target : Program) (rs : Replacements) (permissions : PermissionTable)
    (removesVoid : Bool) : Logged (Except Failure Release) :=
  match clash? rs target with
  | some c => ⟨.error (Cause.replacementClash c.name).failure, []⟩
  | none =>
    let table := RedirectionTable.merge rs
    let resolution := Resolver.resolve ⟨permissions, table.value, removesVoid⟩ target
    let program : Program :=
      { resolution.value.program with classes := rs.classes ++ resolution.value.program.classes }
    ⟨program.checkUnique.map fun _ => ⟨program, resolution.value.tally⟩,
      table.log ++ resolution.log⟩

end Release

end GatedCalls
