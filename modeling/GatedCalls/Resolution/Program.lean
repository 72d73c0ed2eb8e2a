import GatedCalls.Program
import GatedCalls.Resolution.Pass
import GatedCalls.Resolution.Site

/-!
# Resolving the calls of programs

A resolution goes over the bodies of all methods, puts in the place of each call site what its
verdict puts there, and keeps a ledger of the verdicts. Methods and classes in which no site changes
are kept; `Resolution.kept` tells which classes these are.
-/

namespace GatedCalls

/-- How many call sites got each verdict. -/
structure Tally where
  redirected : Nat
  removed : Nat
  unresolved : Nat
  deriving DecidableEq, Repr, Inhabited

namespace Tally

/-- Nothing has been counted. -/
def zero : Tally :=
  ⟨0, 0, 0⟩

/-- Counts one more verdict. -/
def count (t : Tally) : Verdict → Tally
  | .redirected _ => { t with redirected := t.redirected + 1 }
  | .removed => { t with removed := t.removed + 1 }
  | .unresolved => { t with unresolved := t.unresolved + 1 }

/-- Whether no gated call was left in place. -/
def isClean (t : Tally) : Bool :=
  t.unresolved == 0

/-- The record that sums up a resolution. -/
def record (t : Tally) : Log.Record :=
  ⟨if t.isClean then .info else .error, .resolution, toString t.redirected ++
    " calls redirected, " ++ toString t.removed ++ " calls removed, " ++ toString t.unresolved ++
    " calls unresolved"⟩

end Tally

/-- What a resolution keeps of the call sites that it has come past: their number for each verdict,
and their records. -/
structure Ledger where
  tally : Tally
  log : Array Log.Record

namespace Ledger

/-- No call site has been met. -/
def empty : Ledger :=
  ⟨.zero, #[]⟩

/-- Enters a call site of the method `caller`. -/
def enter (caller : MethodRef) (l : Ledger) (s : CallSite) : Ledger :=
  ⟨l.tally.count s.verdict, l.log ++ s.records caller⟩

end Ledger

/-- A program whose gated calls have been resolved. -/
structure Resolution where
  program : Program
  /-- For each class, whether it was kept as it was. -/
  kept : List Bool
  tally : Tally

namespace Resolver

/-- Visits an entry of the body of the method `caller`: a call site is entered into the ledger and
gives way unless its verdict keeps it. -/
def visitItem (r : Resolver) (caller : MethodRef) (l : Ledger) (item : BodyItem) :
    Ledger × Option (List BodyItem) :=
  match r.site? item with
  | none => (l, none)
  | some site => (l.enter caller site, if site.verdict.keeps then none else some site.resolved)

/-- The method of the class with its calls resolved, or nothing if its body stays as it is. -/
def resolveMethod (r : Resolver) (c : ClassDef) (l : Ledger) (m : Method) :
    Ledger × Option Method :=
  let (l, body?) := rewriteList (r.visitItem (c.methodRef m)) l m.body
  (l, body?.map fun body => { m with body })

/-- Visits a method of the class; one without code is not looked into. -/
def visitMethod (r : Resolver) (c : ClassDef) (l : Ledger) (m : Method) :
    Ledger × Option (List Method) :=
  if m.hasBody then
    let (l, new?) := r.resolveMethod c l m
    (l, new?.map ([·]))
  else (l, none)

/-- The class with its calls resolved, or nothing if all its methods stay as they are. -/
def resolveClass (r : Resolver) (l : Ledger) (c : ClassDef) : Ledger × Option ClassDef :=
  let (l, methods?) := rewriteList (r.visitMethod c) l c.methods
  (l, methods?.map fun methods => { c with methods })

/-- Each of the classes with what the resolution puts in its place, if it does not stay as it is. -/
def resolveClasses (r : Resolver) (l : Ledger) :
    List ClassDef → Ledger × List (ClassDef × Option ClassDef)
  | [] => (l, [])
  | c :: cs =>
    let (l, new?) := r.resolveClass l c
    let (l, rest) := r.resolveClasses l cs
    (l, (c, new?) :: rest)

/-- Resolves the gated calls of a program. -/
def resolve (r : Resolver) (p : Program) : Logged Resolution :=
  let (l, classes) := r.resolveClasses .empty p.classes
  ⟨{ program := { p with classes := classes.map fun (c, new?) => new?.getD c }
     kept := classes.map fun (_, new?) => new?.isNone
     tally := l.tally },
    l.log.toList ++ [l.tally.record]⟩

end Resolver

end GatedCalls
