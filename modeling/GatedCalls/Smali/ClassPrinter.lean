import GatedCalls.Smali.ClassDef

/-!
# Printing classes

The smali text of a class, in a fixed layout: the header, then interfaces, annotations, fields and
methods, each part under a comment and left out where it is empty.
-/

namespace GatedCalls

/-- Prints modifiers, each with a blank behind it. -/
def Modifier.printList (ms : List Modifier) : String :=
  String.join (ms.map fun m => m.word ++ " ")

/-- Prints the lines of a directive. The inner lines of a block are set in one level further. -/
def BodyItem.printDirective (text : String) : String :=
  let lines := Text.linesOf text
  let last := lines.length - 1
  String.join (lines.zipIdx.map fun (l, i) =>
    (if i = 0 ∨ i = last then "    " else "        ") ++ l ++ "\n")

/-- Prints an entry of the body of a method. A blank line follows an instruction. -/
def BodyItem.print : BodyItem → String
  | label name => "    " ++ Label.text name ++ "\n"
  | line n => "    .line " ++ toString n.toNat ++ "\n"
  | directive text => printDirective text
  | instruction i => "    " ++ i.text ++ "\n\n"

/-- Prints a method with its code. -/
def Method.print (m : Method) : String :=
  ".method " ++ Modifier.printList m.modifiers ++
    (if m.isConstructor then "constructor " else "") ++ m.name ++ m.proto.descriptor ++ "\n" ++
    (match m.locals with
      | some n => "    .locals " ++ toString n.toNat ++ "\n"
      | none => "") ++
    String.join (m.annotations.map (·.print false "    ")) ++
    String.join (m.body.map BodyItem.print) ++ ".end method\n\n"

/-- Prints a field. Its annotations are closed off from those of the class. -/
def Field.print (f : Field) : String :=
  ".field " ++ Modifier.printList f.modifiers ++ f.name ++ ":" ++ f.type.descriptor ++
    (match f.initial with
      | some value => " = " ++ value
      | none => "") ++
    "\n" ++
    (if f.annotations.isEmpty then ""
      else String.join (f.annotations.map (·.print false "    ")) ++ ".end field\n") ++
    "\n"

namespace ClassDef

/-- Prints a part of a class under its title, unless the part is empty. -/
def printPart (title : String) (items : List String) : String :=
  if items.isEmpty then "" else "\n# " ++ title ++ "\n" ++ String.join items

/-- Prints a class. -/
def print (c : ClassDef) : String :=
  ".class " ++ Modifier.printList c.modifiers ++ c.name.descriptor ++ "\n" ++
    (match c.superclass with
      | some s => ".super " ++ s.descriptor ++ "\n"
      | none => "") ++
    (match c.source with
      | some s => ".source \"" ++ s ++ "\"\n"
      | none => "") ++
    printPart "interfaces" (c.interfaces.map fun i => ".implements " ++ i.descriptor ++ "\n") ++
    printPart "annotations" (c.annotations.map fun a => a.print false "" ++ "\n") ++
    printPart "fields" (c.fields.map Field.print) ++
    printPart "methods" (c.methods.map Method.print)

end ClassDef

end GatedCalls
