import GatedCalls.Smali.Modifier
import GatedCalls.Smali.StringLiteral
import GatedCalls.Text.Line

/-!
# Annotations

An annotation has a visibility, a type and named elements. The value of an element is a single line,
a list of items in braces, a constant of an enumeration, or another annotation. Strings keep the
quotes and the escapes with which they are written.
-/

namespace GatedCalls

mutual

/-- An annotation. -/
structure AnnotationBlock where
  visibility : Visibility
  type : JavaType
  elements : List Element

/-- A named value in an annotation. -/
structure Element where
  name : String
  value : ElementValue

/-- The value of an element of an annotation. -/
inductive ElementValue where
  | single (text : String)
  | array (items : List String)
  | nested (a : AnnotationBlock)
  | constant (owner : ClassName) (name : String)

end

deriving instance Repr for AnnotationBlock, Element, ElementValue

mutual

/-- Equality of annotations is decidable. -/
def AnnotationBlock.decEq : (a b : AnnotationBlock) → Decidable (a = b)
  | ⟨v, t, es⟩, ⟨v', t', es'⟩ =>
    if h : v = v' ∧ t = t' then
      match Element.decEqList es es' with
      | isTrue he => isTrue (by rw [h.1, h.2, he])
      | isFalse he => isFalse fun e => he (AnnotationBlock.mk.inj e).2.2
    else isFalse fun e => h ⟨(AnnotationBlock.mk.inj e).1, (AnnotationBlock.mk.inj e).2.1⟩

/-- Equality of lists of elements is decidable. -/
def Element.decEqList : (as bs : List Element) → Decidable (as = bs)
  | [], [] => isTrue rfl
  | [], _ :: _ => isFalse nofun
  | _ :: _, [] => isFalse nofun
  | a :: as, b :: bs =>
    match Element.decEq a b with
    | isFalse h => isFalse fun e => h (List.cons.inj e).1
    | isTrue h =>
      match Element.decEqList as bs with
      | isTrue hs => isTrue (by rw [h, hs])
      | isFalse hs => isFalse fun e => hs (List.cons.inj e).2

/-- Equality of elements is decidable. -/
def Element.decEq : (a b : Element) → Decidable (a = b)
  | ⟨n, v⟩, ⟨n', v'⟩ =>
    if h : n = n' then
      match ElementValue.decEq v v' with
      | isTrue hv => isTrue (by rw [h, hv])
      | isFalse hv => isFalse fun e => hv (Element.mk.inj e).2
    else isFalse fun e => h (Element.mk.inj e).1

/-- Equality of values of elements is decidable. -/
def ElementValue.decEq : (a b : ElementValue) → Decidable (a = b)
  | .single s, .single t =>
    if h : s = t then isTrue (by rw [h]) else isFalse fun e => h (ElementValue.single.inj e)
  | .array s, .array t =>
    if h : s = t then isTrue (by rw [h]) else isFalse fun e => h (ElementValue.array.inj e)
  | .nested a, .nested b =>
    match AnnotationBlock.decEq a b with
    | isTrue h => isTrue (by rw [h])
    | isFalse h => isFalse fun e => h (ElementValue.nested.inj e)
  | .constant o c, .constant o' c' =>
    if h : o = o' ∧ c = c' then isTrue (by rw [h.1, h.2])
    else isFalse fun e => h ⟨(ElementValue.constant.inj e).1, (ElementValue.constant.inj e).2⟩
  | .single _, .array _ | .single _, .nested _ | .single _, .constant _ _ => isFalse nofun
  | .array _, .single _ | .array _, .nested _ | .array _, .constant _ _ => isFalse nofun
  | .nested _, .single _ | .nested _, .array _ | .nested _, .constant _ _ => isFalse nofun
  | .constant _ _, .single _ | .constant _ _, .array _ | .constant _ _, .nested _ => isFalse nofun

end

instance : DecidableEq AnnotationBlock := AnnotationBlock.decEq
instance : DecidableEq Element := Element.decEq
instance : DecidableEq ElementValue := ElementValue.decEq

instance : Inhabited AnnotationBlock := ⟨⟨default, default, []⟩⟩

/-- The text of a value that is a string literal. -/
def ElementValue.asString? : ElementValue → Option String
  | single text => StringLiteral.value? text
  | _ => none

/-- Whether the annotation has the type with the given descriptor. -/
def AnnotationBlock.hasType (a : AnnotationBlock) (descriptor : String) : Bool :=
  a.type.descriptor == descriptor

/-! ### Printing -/

/-- The first word of an annotation, inside another one or not. -/
def AnnotationBlock.openingWord (nested : Bool) : String :=
  if nested then ".subannotation" else ".annotation"

/-- The words that end an annotation, inside another one or not. -/
def AnnotationBlock.closingWord (nested : Bool) : String :=
  if nested then ".end subannotation" else ".end annotation"

/-- One level of indentation. -/
def inset : String := "    "

/-- Prints the items of an array, each on lines of its own and set in two levels, with a comma
behind each but the last one. -/
def ElementValue.printItems (indent : String) (items : List String) : String :=
  ",".intercalate (items.map fun item =>
    String.join ((Text.linesOf item).map fun line => "\n" ++ indent ++ inset ++ inset ++ line))

mutual

/-- Prints an annotation. The first line of a nested one stands behind an equals sign, so it is not
indented and names no visibility. -/
def AnnotationBlock.print (nested : Bool) (indent : String) : AnnotationBlock → String
  | ⟨visibility, type, elements⟩ =>
    (if nested then AnnotationBlock.openingWord true ++ " "
      else indent ++ AnnotationBlock.openingWord false ++ " " ++ visibility.word ++ " ") ++
      type.descriptor ++ "\n" ++ Element.printList indent elements ++ indent ++
      AnnotationBlock.closingWord nested ++ "\n"

/-- Prints the elements of an annotation. -/
def Element.printList (indent : String) : List Element → String
  | [] => ""
  | e :: es => e.print indent ++ Element.printList indent es

/-- Prints an element of an annotation. -/
def Element.print (indent : String) : Element → String
  | ⟨name, value⟩ => indent ++ inset ++ name ++ " = " ++ value.print indent

/-- Prints the value of an element, up to the end of its last line. -/
def ElementValue.print (indent : String) : ElementValue → String
  | .single text => text ++ "\n"
  | .array items =>
    "\x7b" ++ ElementValue.printItems indent items ++ "\n" ++ indent ++ inset ++ "\x7d\n"
  | .nested a => a.print true (indent ++ inset)
  | .constant owner name =>
    ".enum " ++ owner.descriptor ++ "->" ++ name ++ ":" ++ owner.descriptor ++ "\n"

end

end GatedCalls
