import GatedCalls.Descriptor.ClassName
import GatedCalls.Text.Reader.Repetition

/-!
# Types and their descriptors

A type is an array of some type, a class, or one of the nine primitive types, `void` among them. Its
descriptor is the spelling of class files: `[I` is an array of `int`. `reader` takes a descriptor
off a text; it needs no separator to know where the descriptor ends. The spelling of Java source has
the brackets behind: `int[]`.
-/

namespace GatedCalls

open Text

/-- The primitive types, in the order in which types are sorted. -/
inductive Primitive where
  | int
  | boolean
  | byte
  | char
  | short
  | long
  | float
  | double
  | void
  deriving DecidableEq, Repr, Inhabited

namespace Primitive

/-- All primitive types, in order. -/
def all : List Primitive :=
  [int, boolean, byte, char, short, long, float, double, void]

/-- The letter that stands for the type in a descriptor. -/
def letter : Primitive → Char
  | int => 'I'
  | boolean => 'Z'
  | byte => 'B'
  | char => 'C'
  | short => 'S'
  | long => 'J'
  | float => 'F'
  | double => 'D'
  | void => 'V'

/-- The word that stands for the type in Java source. -/
def keyword : Primitive → String
  | int => "int"
  | boolean => "boolean"
  | byte => "byte"
  | char => "char"
  | short => "short"
  | long => "long"
  | float => "float"
  | double => "double"
  | void => "void"

/-- The place of the type in the order. -/
def rank : Primitive → Nat
  | int => 0
  | boolean => 1
  | byte => 2
  | char => 3
  | short => 4
  | long => 5
  | float => 6
  | double => 7
  | void => 8

/-- The type that a letter stands for. -/
def ofLetter? (c : Char) : Option Primitive :=
  all.find? fun p => p.letter == c

/-- The type that a word of Java source stands for. -/
def ofKeyword? (word : String) : Option Primitive :=
  all.find? fun p => p.keyword == word

instance : Ord Primitive where
  compare := compareOn rank

/-- Different primitive types have different ranks. -/
theorem rank_injective {p q : Primitive} (h : p.rank = q.rank) : p = q := by
  cases p <;> cases q <;> first | rfl | simp [rank] at h

instance : Std.TransOrd Primitive :=
  inferInstanceAs (Std.TransCmp (compareOn rank))

instance : Std.LawfulEqOrd Primitive where
  eq_of_compare h := rank_injective (Std.LawfulEqOrd.eq_of_compare h)

/-- The letter of a primitive type is read as that type. -/
@[simp] theorem ofLetter?_letter (p : Primitive) : ofLetter? p.letter = some p := by
  cases p <;> rfl

end Primitive

/-- A type: an array, a class or a primitive type. -/
inductive JavaType where
  | array (element : JavaType)
  | object (name : ClassName)
  | primitive (p : Primitive)
  deriving DecidableEq, Repr, Inhabited

namespace JavaType

/-- The type of a method that returns nothing. -/
abbrev void : JavaType :=
  primitive .void

/-- The spelling of class files. -/
def descriptor : JavaType → String
  | array t => "[" ++ t.descriptor
  | object c => c.descriptor
  | primitive p => p.letter.toString

/-- The spelling of Java source. -/
def javaName : JavaType → String
  | array t => t.javaName ++ "[]"
  | object c => c.javaName
  | primitive p => p.keyword

/-- Whether the character may stand in the name of a class inside a descriptor. -/
def isNameChar (c : Char) : Bool :=
  c != ';' && c != '\n'

/-- Takes a type descriptor. -/
def reader : Reader JavaType
  | 'L' :: s =>
    match Reader.run1 isNameChar s with
    | .ok (name, ';' :: rest) => .ok (object ⟨String.ofList name⟩, rest)
    | .ok (_, rest) => .error rest
    | .error e => .error e
  | '[' :: s =>
    match reader s with
    | .ok (t, rest) => .ok (array t, rest)
    | .error e => .error e
  | c :: s =>
    match Primitive.ofLetter? c with
    | some p => .ok (primitive p, s)
    | none => .error (c :: s)
  | [] => .error []

/-- Reading a descriptor moves forward. -/
theorem forward_reader : reader.Forward where
  ok {s t rest} h := by
    fun_induction reader s generalizing t with
    | case1 s name u hrun =>
      cases h
      have hu := (Reader.forward_run1 _).ok hrun
      exact ((List.suffix_cons _ _).trans hu).trans (List.suffix_cons _ _)
    | case4 s t' u hread ih =>
      cases h
      exact (ih hread).trans (List.suffix_cons _ _)
    | case6 c s =>
      cases h
      exact List.suffix_cons _ _
    | _ => contradiction
  error {s e} h := by
    fun_induction reader s generalizing e with
    | case2 s name u _ hrun =>
      cases h
      exact ((Reader.forward_run1 _).ok hrun).trans (List.suffix_cons _ _)
    | case3 s u hrun =>
      cases h
      exact ((Reader.forward_run1 _).error hrun).trans (List.suffix_cons _ _)
    | case5 s u hread ih =>
      cases h
      exact (ih hread).trans (List.suffix_cons _ _)
    | case7 c s =>
      cases h
      exact List.suffix_refl _
    | case8 =>
      cases h
      exact List.suffix_refl _
    | _ => contradiction

/-- A descriptor has at least one character. -/
theorem progresses_reader : reader.Progresses where
  lt {s t rest} := by
    fun_cases reader s with
    | case1 s name u hrun =>
      intro h
      cases h
      have := (Reader.forward_run1 _).length_le hrun
      exact Nat.lt_succ_of_lt this
    | case4 s t' u hread =>
      intro h
      cases h
      exact Nat.lt_succ_of_le (forward_reader.length_le hread)
    | case6 c s =>
      intro h
      cases h
      exact Nat.lt_succ_self _
    | _ => intro h; contradiction

/-- Reads a whole descriptor, with blanks around it. -/
def ofDescriptor? (text : String) : Option JavaType :=
  reader.whole? (trim text.toList)

/-- Reads the spelling of Java source, with blanks around every part of it. Only a text without a
name has no type: any name that is no word for a primitive type names a class. -/
def ofJavaChars? (s : List Char) : Option JavaType :=
  match _h : (trim s).reverse with
  | ']' :: '[' :: name => (ofJavaChars? name.reverse).map array
  | [] => none
  | name =>
    match Primitive.ofKeyword? (String.ofList name.reverse) with
    | some p => some (primitive p)
    | none => some (object (ClassName.ofJavaName (String.ofList name.reverse)))
termination_by s.length
decreasing_by
  have := congrArg List.length _h
  have := length_trim_le s
  simp only [List.length_reverse, List.length_cons] at *
  omega

/-- Reads the spelling of Java source. -/
def ofJavaName? (text : String) : Option JavaType :=
  ofJavaChars? text.toList

/-! ### Order -/

/-- Arrays come first, then classes, then primitive types; within each kind, what is inside
decides. -/
protected def compare : JavaType → JavaType → Ordering
  | array s, array t => JavaType.compare s t
  | array _, _ => .lt
  | object _, array _ => .gt
  | object c, object d => Ord.compare c d
  | object _, primitive _ => .lt
  | primitive p, primitive q => Ord.compare p q
  | primitive _, _ => .gt

instance : Ord JavaType where
  compare := JavaType.compare

/-- The order of two types turns round when the types change places. -/
theorem compare_swap (a b : JavaType) : JavaType.compare a b = (JavaType.compare b a).swap := by
  induction a generalizing b with
  | array s ih =>
    cases b with
    | array t => exact ih t
    | object d => rfl
    | primitive q => rfl
  | object c =>
    cases b with
    | array t => rfl
    | object d => exact Std.OrientedOrd.eq_swap
    | primitive q => rfl
  | primitive p =>
    cases b with
    | array t => rfl
    | object d => rfl
    | primitive q => exact Std.OrientedOrd.eq_swap

/-- The order of types is transitive. -/
theorem compare_isLE_trans {a b c : JavaType} (hab : (JavaType.compare a b).isLE)
    (hbc : (JavaType.compare b c).isLE) : (JavaType.compare a c).isLE := by
  induction a generalizing b c with
  | array s ih =>
    cases c with
    | array u =>
      cases b with
      | array t => exact ih hab hbc
      | object d => exact absurd hbc Bool.false_ne_true
      | primitive q => exact absurd hbc Bool.false_ne_true
    | object e => rfl
    | primitive r => rfl
  | object d =>
    cases b with
    | array t => exact absurd hab Bool.false_ne_true
    | object d' =>
      cases c with
      | array u => exact absurd hbc Bool.false_ne_true
      | object e => exact Std.TransOrd.isLE_trans hab hbc
      | primitive r => rfl
    | primitive q =>
      cases c with
      | array u => exact absurd hbc Bool.false_ne_true
      | object e => exact absurd hbc Bool.false_ne_true
      | primitive r => rfl
  | primitive p =>
    cases b with
    | array t => exact absurd hab Bool.false_ne_true
    | object d => exact absurd hab Bool.false_ne_true
    | primitive q =>
      cases c with
      | array u => exact absurd hbc Bool.false_ne_true
      | object e => exact absurd hbc Bool.false_ne_true
      | primitive r => exact Std.TransOrd.isLE_trans hab hbc

/-- Only equal types stand at the same place of the order. -/
theorem eq_of_compare_eq {a b : JavaType} (h : JavaType.compare a b = .eq) : a = b := by
  induction a generalizing b with
  | array s ih =>
    cases b with
    | array t => exact congrArg array (ih h)
    | object d => contradiction
    | primitive q => contradiction
  | object c =>
    cases b with
    | array t => contradiction
    | object d => exact congrArg object (Std.LawfulEqOrd.eq_of_compare h)
    | primitive q => contradiction
  | primitive p =>
    cases b with
    | array t => contradiction
    | object d => contradiction
    | primitive q => exact congrArg primitive (Std.LawfulEqOrd.eq_of_compare h)

/-- A type stands at its own place of the order. -/
theorem compare_self (a : JavaType) : JavaType.compare a a = .eq := by
  induction a with
  | array s ih => exact ih
  | object c => exact Std.ReflOrd.compare_self
  | primitive p => exact Std.ReflOrd.compare_self

instance : Std.TransOrd JavaType where
  eq_swap := compare_swap _ _
  isLE_trans := compare_isLE_trans

instance : Std.LawfulEqOrd JavaType where
  compare_self := compare_self _
  eq_of_compare := eq_of_compare_eq

end JavaType

end GatedCalls
