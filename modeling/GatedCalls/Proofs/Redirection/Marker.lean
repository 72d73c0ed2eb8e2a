import GatedCalls.Proofs.Descriptor.JavaName
import GatedCalls.Redirection.Library
import Mathlib.Data.List.Induction
import Mathlib.Tactic.Push

/-!
# Which method markers can be decoded, and to what

A marker is decoded element by element, and each element that cannot be read is a failure, also one
that a later element of the same name would have replaced. So a marker can be decoded if and only if
all its elements are fit and both of its elements are there (`MethodMarker.exists_ofBlock_eq_ok`),
and a class is unreadable exactly if nothing is left of its name (`JavaType.readJavaName_eq_error`).
What is decoded is what the last elements of the two names say (`MethodMarker.ofBlock_eq_ok`).
-/

namespace GatedCalls

open Text

/-- Whether an element can stand in a marker: it holds a string, its name is one of the two that
mean something, and if it names a class, something is left of the name. -/
structure Element.IsFit (e : Element) (value : String) : Prop where
  /-- The element holds the string. -/
  holds : e.value.asString? = some value
  /-- Its name means something. -/
  named : e.name = "permission" ∨ e.name = "defClass"
  /-- Of the name of a class something is left without blanks and brackets. -/
  names : e.name = "defClass" → ¬LeavesNothing value.toList

/-- Whether an annotation cannot be decoded as a marker: an element holds no string, means nothing
or names no class, or one of the two elements is missing. -/
def AnnotationBlock.IsMalformedMarker (a : AnnotationBlock) : Prop :=
  (∃ e ∈ a.elements, e.value.asString? = none) ∨
  (∃ e ∈ a.elements, e.name ≠ "permission" ∧ e.name ≠ "defClass") ∨
  (∃ e ∈ a.elements, e.name = "defClass" ∧
    ∃ value, e.value.asString? = some value ∧ LeavesNothing value.toList) ∨
  (∀ e ∈ a.elements, e.name ≠ "permission") ∨
  (∀ e ∈ a.elements, e.name ≠ "defClass")

/-- An annotation is well formed as a marker if all its elements are fit and both are there. -/
theorem AnnotationBlock.not_isMalformedMarker {a : AnnotationBlock} :
    ¬a.IsMalformedMarker ↔ (∀ e ∈ a.elements, ∃ value, e.IsFit value) ∧
      (∃ e ∈ a.elements, e.name = "permission") ∧ ∃ e ∈ a.elements, e.name = "defClass" := by
  unfold IsMalformedMarker
  push Not
  constructor
  · rintro ⟨hstring, hnamed, hclass, hpermission, hreceiver⟩
    refine ⟨fun e he => ?_, hpermission, hreceiver⟩
    obtain ⟨value, hvalue⟩ := Option.ne_none_iff_exists'.mp (hstring e he)
    exact ⟨value, hvalue, or_iff_not_imp_left.mpr (hnamed e he),
      fun hname => hclass e he hname value hvalue⟩
  · rintro ⟨hfit, hpermission, hreceiver⟩
    refine ⟨fun e he => ?_, fun e he hname => ?_, fun e he hname value hvalue => ?_, hpermission,
      hreceiver⟩
    · obtain ⟨value, hvalue⟩ := hfit e he
      simp [hvalue.holds]
    · obtain ⟨value, hvalue⟩ := hfit e he
      exact hvalue.named.resolve_left hname
    · obtain ⟨value', hvalue'⟩ := hfit e he
      obtain rfl : value' = value := Option.some.inj (hvalue'.holds.symm.trans hvalue)
      exact hvalue'.names hname

/-! ### What the last element says -/

namespace Element

/-- The text that the last of the elements with a name holds. -/
def lastText? (es : List Element) (name : String) : Option String :=
  (es.filter (·.name = name)).getLast?.bind (·.value.asString?)

/-- An element behind the others is the last one of its name. -/
theorem lastText?_concat (es : List Element) (e : Element) (name : String) :
    lastText? (es ++ [e]) name =
      if e.name = name then e.value.asString? else lastText? es name := by
  by_cases hname : e.name = name <;> simp [lastText?, hname]

/-- The text is held by one of the elements with the name. -/
theorem exists_of_lastText? {es : List Element} {name value : String}
    (h : lastText? es name = some value) :
    ∃ e ∈ es, e.name = name ∧ e.value.asString? = some value := by
  obtain ⟨e, hlast, hvalue⟩ := Option.bind_eq_some_iff.mp h
  have hmem := List.mem_filter.mp (List.mem_of_getLast? hlast)
  exact ⟨e, hmem.1, by simpa using hmem.2, hvalue⟩

/-- Among fit elements there is such a text if one of them has the name. -/
theorem exists_lastText? {es : List Element} (h : ∀ e ∈ es, ∃ value, e.IsFit value) {name : String}
    (hname : ∃ e ∈ es, e.name = name) : ∃ value, lastText? es name = some value := by
  obtain ⟨e, he, hname⟩ := hname
  have hne : es.filter (·.name = name) ≠ [] :=
    List.ne_nil_of_mem (List.mem_filter.mpr ⟨he, by simpa using hname⟩)
  have hlast := List.getLast?_eq_some_getLast hne
  obtain ⟨value, hvalue⟩ := h _ (List.mem_filter.mp (List.mem_of_getLast? hlast)).1
  exact ⟨value, by rw [lastText?, hlast, Option.bind_some, hvalue.holds]⟩

end Element

/-! ### Decoding -/

namespace MethodMarker

variable {type : JavaType}

namespace Draft

/-- An element is read exactly if it is fit, and then what it says takes the place of what was said
under its name. -/
theorem addElement_eq_ok {known found : Draft} {e : Element} :
    addElement type known e = .ok found ↔ ∃ value, e.IsFit value ∧
      found.permission = (if e.name = "permission" then some value else known.permission) ∧
      found.receiver =
        if e.name = "defClass" then JavaType.ofJavaName? value else known.receiver := by
  obtain ⟨permission?, receiver?⟩ := found
  constructor
  · intro h
    unfold addElement at h
    split at h
    case h_1 => cases h
    case h_2 value hvalue =>
      split at h
      case isTrue hname =>
        cases h
        exact ⟨value, ⟨hvalue, .inl hname, by simp [hname]⟩, by simp [hname], by simp [hname]⟩
      case isFalse =>
        split at h
        case isFalse => cases h
        case isTrue hname =>
          cases hread : JavaType.readJavaName value with
          | error f =>
            rw [hread] at h
            cases h
          | ok receiver =>
            rw [hread] at h
            cases h
            refine ⟨value, ⟨hvalue, .inr hname, fun _ hnothing => ?_⟩, by simp [hname],
              by simp [hname, JavaType.readJavaName_eq_ok.mp hread]⟩
            obtain ⟨f, hf⟩ := JavaType.readJavaName_eq_error.mpr hnothing
            rw [hread] at hf
            cases hf
  · rintro ⟨value, ⟨hvalue, hname | hname, hnames⟩, hpermission, hreceiver⟩
    · obtain rfl : permission? = some value := by simpa [hname] using hpermission
      obtain rfl : receiver? = known.receiver := by simpa [hname] using hreceiver
      simp [addElement, hvalue, hname]
    · cases hread : JavaType.readJavaName value with
      | error f => exact absurd (JavaType.readJavaName_eq_error.mp ⟨f, hread⟩) (hnames hname)
      | ok receiver =>
        obtain rfl : permission? = known.permission := by simpa [hname] using hpermission
        obtain rfl : receiver? = some receiver := by
          simpa [hname, JavaType.readJavaName_eq_ok.mp hread] using hreceiver
        simp only [addElement, hvalue, hname, hread]
        rfl

/-- Elements are read exactly if all of them are fit, and then what the last element of each name
says counts. -/
theorem foldlM_addElement_eq_ok {es : List Element} {found : Draft} :
    es.foldlM (addElement type) ⟨none, none⟩ = .ok found ↔ (∀ e ∈ es, ∃ value, e.IsFit value) ∧
      found.permission = Element.lastText? es "permission" ∧
      found.receiver = (Element.lastText? es "defClass").bind JavaType.ofJavaName? := by
  -- The element that is read last is the last one of its name.
  induction es using List.reverseRecOn generalizing found with
  | nil =>
    obtain ⟨permission?, receiver?⟩ := found
    simp [Element.lastText?, pure, Except.pure, eq_comm]
  | append_singleton es e ih =>
    have hlast : (es ++ [e]).foldlM (addElement type) ⟨none, none⟩ = .ok found ↔
        ∃ known, es.foldlM (addElement type) ⟨none, none⟩ = .ok known ∧
          addElement type known e = .ok found := by
      simp only [List.foldlM_append, List.foldlM_cons, List.foldlM_nil, bind_pure]
      cases es.foldlM (addElement type) ⟨none, none⟩ <;> simp [bind, Except.bind]
    simp only [hlast, ih, addElement_eq_ok, Element.lastText?_concat, List.forall_mem_append,
      List.forall_mem_singleton]
    constructor
    · rintro ⟨known, ⟨hes, hpermission, hreceiver⟩, value, hfit, hpermission', hreceiver'⟩
      refine ⟨⟨hes, value, hfit⟩, ?_, ?_⟩
      · rw [hpermission', hpermission, hfit.holds]
      · rw [hreceiver', hreceiver, hfit.holds]
        split <;> rfl
    · rintro ⟨⟨hes, value, hfit⟩, hpermission, hreceiver⟩
      refine ⟨⟨Element.lastText? es "permission",
        (Element.lastText? es "defClass").bind JavaType.ofJavaName?⟩, ⟨hes, rfl, rfl⟩, value, hfit,
        ?_, ?_⟩
      · rw [hpermission, hfit.holds]
      · rw [hreceiver, hfit.holds]
        split <;> rfl

/-- An element that is not read says nothing of places. -/
theorem places_of_addElement {known : Draft} {e : Element} {f : Failure}
    (h : addElement type known e = .error f) : f.places = [] := by
  unfold addElement at h
  split at h
  case h_1 =>
    cases h
    rfl
  case h_2 value hvalue =>
    split at h
    case isTrue => cases h
    case isFalse =>
      split at h
      case isFalse =>
        cases h
        rfl
      case isTrue =>
        unfold JavaType.readJavaName at h
        cases htype : JavaType.ofJavaName? value with
        | some receiver => simp [htype, bind, Except.bind, pure, Except.pure] at h
        | none =>
          rw [htype] at h
          cases h
          rfl

/-- Elements that are not read say nothing of places. -/
theorem places_of_foldlM_addElement {es : List Element} {known : Draft} {f : Failure}
    (h : es.foldlM (addElement type) known = .error f) : f.places = [] := by
  induction es generalizing known with
  | nil => cases h
  | cons e es ih =>
    rw [List.foldlM_cons] at h
    cases hnext : addElement type known e with
    | error f' =>
      obtain rfl : f' = f := by simpa [hnext, bind, Except.bind] using h
      exact places_of_addElement hnext
    | ok next =>
      rw [hnext] at h
      exact ih h

end Draft

/-- What a marker is decoded to. It is decoded exactly if all its elements are fit and both names
are there, and then to what the last element of each name says. -/
theorem ofBlock_eq_ok {a : AnnotationBlock} {marker : MethodMarker} :
    ofBlock a = .ok marker ↔ (∀ e ∈ a.elements, ∃ value, e.IsFit value) ∧
      Element.lastText? a.elements "permission" = some marker.permission ∧
      ∃ value, Element.lastText? a.elements "defClass" = some value ∧
        JavaType.readJavaName value = .ok marker.receiver := by
  have hblock : ofBlock a = .ok marker ↔
      a.elements.foldlM (Draft.addElement a.type) ⟨none, none⟩ =
        .ok ⟨some marker.permission, some marker.receiver⟩ := by
    obtain ⟨permission, receiver⟩ := marker
    rw [ofBlock]
    cases a.elements.foldlM (Draft.addElement a.type) ⟨none, none⟩ with
    | error f => simp [bind, Except.bind]
    | ok found =>
      obtain ⟨permission? | permission?, receiver? | receiver?⟩ := found <;>
        simp [bind, Except.bind, pure, Except.pure]
  simp only [hblock, Draft.foldlM_addElement_eq_ok, eq_comm (a := some _),
    Option.bind_eq_some_iff, JavaType.readJavaName_eq_ok]

/-- A marker is decoded exactly if it is well formed. -/
theorem exists_ofBlock_eq_ok {a : AnnotationBlock} :
    (∃ marker, ofBlock a = .ok marker) ↔ ¬a.IsMalformedMarker := by
  rw [AnnotationBlock.not_isMalformedMarker]
  constructor
  · rintro ⟨marker, h⟩
    obtain ⟨hfit, hpermission, value, hreceiver, -⟩ := ofBlock_eq_ok.mp h
    obtain ⟨e, he, hname, -⟩ := Element.exists_of_lastText? hpermission
    obtain ⟨e', he', hname', -⟩ := Element.exists_of_lastText? hreceiver
    exact ⟨hfit, ⟨e, he, hname⟩, e', he', hname'⟩
  · rintro ⟨hfit, hpermission, hreceiver⟩
    obtain ⟨permission, hpermission⟩ := Element.exists_lastText? hfit hpermission
    obtain ⟨value, hlast⟩ := Element.exists_lastText? hfit hreceiver
    obtain ⟨e, he, hname, hholds⟩ := Element.exists_of_lastText? hlast
    obtain ⟨value', hvalue⟩ := hfit e he
    obtain rfl : value' = value := Option.some.inj (hvalue.holds.symm.trans hholds)
    cases hread : JavaType.readJavaName value' with
    | error f => exact absurd (JavaType.readJavaName_eq_error.mp ⟨f, hread⟩) (hvalue.names hname)
    | ok receiver =>
      exact ⟨⟨permission, receiver⟩, ofBlock_eq_ok.mpr ⟨hfit, hpermission, value', hlast, hread⟩⟩

/-- Decoding a marker fails exactly if it is malformed. -/
theorem exists_ofBlock_eq_error {a : AnnotationBlock} :
    (∃ f, ofBlock a = .error f) ↔ a.IsMalformedMarker := by
  rw [← not_iff_not, ← exists_ofBlock_eq_ok]
  cases ofBlock a <;> simp

/-- A marker that is not decoded says nothing of places. -/
theorem places_of_ofBlock {a : AnnotationBlock} {f : Failure} (h : ofBlock a = .error f) :
    f.places = [] := by
  unfold ofBlock at h
  cases hfound : a.elements.foldlM (Draft.addElement a.type) ⟨none, none⟩ with
  | error f' =>
    obtain rfl : f' = f := by simpa [hfound, bind, Except.bind] using h
    exact Draft.places_of_foldlM_addElement hfound
  | ok found =>
    simp only [hfound, bind, Except.bind] at h
    split at h
    · cases h
    · cases h
      rfl

end MethodMarker

end GatedCalls
