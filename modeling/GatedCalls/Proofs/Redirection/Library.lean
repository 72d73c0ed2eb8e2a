import GatedCalls.Proofs.Redirection.Merge
import GatedCalls.Redirection.Library

/-!
# What loaded libraries add and provide

A library offers a method if its class has the class marker and is public, and the method is public,
static and has a method marker, of which the first one counts (`Markers.Offers`). What the markers
of offered methods say becomes redirections, permission by permission (`Markers.Contributes`), and a
load that succeeds adds these and ships the offered classes.

Libraries are loaded one after another, and a library that fails is passed over. However many there
are, each redirection that is left behind has the shape that a static call needs, and stands for a
method of a class that is shipped: this is `Replacements.Backed`. One load keeps it, so a run of
loads keeps it from the beginning, where nothing is provided.
-/

namespace GatedCalls

/-- Loads libraries one after another, each with the permissions that are requested of it. A library
that fails leaves what is known. -/
def Markers.loadAll (ms : Markers) (known : Replacements) (loads : List (Program × PermissionSet)) :
    Replacements :=
  loads.foldl (fun known (p, requested) => ((ms.load p requested known).value.toOption).getD known)
    known

/-- Whether the replacement takes what a virtual call of the callee leaves in the registers: the
receiver, as an object of the class that defines the callee, and the arguments behind it. -/
structure Redirection.TakesReceiver (x : Redirection) : Prop where
  /-- Both methods have the same name. -/
  name_eq : x.replacement.name = x.callee.name
  /-- Both return the same. -/
  result_eq : x.replacement.proto.result = x.callee.proto.result
  /-- The receiver comes first, and then the parameters of the callee. -/
  params_eq : ∃ receiver : JavaType, receiver.descriptor = x.callee.owner ∧
    x.replacement.proto.params = receiver :: x.callee.proto.params

/-- Whether a class provides the method: the method is defined in it, public and static, and the
class is public and has the class marker. -/
structure Markers.Provides (ms : Markers) (c : ClassDef) (x : MethodRef) : Prop where
  /-- The method is referred to as one of the class. -/
  owner_eq : x.owner = c.name.descriptor
  /-- The class is public. -/
  isPublic : c.isPublic = true
  /-- The class has the class marker. -/
  isMarked : c.annotations.any (·.hasType ms.classMarker) = true
  /-- The class defines a public static method with this name and prototype. -/
  hasMethod : ∃ m ∈ c.methods, m.isPublic = true ∧ m.isStatic = true ∧ m.name = x.name ∧
    m.proto = x.proto

/-- Whether each redirection takes the receiver and is backed by a shipped class. -/
def Replacements.Backed (ms : Markers) (rs : Replacements) : Prop :=
  ∀ permission, ∀ x ∈ rs.redirectionsFor permission,
    x.TakesReceiver ∧ ∃ c ∈ rs.classes, ms.Provides c x.replacement

/-- A list of checks that passes yields what its items yield. -/
theorem mem_of_mapM_eq_ok {ε α β : Type} {f : α → Except ε β} {xs : List α} {ys : List β}
    (h : xs.mapM f = .ok ys) {y : β} : y ∈ ys ↔ ∃ x ∈ xs, f x = .ok y := by
  induction xs generalizing ys with
  | nil =>
    obtain rfl : [] = ys := by simpa [pure, Except.pure] using h
    simp
  | cons x xs ih =>
    rw [List.mapM_cons] at h
    cases hx : f x with
    | error e => simp [hx, bind, Except.bind] at h
    | ok z =>
      cases hrest : xs.mapM f with
      | error e => simp [hx, hrest, bind, Except.bind] at h
      | ok zs =>
        obtain rfl : z :: zs = ys := by
          simpa [hx, hrest, bind, Except.bind, pure, Except.pure] using h
        simp only [List.mem_cons, ih hrest, exists_eq_or_imp, hx, Except.ok.injEq, @eq_comm β y z]

namespace MarkedMethod

/-- A method is decoded to what its marker says. -/
theorem decode_eq_ok {m : MarkedMethod} {marker : MethodMarker} :
    m.decode = .ok marker ↔ MethodMarker.ofBlock m.marker = .ok marker := by
  unfold decode
  cases MethodMarker.ofBlock m.marker with
  | error e => constructor <;> (intro h; cases h)
  | ok read => exact Iff.rfl

/-- A method is selected if its first parameter is an object of the class that its marker names and
the permission is requested. -/
theorem redirection?_select {requested : PermissionSet} {m : MarkedMethod} {marker : MethodMarker}
    {x : Redirection} :
    (m.select requested marker).redirection? = some x ↔
      ∃ rest, m.method.proto.params = marker.receiver :: rest ∧ marker.permission ∈ requested ∧
        x = m.redirection marker.receiver rest := by
  unfold select
  split
  case h_1 hparams => simp [hparams, Selection.redirection?]
  case h_2 first rest hparams =>
    rw [hparams]
    split
    case isTrue hne => simp [Selection.redirection?, hne]
    case isFalse heq =>
      obtain rfl : first = marker.receiver := Decidable.not_not.mp heq
      split
      case isTrue hrequested => simp [Selection.redirection?, hrequested, eq_comm]
      case isFalse hrequested => simp [Selection.redirection?, hrequested]

end MarkedMethod

namespace Markers

variable {ms : Markers} {p : Program} {requested : PermissionSet}
  {decoded : List (MarkedMethod × MethodMarker)}

/-! ### What is offered -/

/-- Whether a method of a class is offered, with its marker: the class has the class marker and is
public, the method is public and static, and the marker is its first one. -/
structure Offers (ms : Markers) (c : ClassDef) (m : Method) (marker : AnnotationBlock) : Prop where
  classMarked : c.annotations.any (·.hasType ms.classMarker) = true
  classPublic : c.isPublic = true
  methodPublic : m.isPublic = true
  methodStatic : m.isStatic = true
  firstMarker : m.annotations.find? (·.hasType ms.methodMarker) = some marker

/-- The offered methods of a program are those of its classes that are offered. -/
theorem mem_offeredMethods_iff {m : MarkedMethod} :
    m ∈ ms.offeredMethods p ↔
      m.owner ∈ p.classes ∧ m.method ∈ m.owner.methods ∧ ms.Offers m.owner m.method m.marker := by
  obtain ⟨c, method, marker⟩ := m
  simp only [offeredMethods, offeredClasses, markedClasses, markedMethods, MarkedMethod.isUsable,
    List.mem_filter, List.mem_flatMap, List.mem_filterMap, Option.map_eq_some_iff,
    Bool.and_eq_true]
  constructor
  · rintro ⟨⟨c, ⟨⟨hc, hmarked⟩, hpublic⟩, method, hmethod, marker, hfirst, heq⟩, hmpublic, hmstatic⟩
    obtain ⟨rfl, rfl, rfl⟩ := MarkedMethod.mk.inj heq
    exact ⟨hc, hmethod, hmarked, hpublic, hmpublic, hmstatic, hfirst⟩
  · rintro ⟨hc, hmethod, hmarked, hpublic, hmpublic, hmstatic, hfirst⟩
    exact ⟨⟨c, ⟨⟨hc, hmarked⟩, hpublic⟩, method, hmethod, marker, hfirst, rfl⟩, hmpublic, hmstatic⟩

/-- What is decoded of a library are the offered methods with what their markers say. -/
theorem mem_decoded (h : ms.decodeAll p = .ok decoded) {m : MarkedMethod} {marker : MethodMarker} :
    (m, marker) ∈ decoded ↔
      m ∈ ms.offeredMethods p ∧ MethodMarker.ofBlock m.marker = .ok marker := by
  have hpair : ∀ m' : MarkedMethod, (do return (m', ← m'.decode) : Except Failure _) =
      .ok (m, marker) ↔ m' = m ∧ m.decode = .ok marker := by
    intro m'
    by_cases hm : m' = m
    · subst hm
      cases m'.decode <;> simp [bind, Except.bind, pure, Except.pure]
    · cases m'.decode <;> simp [bind, Except.bind, pure, Except.pure, hm]
  rw [mem_of_mapM_eq_ok h, ← MarkedMethod.decode_eq_ok]
  constructor
  · rintro ⟨m', hm', hdecode⟩
    obtain ⟨rfl, hmarker⟩ := (hpair m').mp hdecode
    exact ⟨hm', hmarker⟩
  · rintro ⟨hm, hmarker⟩
    exact ⟨m, hm, (hpair m).mpr ⟨rfl, hmarker⟩⟩

/-! ### What is added -/

/-- Whether a library contributes a redirection for a permission: a method is offered whose marker
names this permission, which is requested, and the class of its first parameter. The calls of the
method of that class that has its name, its other parameters and its result are then sent to it. -/
def Contributes (ms : Markers) (p : Program) (requested : PermissionSet) (permission : String)
    (x : Redirection) : Prop :=
  ∃ c ∈ p.classes, ∃ m ∈ c.methods, ∃ marker receiver rest,
    ms.Offers c m marker ∧ MethodMarker.ofBlock marker = .ok ⟨permission, receiver⟩ ∧
    permission ∈ requested ∧ m.proto.params = receiver :: rest ∧
    x.callee = ⟨receiver.descriptor, m.name, ⟨rest, m.proto.result⟩⟩ ∧
    x.replacement = ⟨c.name.descriptor, m.name, ⟨receiver :: rest, m.proto.result⟩⟩

/-- The redirections that are selected of decoded methods, with their permissions. -/
def selected (requested : PermissionSet) (decoded : List (MarkedMethod × MethodMarker)) :
    List (String × Redirection) :=
  decoded.filterMap fun (m, marker) =>
    ((m.select requested marker).redirection?).map fun x => (marker.permission, x)

/-- What is selected is added, one after another. -/
theorem addSelected_eq (requested : PermissionSet) (decoded : List (MarkedMethod × MethodMarker))
    (known : Replacements) :
    addSelected requested decoded known = known.addAll (selected requested decoded) := by
  induction decoded generalizing known with
  | nil => rfl
  | cons e decoded ih =>
    obtain ⟨m, marker⟩ := e
    rw [addSelected, List.foldl_cons, ← addSelected, ih]
    cases hselect : (m.select requested marker).redirection? with
    | none => simp [selected, hselect]
    | some x => simp [selected, hselect, Replacements.addAll]

/-- What is selected is what the markers of decoded methods say, for those whose first parameter is
an object of the class that is named and whose permission is requested. -/
theorem mem_selected {permission : String} {x : Redirection} :
    (permission, x) ∈ selected requested decoded ↔ ∃ e ∈ decoded, e.2.permission = permission ∧
      (e.1.select requested e.2).redirection? = some x := by
  simp only [selected, List.mem_filterMap, Option.map_eq_some_iff, Prod.mk.injEq]
  constructor
  · rintro ⟨e, he, y, hselect, rfl, rfl⟩
    exact ⟨e, he, rfl, hselect⟩
  · rintro ⟨e, he, rfl, hselect⟩
    exact ⟨e, he, x, hselect, rfl, rfl⟩

/-- What is selected of the decoded methods are the contributions of the library. -/
theorem contributes_iff (h : ms.decodeAll p = .ok decoded) {permission : String} {x : Redirection} :
    ms.Contributes p requested permission x ↔ (permission, x) ∈ selected requested decoded := by
  rw [mem_selected]
  constructor
  · rintro ⟨c, hc, m, hm, marker, receiver, rest, hoffers, hsays, hrequested, hparams, hcallee,
      hreplacement⟩
    refine ⟨(⟨c, m, marker⟩, ⟨permission, receiver⟩),
      (mem_decoded h).mpr ⟨mem_offeredMethods_iff.mpr ⟨hc, hm, hoffers⟩, hsays⟩, rfl,
      MarkedMethod.redirection?_select.mpr ⟨rest, hparams, hrequested, ?_⟩⟩
    obtain ⟨callee, replacement⟩ := x
    obtain rfl := hcallee
    obtain rfl := hreplacement
    simp [MarkedMethod.redirection, ClassDef.methodRef, ← hparams]
  · rintro ⟨⟨⟨c, m, marker⟩, permission, receiver⟩, hmem, rfl, hselect⟩
    obtain ⟨hoffered, hsays⟩ := (mem_decoded h).mp hmem
    obtain ⟨hc, hm, hoffers⟩ := mem_offeredMethods_iff.mp hoffered
    obtain ⟨rest, hparams, hrequested, rfl⟩ := MarkedMethod.redirection?_select.mp hselect
    exact ⟨c, hc, m, hm, marker, receiver, rest, hoffers, hsays, hrequested, hparams, rfl,
      by simp [MarkedMethod.redirection, ClassDef.methodRef, ← hparams]⟩

/-- A load that succeeds has decoded all offered methods, and takes over what is selected of them
and the offered classes. -/
theorem exists_decoded_of_load {known loaded : Replacements}
    (h : (ms.load p requested known).value = .ok loaded) :
    ∃ decoded, ms.decodeAll p = .ok decoded ∧
      loaded = (known.addAll (selected requested decoded)).addClasses (ms.offeredClasses p) := by
  unfold load at h
  cases hdecode : ms.decodeAll p with
  | error f => simp [hdecode] at h
  | ok decoded => exact ⟨decoded, rfl, by simpa [hdecode, addSelected_eq] using h.symm⟩

/-! ### What is provided -/

/-- What a library contributes takes the receiver. -/
theorem Contributes.takesReceiver {permission : String} {x : Redirection}
    (h : ms.Contributes p requested permission x) : x.TakesReceiver := by
  obtain ⟨c, -, m, -, marker, receiver, rest, -, -, -, -, hcallee, hreplacement⟩ := h
  refine ⟨?_, ?_, receiver, ?_, ?_⟩ <;> rw [hcallee]
  · rw [hreplacement]
  · rw [hreplacement]
  · rw [hreplacement]

/-- What a library contributes is provided by a class that it offers. -/
theorem Contributes.exists_provides {permission : String} {x : Redirection}
    (h : ms.Contributes p requested permission x) :
    ∃ c ∈ ms.offeredClasses p, ms.Provides c x.replacement := by
  obtain ⟨c, hc, m, hm, marker, receiver, rest, hoffers, -, -, hparams, -, hreplacement⟩ := h
  refine ⟨c, ?_, ?_⟩
  · rw [offeredClasses, markedClasses]
    exact List.mem_filter.mpr ⟨List.mem_filter.mpr ⟨hc, hoffers.classMarked⟩, hoffers.classPublic⟩
  · rw [hreplacement]
    exact ⟨rfl, hoffers.classPublic, hoffers.classMarked, m, hm, hoffers.methodPublic,
      hoffers.methodStatic, rfl, by rw [← hparams]⟩

/-- A load that succeeds keeps the redirections backed. -/
theorem backed_load {known loaded : Replacements} (hknown : known.Backed ms)
    (h : (ms.load p requested known).value = .ok loaded) : loaded.Backed ms := by
  obtain ⟨decoded, hdecode, rfl⟩ := exists_decoded_of_load h
  intro permission x hx
  rw [Replacements.addClasses, Replacements.classes_addAll]
  obtain hold | hnew := Replacements.mem_redirectionsFor_addAll.mp hx
  · obtain ⟨htakes, c, hc, hprovides⟩ := hknown permission x hold
    exact ⟨htakes, c, List.mem_append_left _ hc, hprovides⟩
  · have hcontributes := (contributes_iff hdecode).mpr hnew
    obtain ⟨c, hc, hprovides⟩ := hcontributes.exists_provides
    exact ⟨hcontributes.takesReceiver, c, List.mem_append_right _ hc, hprovides⟩

/-- A run of loads keeps the redirections backed, whatever fails on the way. -/
theorem backed_loadAll {known : Replacements} (hknown : known.Backed ms)
    (loads : List (Program × PermissionSet)) : (ms.loadAll known loads).Backed ms := by
  unfold loadAll
  induction loads generalizing known with
  | nil => exact hknown
  | cons l loads ih =>
    rw [List.foldl_cons]
    apply ih
    cases hload : (ms.load l.1 l.2 known).value with
    | error f => simpa [hload, Except.toOption] using hknown
    | ok loaded => simpa [hload, Except.toOption] using backed_load hknown hload

/-- Where nothing is provided nothing has to be backed. -/
theorem backed_empty : Replacements.empty.Backed ms := fun permission x hx =>
  absurd hx (Replacements.not_mem_redirectionsFor_empty permission x)

end Markers

end GatedCalls
