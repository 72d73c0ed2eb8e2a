import GatedCalls.Proofs.Redirection.Loading
import GatedCalls.Proofs.Redirection.Marker

/-!
# Libraries that cannot be loaded

A load fails exactly if a method is offered whose marker is malformed (`Markers.OffersMalformed`),
and it names the first such method, in the order of the classes and of their methods. To see that
nothing of such a library is taken over, loading is also written as work on the replacements that
are known (`Markers.loadInPlace`): there all markers are decoded before the first redirection is
entered, so a load that fails leaves them as they were (`Markers.run_loadInPlace`).
-/

namespace GatedCalls

/-- Where a walk over lists fails, it fails in one of them and passes all ahead of it. -/
theorem exists_split_of_mapM_flatMap {ε α β γ : Type} {f : β → Except ε γ} {g : α → List β}
    {xs : List α} {e : ε} (h : (xs.flatMap g).mapM f = .error e) :
    ∃ front x rest, xs = front ++ x :: rest ∧ (g x).mapM f = .error e ∧
      ∀ x' ∈ front, ∃ zs, (g x').mapM f = .ok zs := by
  induction xs with
  | nil => cases h
  | cons x xs ih =>
    rw [List.flatMap_cons, List.mapM_append] at h
    cases hx : (g x).mapM f with
    | error e' =>
      obtain rfl : e' = e := by simpa [hx, bind, Except.bind] using h
      exact ⟨[], x, xs, rfl, hx, by simp⟩
    | ok zs =>
      have hxs : (xs.flatMap g).mapM f = .error e := by
        cases hrest : (xs.flatMap g).mapM f with
        | error e' => simpa [hx, hrest, bind, Except.bind] using h
        | ok zs' => simp [hx, hrest, bind, Except.bind, pure, Except.pure] at h
      obtain ⟨front, y, rest, rfl, hy, hfront⟩ := ih hxs
      exact ⟨x :: front, y, rest, rfl, hy, List.forall_mem_cons.mpr ⟨⟨zs, hx⟩, hfront⟩⟩

/-- Where a walk over lists passes, it passes each of them. -/
theorem exists_mapM_of_mapM_flatMap {ε α β γ : Type} {f : β → Except ε γ} {g : α → List β}
    {xs : List α} {zs : List γ} (h : (xs.flatMap g).mapM f = .ok zs) :
    ∀ x ∈ xs, ∃ zs', (g x).mapM f = .ok zs' := by
  induction xs generalizing zs with
  | nil => simp
  | cons x xs ih =>
    rw [List.flatMap_cons, List.mapM_append] at h
    cases hx : (g x).mapM f with
    | error e => simp [hx, bind, Except.bind] at h
    | ok front =>
      cases hxs : (xs.flatMap g).mapM f with
      | error e => simp [hx, hxs, bind, Except.bind] at h
      | ok rest => exact List.forall_mem_cons.mpr ⟨⟨front, hx⟩, ih hxs⟩

namespace Markers

variable {ms : Markers} {p : Program} {requested : PermissionSet} {known : Replacements}
variable {c : ClassDef} {m : Method}

/-! ### One method after another -/

/-- A method of a class as it is offered, if it is. -/
def offer? (ms : Markers) (c : ClassDef) (m : Method) : Option MarkedMethod :=
  if c.annotations.any (·.hasType ms.classMarker) && c.isPublic && m.isPublic && m.isStatic then
    (m.annotations.find? (·.hasType ms.methodMarker)).map fun a => ⟨c, m, a⟩
  else none

/-- A method comes as one of its class, with the marker by which it is offered. -/
theorem offer?_eq_some {x : MarkedMethod} :
    ms.offer? c m = some x ↔ ∃ marker, ms.Offers c m marker ∧ x = ⟨c, m, marker⟩ := by
  unfold offer?
  split
  case isTrue h =>
    simp only [Bool.and_eq_true] at h
    obtain ⟨⟨⟨hmarked, hpublic⟩, hmpublic⟩, hmstatic⟩ := h
    rw [Option.map_eq_some_iff]
    exact ⟨fun ⟨marker, hfirst, heq⟩ =>
        ⟨marker, ⟨hmarked, hpublic, hmpublic, hmstatic, hfirst⟩, heq.symm⟩,
      fun ⟨marker, hoffers, heq⟩ => ⟨marker, hoffers.firstMarker, heq.symm⟩⟩
  case isFalse h =>
    refine iff_of_false (by simp) ?_
    rintro ⟨marker, hoffers, -⟩
    exact h (by simp [hoffers.classMarked, hoffers.classPublic, hoffers.methodPublic,
      hoffers.methodStatic])

/-- The offered methods of an offered class. -/
theorem filter_markedMethods_eq
    (h : (c.annotations.any (·.hasType ms.classMarker) && c.isPublic) = true) :
    (ms.markedMethods c).filter (·.isUsable) = c.methods.filterMap (ms.offer? c) := by
  rw [markedMethods, List.filter_filterMap]
  refine List.filterMap_congr fun m _ => ?_
  rw [offer?, h, Bool.true_and]
  cases m.annotations.find? (·.hasType ms.methodMarker) with
  | none => simp
  | some a => simp [Option.filter, MarkedMethod.isUsable]

/-- The offered methods are found class by class and method by method. -/
theorem offeredMethods_eq_flatMap (ms : Markers) (p : Program) :
    ms.offeredMethods p =
      p.classes.flatMap fun c => c.methods.flatMap fun m => (ms.offer? c m).toList := by
  simp only [offeredMethods, offeredClasses_eq, List.filter_flatMap,
    ← List.filterMap_eq_flatMap_toList]
  induction p.classes with
  | nil => rfl
  | cons c cs ih =>
    rw [List.flatMap_cons, ← ih]
    by_cases hoffered : (c.annotations.any (·.hasType ms.classMarker) && c.isPublic) = true
    · rw [List.filter_cons, if_pos hoffered, List.flatMap_cons, filter_markedMethods_eq hoffered]
    · have hnone : c.methods.filterMap (ms.offer? c) = [] :=
        List.filterMap_eq_nil_iff.mpr fun m _ => by simp [offer?, hoffered]
      rw [List.filter_cons, if_neg hoffered, hnone, List.nil_append]

/-! ### The first malformed marker -/

/-- Whether a method of a class is offered with a malformed marker. -/
def OffersMalformed (ms : Markers) (c : ClassDef) (m : Method) : Prop :=
  ∃ marker, ms.Offers c m marker ∧ marker.IsMalformedMarker

/-- Decoding a method as it is offered, if it is, fails only if it is offered with a malformed
marker, and the failure names the method. -/
theorem offersMalformed_of_mapM {f : Failure}
    (h : ((ms.offer? c m).toList.mapM fun x => do return (x, ← x.decode)) = .error f) :
    ms.OffersMalformed c m ∧ f.places = [c.name.descriptor ++ "->" ++ m.name] := by
  cases hoffer : ms.offer? c m with
  | none => simp [hoffer, pure, Except.pure] at h
  | some x =>
    obtain ⟨marker, hoffers, rfl⟩ := offer?_eq_some.mp hoffer
    cases hread : MethodMarker.ofBlock marker with
    | ok said =>
      simp [hoffer, MarkedMethod.decode, hread, Except.mapError, bind, Except.bind, pure,
        Except.pure] at h
    | error f' =>
      have hf : f'.within (c.name.descriptor ++ "->" ++ m.name) = f := by
        simpa [hoffer, MarkedMethod.decode, hread, Except.mapError, bind, Except.bind,
          MarkedMethod.fullName] using h
      refine ⟨⟨marker, hoffers, MethodMarker.exists_ofBlock_eq_error.mp ⟨f', hread⟩⟩, ?_⟩
      rw [← hf, Failure.within, MethodMarker.places_of_ofBlock hread, List.nil_append]

/-- Where the methods of a class that are offered are decoded, none is offered with a malformed
marker. -/
theorem not_offersMalformed_of_mapM {decoded : List (MarkedMethod × MethodMarker)}
    (h : ((ms.offer? c m).toList.mapM fun x => do return (x, ← x.decode)) = .ok decoded) :
    ¬ms.OffersMalformed c m := by
  rintro ⟨marker, hoffers, hmalformed⟩
  obtain ⟨f, hf⟩ := MethodMarker.exists_ofBlock_eq_error.mpr hmalformed
  rw [offer?_eq_some.mpr ⟨marker, hoffers, rfl⟩] at h
  simp [MarkedMethod.decode, hf, Except.mapError, bind, Except.bind] at h

/-- Whether a method of a program is the first one that is offered with a malformed marker, in the
order of the classes and of their methods. -/
def OffersMalformedFirst (ms : Markers) (p : Program) (c : ClassDef) (m : Method) : Prop :=
  ms.OffersMalformed c m ∧ ∃ front rest methods methods',
    p.classes = front ++ c :: rest ∧ c.methods = methods ++ m :: methods' ∧
    (∀ c' ∈ front, ∀ m' ∈ c'.methods, ¬ms.OffersMalformed c' m') ∧
    ∀ m' ∈ methods, ¬ms.OffersMalformed c m'

/-- The failure of a library is that of the first method that is offered with a malformed marker. -/
theorem exists_first_of_decodeAll {f : Failure} (h : ms.decodeAll p = .error f) :
    ∃ c m, ms.OffersMalformedFirst p c m ∧ f.places = [c.name.descriptor ++ "->" ++ m.name] := by
  rw [decodeAll, offeredMethods_eq_flatMap] at h
  obtain ⟨front, c, rest, hclasses, hc, hfront⟩ := exists_split_of_mapM_flatMap h
  obtain ⟨methods, m, methods', hmethods, hm, hahead⟩ := exists_split_of_mapM_flatMap hc
  obtain ⟨hmalformed, hplaces⟩ := offersMalformed_of_mapM hm
  refine ⟨c, m, ⟨hmalformed, front, rest, methods, methods', hclasses, hmethods, ?_, ?_⟩, hplaces⟩
  · intro c' hc' m' hm'
    obtain ⟨decoded, hdecoded⟩ := hfront c' hc'
    obtain ⟨decoded', hdecoded'⟩ := exists_mapM_of_mapM_flatMap hdecoded m' hm'
    exact not_offersMalformed_of_mapM hdecoded'
  · intro m' hm'
    obtain ⟨decoded, hdecoded⟩ := hahead m' hm'
    exact not_offersMalformed_of_mapM hdecoded

/-- The methods of a library are decoded only if none is offered with a malformed marker. -/
theorem not_offersMalformed_of_decodeAll {decoded : List (MarkedMethod × MethodMarker)}
    (h : ms.decodeAll p = .ok decoded) (hc : c ∈ p.classes) (hm : m ∈ c.methods) :
    ¬ms.OffersMalformed c m := by
  rw [decodeAll, offeredMethods_eq_flatMap] at h
  obtain ⟨inClass, hinClass⟩ := exists_mapM_of_mapM_flatMap h c hc
  obtain ⟨inMethod, hinMethod⟩ := exists_mapM_of_mapM_flatMap hinClass m hm
  exact not_offersMalformed_of_mapM hinMethod

/-! ### Nothing is taken over -/

/-- Loading as work on the replacements that are known: all markers are decoded, and then what is
selected is entered, one redirection after the other, and the offered classes are added. -/
def loadInPlace (ms : Markers) (p : Program) (requested : PermissionSet) :
    ExceptT Failure (StateM Replacements) Unit := do
  let decoded ← ExceptT.mk (pure (ms.decodeAll p))
  forM decoded fun (m, marker) =>
    match (m.select requested marker).redirection? with
    | some x => modify (·.add marker.permission x)
    | none => pure ()
  modify (·.addClasses (ms.offeredClasses p))

/-- Entering what is selected, one redirection after the other, leaves what all together lead to. -/
theorem run_forM_addSelected (decoded : List (MarkedMethod × MethodMarker)) (known : Replacements) :
    (forM decoded fun (m, marker) =>
      match (m.select requested marker).redirection? with
      | some x => modify (·.add marker.permission x)
      | none => pure () : ExceptT Failure (StateM Replacements) Unit).run.run known =
      (.ok (), addSelected requested decoded known) := by
  induction decoded generalizing known with
  | nil => rfl
  | cons e decoded ih =>
    obtain ⟨m, marker⟩ := e
    rw [List.forM_cons, ExceptT.run_bind, StateT.run_bind, addSelected, List.foldl_cons]
    cases hselect : (m.select requested marker).redirection? with
    | none =>
      simp only [hselect]
      exact ih known
    | some x =>
      simp only [hselect]
      exact ih (known.add marker.permission x)

/-- What loading leaves of the replacements that are known: if it fails, all of them and nothing
else. -/
theorem run_loadInPlace (ms : Markers) (p : Program) (requested : PermissionSet)
    (known : Replacements) :
    (ms.loadInPlace p requested).run.run known =
      match (ms.load p requested known).value with
      | .ok loaded => (.ok (), loaded)
      | .error f => (.error f, known) := by
  rw [loadInPlace, load, ExceptT.run_bind, StateT.run_bind]
  cases ms.decodeAll p with
  | error f => rfl
  | ok decoded =>
    change StateT.run (ExceptT.run (_ >>= fun _ => _)) known = _
    rw [ExceptT.run_bind, StateT.run_bind, run_forM_addSelected]
    rfl

/-- A load fails with what decoding fails with, whatever is known. -/
theorem load_eq_error {f : Failure} :
    (ms.load p requested known).value = .error f ↔ ms.decodeAll p = .error f := by
  rw [load]
  cases ms.decodeAll p <;> simp

/-- A load fails exactly if a method is offered with a malformed marker, whatever permissions are
requested. It then names the first such method, and what was known stays as it was. -/
theorem load_fails_exactly (ms : Markers) (p : Program) (requested : PermissionSet)
    (known : Replacements) :
    ((∃ f, (ms.load p requested known).value = .error f) ↔
      ∃ c ∈ p.classes, ∃ m ∈ c.methods, ms.OffersMalformed c m) ∧
    ∀ f, (ms.load p requested known).value = .error f →
      (∃ c m, ms.OffersMalformedFirst p c m ∧
        f.text = f.cause.message ++ " for " ++ (c.name.descriptor ++ "->" ++ m.name)) ∧
      (ms.loadInPlace p requested).run.run known = (.error f, known) := by
  have hfirst : ∀ f, (ms.load p requested known).value = .error f →
      ∃ c m, ms.OffersMalformedFirst p c m ∧ f.places = [c.name.descriptor ++ "->" ++ m.name] :=
    fun f hf => exists_first_of_decodeAll (load_eq_error.mp hf)
  refine ⟨⟨?_, ?_⟩, fun f hf => ⟨?_, ?_⟩⟩
  · rintro ⟨f, hf⟩
    obtain ⟨c, m, ⟨hmalformed, front, rest, methods, methods', hclasses, hmethods, -⟩, -⟩ :=
      hfirst f hf
    exact ⟨c, by simp [hclasses], m, by simp [hmethods], hmalformed⟩
  · rintro ⟨c, hc, m, hm, hmalformed⟩
    cases hall : ms.decodeAll p with
    | error f => exact ⟨f, load_eq_error.mpr hall⟩
    | ok decoded => exact absurd hmalformed (not_offersMalformed_of_decodeAll hall hc hm)
  · obtain ⟨c, m, hmalformed, hplaces⟩ := hfirst f hf
    exact ⟨c, m, hmalformed, by rw [Failure.text, hplaces]; rfl⟩
  · rw [run_loadInPlace, hf]

/-- A marker that names no class, of a permission that is not requested. -/
example : (load ⟨"LMarked;", "LReplaces;"⟩ ⟨[{
      name := ⟨"Stub"⟩
      modifiers := [.public]
      source := none
      superclass := none
      interfaces := []
      annotations := [⟨.build, .object ⟨"Marked"⟩, []⟩]
      fields := []
      methods := [{
        name := "stop"
        modifiers := [.public, .static]
        isConstructor := false
        proto := ⟨[.object ⟨"Sensor"⟩], .void⟩
        locals := some 0
        annotations := [⟨.build, .object ⟨"Replaces"⟩, [⟨"permission", .single "\"CALL\""⟩]⟩]
        body := [] }] }], 19⟩ ∅ .empty).value =
    .error ((Cause.missingElement (.object ⟨"Replaces"⟩)).failure.within "LStub;->stop") := by
  cbv

end Markers

end GatedCalls
