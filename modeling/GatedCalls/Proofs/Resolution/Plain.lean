import GatedCalls.Proofs.Resolution.Pass
import GatedCalls.Resolution.Program

/-!
# The resolution is the plain one

What a resolution does to a program can be said entry by entry: `rewritten` gives what stands in the
place of an entry of a body, and `resolvedPlainly` puts that into all bodies and changes nothing
else. The resolution itself copies bodies and lists of methods only where something changes, and
carries its counters through all visits; `resolve_eq_plain` says that it comes to the same program,
and that the counters are the numbers of entries that were redirected, removed and left.
-/

namespace GatedCalls

namespace Resolver

variable (r : Resolver)

/-! ### Entries -/

/-- What stands in the place of an entry: a gated virtual call becomes a static call of its
replacement with the same registers; or, if it has none, returns nothing and may be removed, nothing
at all. Every other entry is itself. -/
def rewritten : BodyItem → List BodyItem
  | .instruction (.call ⟨.virtual, operands, callee⟩) =>
    if r.permissions.contains callee then
      match r.redirections.get? callee with
      | some replacement => [.instruction (.call ⟨.static, operands, replacement⟩)]
      | none =>
        if r.removesVoid && callee.returnsVoid then []
        else [.instruction (.call ⟨.virtual, operands, callee⟩)]
    else [.instruction (.call ⟨.virtual, operands, callee⟩)]
  | item => [item]

/-- The callee of a virtual call of a gated method. -/
def gatedCallee? : BodyItem → Option MethodRef
  | .instruction (.call ⟨.virtual, _, callee⟩) =>
    if r.permissions.contains callee then some callee else none
  | _ => none

/-- Whether an entry is a gated virtual call that has a replacement. -/
def redirects (item : BodyItem) : Bool :=
  (r.gatedCallee? item).any fun callee => (r.redirections.get? callee).isSome

/-- Whether an entry is a gated virtual call that is removed: it has no replacement, returns
nothing, and such calls may be removed. -/
def removes (item : BodyItem) : Bool :=
  (r.gatedCallee? item).any fun callee =>
    (r.redirections.get? callee).isNone && (r.removesVoid && callee.returnsVoid)

/-- Whether an entry is a gated virtual call that stays: it has no replacement and is not
removed. -/
def leaves (item : BodyItem) : Bool :=
  (r.gatedCallee? item).any fun callee =>
    (r.redirections.get? callee).isNone && !(r.removesVoid && callee.returnsVoid)

/-- How many of the entries are redirected, removed and left. -/
def tallyOf (items : List BodyItem) : Tally where
  redirected := items.countP r.redirects
  removed := items.countP r.removes
  unresolved := items.countP r.leaves

/-! ### Methods, classes and programs -/

/-- The method with its calls resolved, entry by entry. -/
def methodPlainly (m : Method) : Method :=
  { m with body := m.body.flatMap r.rewritten }

/-- The class with the calls of its methods resolved. -/
def classPlainly (c : ClassDef) : ClassDef :=
  { c with methods := c.methods.map r.methodPlainly }

/-- The program with the calls of its classes resolved. -/
def resolvedPlainly (p : Program) : Program :=
  { p with classes := p.classes.map r.classPlainly }

end Resolver

/-- The entries of all bodies of a class, in order. -/
def ClassDef.items (c : ClassDef) : List BodyItem :=
  c.methods.flatMap (·.body)

/-- The entries of all bodies of a program, in order. -/
def Program.items (p : Program) : List BodyItem :=
  p.classes.flatMap ClassDef.items

/-- Adds two tallies. -/
instance : Add Tally :=
  ⟨fun s t => ⟨s.redirected + t.redirected, s.removed + t.removed, s.unresolved + t.unresolved⟩⟩

/-- A sum of tallies, counter by counter. -/
theorem Tally.add_def (s t : Tally) :
    s + t = ⟨s.redirected + t.redirected, s.removed + t.removed, s.unresolved + t.unresolved⟩ :=
  rfl

/-- Tallies are added in any grouping. -/
theorem Tally.add_assoc (s t u : Tally) : s + t + u = s + (t + u) := by
  simp only [Tally.add_def, Nat.add_assoc]

/-- Adding to nothing. -/
theorem Tally.zero_add (t : Tally) : Tally.zero + t = t := by
  simp only [Tally.add_def, Tally.zero, Nat.zero_add]

/-- Counting a verdict adds a tally of one. -/
theorem Tally.count_eq_add (t : Tally) (v : Verdict) : t.count v = t + Tally.zero.count v := by
  cases v <;> rfl

namespace Resolver

variable (r : Resolver)

/-- The tally of two lists, one after the other. -/
theorem tallyOf_append (items items' : List BodyItem) :
    r.tallyOf (items ++ items') = r.tallyOf items + r.tallyOf items' := by
  simp only [tallyOf, Tally.add_def, List.countP_append]

/-- The tally of a list that begins with an entry. -/
theorem tallyOf_cons (item : BodyItem) (items : List BodyItem) :
    r.tallyOf (item :: items) = r.tallyOf [item] + r.tallyOf items :=
  r.tallyOf_append [item] items

/-! ### One visit -/

/-- What a visit puts in the place of an entry, if the entry gives way. -/
def instead? (item : BodyItem) : Option (List BodyItem) :=
  match r.site? item with
  | none => none
  | some site => if site.verdict.keeps then none else some site.resolved

/-- The ledger behind an entry. -/
def enterItem (caller : MethodRef) (l : Ledger) (item : BodyItem) : Ledger :=
  match r.site? item with
  | none => l
  | some site => l.enter caller site

/-- A visit enters a call site, and what it puts in depends on the entry alone. -/
theorem visitItem_eq (caller : MethodRef) (l : Ledger) (item : BodyItem) :
    r.visitItem caller l item = (r.enterItem caller l item, r.instead? item) := by
  unfold visitItem enterItem instead?
  cases r.site? item <;> rfl

/-- An entry that is no gated virtual call is no call site. -/
theorem site?_eq_none {item : BodyItem} (h : r.gatedCallee? item = none) : r.site? item = none := by
  match item with
  | .label _ | .line _ | .directive _ | .instruction (.other _) => rfl
  | .instruction (.call ⟨dispatch, operands, callee⟩) =>
    cases dispatch with
    | virtual =>
      have hcallee : r.permissions.contains callee = false := by simpa [gatedCallee?] using h
      have hget : r.permissions.get? callee = none :=
        Std.ExtTreeMap.getElem?_eq_none_of_contains_eq_false hcallee
      simp [site?, siteOfCall?, hget]
    | super | direct | static | interface => rfl

/-- A gated virtual call is a call site with the verdict on its callee. -/
theorem exists_site {item : BodyItem} {callee : MethodRef} (h : r.gatedCallee? item = some callee) :
    ∃ operands permissions, item = .instruction (.call ⟨.virtual, operands, callee⟩) ∧
      r.permissions.contains callee = true ∧
      r.site? item = some ⟨⟨.virtual, operands, callee⟩, permissions, r.verdict callee⟩ := by
  match item with
  | .label _ | .line _ | .directive _ | .instruction (.other _) => simp [gatedCallee?] at h
  | .instruction (.call ⟨dispatch, operands, callee'⟩) =>
    cases dispatch with
    | virtual =>
      obtain ⟨hcontains, rfl⟩ : r.permissions.contains callee' = true ∧ callee' = callee := by
        simpa [gatedCallee?] using h
      obtain ⟨permissions, hget⟩ : ∃ permissions, r.permissions.get? callee' = some permissions := by
        have : callee' ∈ r.permissions.apis := hcontains
        exact ⟨_, Std.ExtTreeMap.getElem?_eq_some_getElem this⟩
      exact ⟨operands, permissions, rfl, hcontains, by simp [site?, siteOfCall?, hget]; rfl⟩
    | super | direct | static | interface => simp [gatedCallee?] at h

/-- An entry that is no gated virtual call stays. -/
theorem rewritten_eq_self {item : BodyItem} (h : r.gatedCallee? item = none) :
    r.rewritten item = [item] := by
  match item with
  | .label _ | .line _ | .directive _ | .instruction (.other _) => rfl
  | .instruction (.call ⟨dispatch, operands, callee⟩) =>
    cases dispatch with
    | virtual =>
      have hcallee : r.permissions.contains callee = false := by simpa [gatedCallee?] using h
      simp [rewritten, hcallee]
    | super | direct | static | interface => rfl

/-- What a visit puts in is what the plain resolution puts in the place of the entry. -/
theorem getD_instead? (item : BodyItem) : (r.instead? item).getD [item] = r.rewritten item := by
  cases hcallee : r.gatedCallee? item with
  | none =>
    have hsite := r.site?_eq_none hcallee
    rw [r.rewritten_eq_self hcallee]
    simp [instead?, hsite]
  | some callee =>
    obtain ⟨operands, permissions, rfl, hcontains, hsite⟩ := r.exists_site hcallee
    -- The three verdicts.
    cases hget : r.redirections.get? callee with
    | some replacement =>
      simp [instead?, hsite, rewritten, hcontains, hget, verdict, Verdict.keeps,
        CallSite.resolved, Call.redirect]
    | none =>
      cases hvoid : r.removesVoid && callee.returnsVoid with
      | true =>
        simp [instead?, hsite, rewritten, hcontains, hget, verdict, hvoid, Verdict.keeps,
          CallSite.resolved]
      | false =>
        simp [instead?, hsite, rewritten, hcontains, hget, verdict, hvoid, Verdict.keeps]

/-- An entry that is no gated virtual call is not counted. -/
theorem tallyOf_other {item : BodyItem} (h : r.gatedCallee? item = none) :
    r.tallyOf [item] = Tally.zero := by
  simp [tallyOf, redirects, removes, leaves, h, Tally.zero]

/-- A gated virtual call is counted under the verdict on its callee. -/
theorem tallyOf_gated {item : BodyItem} {callee : MethodRef} (h : r.gatedCallee? item = some callee) :
    r.tallyOf [item] = Tally.zero.count (r.verdict callee) := by
  simp only [tallyOf, List.countP_singleton, redirects, removes, leaves, h, Option.any_some]
  unfold verdict
  cases r.redirections.get? callee with
  | some replacement => rfl
  | none => cases r.removesVoid && callee.returnsVoid <;> rfl

/-- A visit counts the entry under its verdict. -/
theorem tally_enterItem (caller : MethodRef) (l : Ledger) (item : BodyItem) :
    (r.enterItem caller l item).tally = l.tally + r.tallyOf [item] := by
  cases hcallee : r.gatedCallee? item with
  | none =>
    rw [r.tallyOf_other hcallee, enterItem, r.site?_eq_none hcallee]
    rfl
  | some callee =>
    obtain ⟨operands, permissions, -, -, hsite⟩ := r.exists_site hcallee
    rw [r.tallyOf_gated hcallee, enterItem, hsite]
    exact Tally.count_eq_add l.tally (r.verdict callee)

/-- Visits count all entries under their verdicts. -/
theorem tally_foldl_enterItem (caller : MethodRef) (l : Ledger) (items : List BodyItem) :
    (items.foldl (r.enterItem caller) l).tally = l.tally + r.tallyOf items := by
  induction items generalizing l with
  | nil => rfl
  | cons item items ih =>
    rw [List.foldl_cons, ih, r.tally_enterItem, Tally.add_assoc, ← r.tallyOf_cons]

/-! ### Methods -/

/-- What a visit puts in the place of a method, if its body changes. -/
def newMethod? (m : Method) : Option (List Method) :=
  if m.body.any fun item => (r.instead? item).isSome then some [r.methodPlainly m] else none

/-- The ledger behind the entries of a method. -/
def enterMethod (c : ClassDef) (l : Ledger) (m : Method) : Ledger :=
  m.body.foldl (r.enterItem (c.methodRef m)) l

/-- Replacing item by item is what the plain resolution does to a body. -/
theorem replaceItems_instead? (items : List BodyItem) :
    replaceItems r.instead? items = items.flatMap r.rewritten := by
  unfold replaceItems
  simp only [getD_instead?]

/-- A body in which no entry gives way stays as it is. -/
theorem methodPlainly_eq_self {m : Method}
    (h : (m.body.any fun item => (r.instead? item).isSome) = false) : r.methodPlainly m = m := by
  have hbody : m.body.flatMap r.rewritten = m.body := by
    rw [← r.replaceItems_instead?]
    exact replaceItems_of_not_any h
  unfold methodPlainly
  rw [hbody]

/-- A method without code has no entries. -/
theorem body_of_hasBody_eq_false {m : Method} (h : m.hasBody = false) : m.body = [] := by
  have hboth := Bool.or_eq_false_iff.mp h
  have hempty : m.body.isEmpty = true := by simpa using hboth.2
  exact List.isEmpty_iff.mp hempty

/-- A visit of a method enters its call sites, and what it puts in depends on the method alone. -/
theorem visitMethod_eq (c : ClassDef) (l : Ledger) (m : Method) :
    r.visitMethod c l m = (r.enterMethod c l m, r.newMethod? m) := by
  unfold visitMethod
  cases hcode : m.hasBody with
  | false =>
    have hbody := body_of_hasBody_eq_false hcode
    simp [enterMethod, newMethod?, hbody]
  | true =>
    have hpass := rewriteList_eq (r.visitItem_eq (c.methodRef m)) l m.body
    simp only [if_true, resolveMethod, hpass, enterMethod, newMethod?]
    rw [r.replaceItems_instead?]
    split <;> rfl

/-- What a visit puts in is the method with its calls resolved. -/
theorem getD_newMethod? (m : Method) : (r.newMethod? m).getD [m] = [r.methodPlainly m] := by
  unfold newMethod?
  cases hany : m.body.any fun item => (r.instead? item).isSome with
  | true => rfl
  | false => rw [r.methodPlainly_eq_self hany]; rfl

/-- Visits count the entries of all methods. -/
theorem tally_foldl_enterMethod (c : ClassDef) (l : Ledger) (ms : List Method) :
    (ms.foldl (r.enterMethod c) l).tally = l.tally + r.tallyOf (ms.flatMap (·.body)) := by
  induction ms generalizing l with
  | nil => rfl
  | cons m ms ih =>
    have hm : (r.enterMethod c l m).tally = l.tally + r.tallyOf m.body :=
      r.tally_foldl_enterItem (c.methodRef m) l m.body
    rw [List.foldl_cons, ih, hm, Tally.add_assoc, List.flatMap_cons, ← r.tallyOf_append]

/-! ### Classes -/

/-- Replacing method by method is what the plain resolution does to the methods of a class. -/
theorem replaceItems_newMethod? (ms : List Method) :
    replaceItems r.newMethod? ms = ms.map r.methodPlainly := by
  unfold replaceItems
  simp only [getD_newMethod?]
  exact List.map_eq_flatMap.symm

/-- The ledger behind a class. -/
def enterClass (l : Ledger) (c : ClassDef) : Ledger :=
  c.methods.foldl (r.enterMethod c) l

/-- The class with its calls resolved, if one of its methods changes. -/
def newClass? (c : ClassDef) : Option ClassDef :=
  if c.methods.any fun m => (r.newMethod? m).isSome then some (r.classPlainly c) else none

/-- Resolving a class enters its call sites, and what comes out depends on the class alone. -/
theorem resolveClass_eq (l : Ledger) (c : ClassDef) :
    r.resolveClass l c = (r.enterClass l c, r.newClass? c) := by
  have hpass := rewriteList_eq (r.visitMethod_eq c) l c.methods
  simp only [resolveClass, hpass, enterClass, newClass?]
  rw [r.replaceItems_newMethod?]
  split <;> rfl

/-- The class that stands in the place of a class is the one with its calls resolved. -/
theorem getD_newClass? (c : ClassDef) : (r.newClass? c).getD c = r.classPlainly c := by
  unfold newClass?
  cases hany : c.methods.any fun m => (r.newMethod? m).isSome with
  | true => rfl
  | false =>
    have hmethods : c.methods.map r.methodPlainly = c.methods := by
      rw [← r.replaceItems_newMethod?]
      exact replaceItems_of_not_any hany
    simp [classPlainly, hmethods]

/-- Resolving a class counts its entries. -/
theorem tally_enterClass (l : Ledger) (c : ClassDef) :
    (r.enterClass l c).tally = l.tally + r.tallyOf c.items :=
  r.tally_foldl_enterMethod c l c.methods

/-! ### Programs -/

/-- Resolving classes goes from one to the next with the ledger. -/
theorem resolveClasses_eq (l : Ledger) (cs : List ClassDef) :
    r.resolveClasses l cs = (cs.foldl r.enterClass l, cs.map fun c => (c, r.newClass? c)) := by
  induction cs generalizing l with
  | nil => rfl
  | cons c cs ih => simp only [resolveClasses, r.resolveClass_eq, ih, List.foldl_cons, List.map_cons]

/-- Resolving classes counts the entries of all of them. -/
theorem tally_foldl_enterClass (l : Ledger) (cs : List ClassDef) :
    (cs.foldl r.enterClass l).tally = l.tally + r.tallyOf (cs.flatMap ClassDef.items) := by
  induction cs generalizing l with
  | nil => rfl
  | cons c cs ih =>
    rw [List.foldl_cons, ih, r.tally_enterClass, Tally.add_assoc, List.flatMap_cons,
      ← r.tallyOf_append]

/-- The program that a resolution yields. -/
theorem program_resolve (p : Program) : (r.resolve p).value.program = r.resolvedPlainly p := by
  simp only [resolve, r.resolveClasses_eq, List.map_map, resolvedPlainly]
  congr 2
  funext c
  exact r.getD_newClass? c

/-- The entries of a resolved program are the old ones, each with what stands in its place. -/
theorem items_resolvedPlainly (p : Program) :
    (r.resolvedPlainly p).items = p.items.flatMap r.rewritten := by
  simp only [Program.items, ClassDef.items, resolvedPlainly, classPlainly, methodPlainly,
    List.flatMap_map, List.flatMap_assoc]

/-- The counters that a resolution yields. -/
theorem tally_resolve (p : Program) : (r.resolve p).value.tally = r.tallyOf p.items := by
  have hcount := r.tally_foldl_enterClass .empty p.classes
  simp only [resolve, r.resolveClasses_eq, hcount]
  exact Tally.zero_add _

/-- A resolution comes to the plain one: the level of the platform, the classes and their order are
kept, of a class and of a method everything but the bodies is kept, and each body is the entries of
the old one in order, each with what stands in its place. The counters are the numbers of entries
in the whole program that are redirected, removed and left. -/
theorem resolve_eq_plain (p : Program) :
    (r.resolve p).value.program = r.resolvedPlainly p ∧
      (r.resolve p).value.tally = r.tallyOf p.items :=
  ⟨r.program_resolve p, r.tally_resolve p⟩

end Resolver

end GatedCalls
