import GatedCalls.Program

/-!
# Names of classes

The check for repeated names passes exactly the programs in which all names differ. In such a
program a class is found by its descriptor, since descriptors determine names.
-/

namespace GatedCalls

namespace ClassName

/-- Different names have different descriptors. -/
theorem descriptor_inj {a b : ClassName} (h : a.descriptor = b.descriptor) : a = b := by
  obtain ⟨a⟩ := a
  obtain ⟨b⟩ := b
  have hlist : 'L' :: (a.toList ++ [';']) = 'L' :: (b.toList ++ [';']) := by
    simpa [descriptor] using congrArg String.toList h
  have hpath : a.toList = b.toList := List.append_cancel_right (List.cons.inj hlist).2
  rw [String.toList_inj.mp hpath]

/-- Nothing is found exactly where no two names are equal and none has been seen before. -/
theorem firstRepeatedFrom?_eq_none {seen : Std.ExtTreeSet ClassName} {cs : List ClassName} :
    firstRepeatedFrom? seen cs = none ↔ cs.Nodup ∧ ∀ c ∈ cs, c ∉ seen := by
  induction cs generalizing seen with
  | nil => simp [firstRepeatedFrom?]
  | cons c cs ih =>
    unfold firstRepeatedFrom?
    split
    case isTrue hseen =>
      simp [hseen]
    case isFalse hseen =>
      rw [ih, List.nodup_cons]
      constructor
      · rintro ⟨hnodup, hfresh⟩
        have hc : c ∉ cs := fun hmem => hfresh c hmem (by simp)
        refine ⟨⟨hc, hnodup⟩, fun d hd => ?_⟩
        obtain rfl | hd := List.mem_cons.mp hd
        · exact hseen
        · exact fun hin => hfresh d hd (by simp [hin])
      · rintro ⟨⟨hc, hnodup⟩, hfresh⟩
        refine ⟨hnodup, fun d hd hin => ?_⟩
        obtain heq | hin := Std.ExtTreeSet.mem_insert.mp hin
        · exact hc (Std.LawfulEqOrd.eq_of_compare heq ▸ hd)
        · exact hfresh d (List.mem_cons_of_mem c hd) hin

/-- A list has no repeated name exactly if all its names differ. -/
theorem firstRepeated?_eq_none {cs : List ClassName} : firstRepeated? cs = none ↔ cs.Nodup := by
  simp [firstRepeated?, firstRepeatedFrom?_eq_none]

end ClassName

namespace Program

/-- The check passes the programs in which all names differ. -/
theorem checkUnique_eq_ok {p : Program} : p.checkUnique = .ok () ↔ p.names.Nodup := by
  rw [← ClassName.firstRepeated?_eq_none]
  unfold checkUnique
  cases ClassName.firstRepeated? p.names <;> simp

/-- Where all names differ, each class is the one that is found by its descriptor. -/
theorem findClass?_of_mem {p : Program} (hunique : p.names.Nodup) {c : ClassDef}
    (hc : c ∈ p.classes) : p.findClass? c.name.descriptor = some c := by
  obtain ⟨classes, apiLevel⟩ := p
  simp only [names, findClass?] at *
  induction classes with
  | nil => cases hc
  | cons d ds ih =>
    obtain ⟨hd, hds⟩ := List.nodup_cons.mp hunique
    obtain rfl | hc := List.mem_cons.mp hc
    · simp
    · have hne : d.name.descriptor ≠ c.name.descriptor := by
        intro heq
        have hname : c.name = d.name := (ClassName.descriptor_inj heq).symm
        exact hd (List.mem_map.mpr ⟨c, hc, hname⟩)
      rw [List.find?_cons_of_neg (by simpa using hne)]
      exact ih hds hc

end Program

end GatedCalls
