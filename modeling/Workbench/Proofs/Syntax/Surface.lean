import Workbench.Syntax.Signature

/-!
The gate of incremental compiles compares surfaces. It finds no drift only between equal surfaces,
so a compile that passes it declares exactly the class names that were declared before.
-/

namespace Workbench

namespace Surface

theorem mem_foldl_insert (classes : List ClassSignature) (surface : Surface) (name : String) :
    name ∈ classes.foldl (fun surface c => surface.insert c.name c) surface ↔
      (∃ c ∈ classes, c.name = name) ∨ name ∈ surface := by
  induction classes generalizing surface with
  | nil => simp
  | cons c rest ih =>
      rw [List.foldl_cons, ih, Std.ExtTreeMap.mem_insert]
      simp only [Std.LawfulEqCmp.compare_eq_iff_eq, List.mem_cons, exists_eq_or_imp]
      rw [or_left_comm, or_assoc]

theorem mem_ofClasses {classes : List ClassSignature} {name : String} :
    name ∈ ofClasses classes ↔ ∃ c ∈ classes, c.name = name := by
  simpa [ofClasses] using mem_foldl_insert classes ∅ name

/-- Two surfaces without drift are equal. -/
theorem eq_of_drift_eq_nil {before after : Surface} (h : before.drift after = []) :
    before = after := by
  obtain ⟨hold, hnew⟩ := List.append_eq_nil_iff.mp h
  rw [List.filterMap_eq_nil_iff] at hold
  rw [List.map_eq_nil_iff, List.filter_eq_nil_iff] at hnew
  apply Std.ExtTreeMap.ext_getElem?
  intro name
  cases hbefore : before[name]? with
  | some old =>
      have hclass := hold (name, old) (Std.ExtTreeMap.mem_toList_iff_getElem?_eq_some.mpr hbefore)
      simp only [Drift.ofClass?] at hclass
      split at hclass
      · contradiction
      · rename_i new hafter
        split at hclass
        · rw [hafter, ‹new = old›]
        · contradiction
  | none =>
      have hmissing : before.contains name = false := by
        rw [Std.ExtTreeMap.contains_eq_isSome_getElem?, hbefore]
        rfl
      have hkey : name ∉ after.keys := fun hmem => hnew name hmem (by simp [hmissing])
      rw [Std.ExtTreeMap.mem_keys] at hkey
      exact (Std.ExtTreeMap.getElem?_eq_none hkey).symm

end Surface

end Workbench
