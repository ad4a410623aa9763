import Workbench.Compiler.Bench

/-!
The marks of changed files, which are set one by one and cleared in bulk.
-/

namespace Workbench

theorem val_foldl {α β : Type} {P : α → Prop} (g : α → β → α)
    (hg : ∀ (a : { a // P a }) (b : β), P (g a.val b)) (l : List β) (init : { a // P a }) :
    (l.foldl (fun a b => ⟨g a.val b, hg a b⟩) init).val = l.foldl g init.val := by
  induction l generalizing init with
  | nil => rfl
  | cons b l ih => exact ih ⟨g init.val b, hg init b⟩

/-- Elements are erased one after another. -/
theorem eraseMany_eq_foldl (files : Std.ExtTreeSet FileId) (gone : List FileId) :
    files.eraseMany gone = gone.foldl Std.ExtTreeSet.erase files := by
  have hinner : files.eraseMany gone =
      ⟨⟨gone.foldl Std.ExtDTreeMap.erase files.inner.inner⟩⟩ := by
    simp only [Std.ExtTreeSet.eraseMany, Std.ExtTreeMap.eraseMany, Std.ExtDTreeMap.eraseMany,
      List.forIn_pure_yield_eq_foldl]
    congr 2
    exact val_foldl Std.ExtDTreeMap.erase _ gone _
  rw [hinner]
  clear hinner
  induction gone generalizing files with
  | nil => rfl
  | cons file gone ih => exact ih (files.erase file)

theorem mem_eraseMany {files : Std.ExtTreeSet FileId} {gone : List FileId} {file : FileId} :
    file ∈ files.eraseMany gone ↔ file ∈ files ∧ file ∉ gone := by
  rw [eraseMany_eq_foldl]
  induction gone generalizing files with
  | nil => simp
  | cons first gone ih =>
      rw [List.foldl_cons, ih, Std.ExtTreeSet.mem_erase, ne_eq, Std.LawfulEqCmp.compare_eq_iff_eq,
        List.mem_cons, not_or, and_comm (a := ¬ first = file), and_assoc, eq_comm]

namespace Tracker

theorem mem_changed_clearMarks {t : Tracker} {files : List FileId} {file : FileId} :
    file ∈ (t.clearMarks files).changed ↔ file ∈ t.changed ∧ file ∉ files :=
  mem_eraseMany

theorem mem_changed_foldl_mark {files : List FileId} {t : Tracker} {file : FileId} :
    file ∈ (files.foldl mark t).changed ↔ file ∈ t.changed ∨ file ∈ files := by
  induction files generalizing t with
  | nil => simp
  | cons first files ih =>
      rw [List.foldl_cons, ih, mark, Std.ExtTreeSet.mem_insert, Std.LawfulEqCmp.compare_eq_iff_eq,
        List.mem_cons, ← or_assoc, or_comm (a := first = file), eq_comm]

theorem registry_foldl_mark (files : List FileId) (t : Tracker) :
    (files.foldl mark t).registry = t.registry := by
  induction files generalizing t with
  | nil => rfl
  | cons file files ih => exact ih (t.mark file)

theorem clearMarks_nil (t : Tracker) : t.clearMarks [] = t := by
  rw [clearMarks, eraseMany_eq_foldl]
  rfl

end Tracker

end Workbench
