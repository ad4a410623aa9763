import Workbench.Scope.Report

/-!
What is stored for a file after diagnostics were replaced. A file that was replaced has its fresh
diagnostics in order and without repetition, whether or not they were published again; all other
files have what they had.
-/

namespace Workbench.DiagnosticMap

theorem ofFile_set (m : DiagnosticMap) (file other : FileId) (diagnostics : List Diagnostic) :
    (m.set file diagnostics).ofFile other =
      if other = file then diagnostics else m.ofFile other := by
  unfold set
  split
  case isTrue hempty =>
    by_cases h : other = file
    · simp [ofFile, h, List.isEmpty_iff.mp hempty]
    · simp [ofFile, Std.ExtTreeMap.getD_erase, h, Ne.symm h]
  case isFalse =>
    by_cases h : other = file
    · simp [ofFile, h]
    · simp [ofFile, Std.ExtTreeMap.getD_insert, h, Ne.symm h]

/-- Replaced files have their fresh diagnostics, tidied, and all others what they had. -/
theorem ofFile_replace (stored fresh : DiagnosticMap) (files : List FileId) (file : FileId) :
    (stored.replace fresh files).1.ofFile file =
      if file ∈ files then Diagnostic.tidy (fresh.ofFile file) else stored.ofFile file := by
  induction files generalizing stored with
  | nil => simp [replace]
  | cons first rest ih =>
      simp only [replace, List.mem_cons]
      split
      case isTrue hsame =>
        rw [ih]
        by_cases hrest : file ∈ rest
        · simp [hrest]
        · by_cases hfirst : file = first
          · simp [hfirst, ← hsame]
          · simp [hrest, hfirst]
      case isFalse =>
        rw [ih]
        by_cases hrest : file ∈ rest
        · simp [hrest]
        · by_cases hfirst : file = first <;> simp [hrest, hfirst, ofFile_set]

end Workbench.DiagnosticMap
