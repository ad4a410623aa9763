import Workbench.Proofs.DependencyGraph
import Workbench.Proofs.Scope.Unit
import Workbench.Proofs.Syntax.Index
import Workbench.Scope.Full

/-!
What a compile makes of the trees. An incremental compile has new trees for its working set only. A
full compile visits every file of a rebuilt unit, and no tree of another file is kept. Of a patched
unit only the visited files get new trees, and those removed lose theirs. A visited file without a
new tree, as after a compile that stopped, keeps the one it had.
-/

namespace Workbench

theorem CompileOutput.getElem?_trees_restrict (output : CompileOutput) (files : List FileId)
    (file : FileId) :
    (output.restrict files).trees[file]? = if file ∈ files then output.trees[file]? else none := by
  rw [restrict, Std.ExtTreeMap.getElem?_filter']
  by_cases h : file ∈ files
  · cases output.trees[file]? <;> simp [h]
  · simp [h]

theorem CompileOutput.mem_of_mem_restrict {output : CompileOutput} {files : List FileId}
    {entry : FileId × FileSyntax} (h : entry ∈ (output.restrict files).trees.toList) :
    entry.1 ∈ files := by
  rw [Std.ExtTreeMap.mem_toList_iff_getElem?_eq_some, getElem?_trees_restrict] at h
  split at h
  · assumption
  · contradiction

namespace Scope

theorem get?_trees_accept (s : Scope) (files : List FileId) (sources : List SourceFile)
    (output : CompileOutput) (context : Option FileId) (file : FileId) :
    (s.accept files sources (output.restrict files) context).1.trees.get? file =
      (if file ∈ files then output.trees[file]? else none).or (s.trees.get? file) := by
  rw [accept, SyntaxIndex.get?_insertAll_toList, CompileOutput.getElem?_trees_restrict]

theorem get?_nextTrees_rebuilt (s : Scope) (visited : List FileId) (output : CompileOutput)
    (file : FileId) :
    (s.nextTrees visited output .rebuilt).get? file =
      if file ∈ visited then output.trees[file]?.or (s.trees.get? file) else none := by
  rw [nextTrees, SyntaxIndex.get?_insertAll_filterMap]
  simp [SyntaxIndex.get?]

theorem get?_nextTrees_patched (s : Scope) (visited : List FileId) (output : CompileOutput)
    (added removed : Std.ExtTreeSet FileId) (file : FileId) :
    (s.nextTrees visited output (.patched added removed)).get? file =
      (if file ∈ visited then output.trees[file]? else none).or
        (if file ∈ removed then none else s.trees.get? file) := by
  rw [nextTrees, SyntaxIndex.get?_insertAll_filterMap, SyntaxIndex.get?_foldl_erase]
  simp only [Std.ExtTreeSet.mem_toList]

theorem mem_revisited_rebuilt {unit : CompilationUnit} {affected : Std.ExtTreeSet FileId}
    {file : FileId} : file ∈ revisited unit affected .rebuilt ↔ unit.contains file := by
  rw [revisited, CompilationUnit.files, Std.ExtTreeMap.mem_keys, Std.ExtTreeMap.mem_iff_contains]
  rfl

theorem mem_revisited_patched {unit : CompilationUnit} {affected : Std.ExtTreeSet FileId}
    {added removed : Std.ExtTreeSet FileId} {file : FileId} :
    file ∈ revisited unit affected (.patched added removed) ↔
      (file ∈ affected ∨ file ∈ added) ∧ unit.contains file := by
  simp [revisited]

end Scope

end Workbench
