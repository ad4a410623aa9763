import Workbench.Proofs.Syntax.Index
import Workbench.Toy.Compiler

/-!
What a compile of the toy language depends on. It goes through exactly if every source parses. The
tree of a file then depends on its text alone, and its warnings depend on its text and on which
class names resolve at all, no matter where they are declared.
-/

namespace Workbench.Toy

/-- The tree of a text, if the text parses. -/
def tree? (text : String) : Option FileSyntax := (parse text).toOption.map Parsed.tree

/-- Every source parses. -/
def AllParse (sources : SourceSet) : Prop :=
  ∀ (file : FileId) (source : SourceFile), sources[file]? = some source →
    ∃ parsed, parse source.text = .ok parsed

/-- A class name that some source declares or the environment knows. -/
def Resolves (sources : SourceSet) (env : CompileEnvironment) (name : String) : Prop :=
  name ∈ declaredNames (parsedFiles sources) ∨ env.knowsClass name

def outputOf (sources : SourceSet) (env : CompileEnvironment) : CompileOutput where
  trees := (parsedFiles sources).map fun _ p => p.tree
  diagnostics := (parsedFiles sources).filterMap fun _ p =>
    let found := warnings (declaredNames (parsedFiles sources)) env p
    if found.isEmpty then none else some found

/-! ### When a compile goes through -/

theorem getElem?_syntaxErrors (sources : SourceSet) (file : FileId) :
    (syntaxErrors sources)[file]? =
      sources[file]?.bind fun source =>
        match parse source.text with
        | .ok _ => none
        | .error errors => some errors :=
  Std.ExtTreeMap.getElem?_filterMap'

theorem isEmpty_syntaxErrors {sources : SourceSet} :
    (syntaxErrors sources).isEmpty ↔ AllParse sources := by
  constructor
  · intro hempty file source hsource
    have hnone : (syntaxErrors sources)[file]? = none := by
      rw [Std.ExtTreeMap.isEmpty_iff.mp hempty]
      simp
    rw [getElem?_syntaxErrors, hsource, Option.bind_some] at hnone
    split at hnone
    · exact ⟨_, ‹_›⟩
    · contradiction
  · intro hparse
    rw [Std.ExtTreeMap.isEmpty_iff]
    apply Std.ExtTreeMap.ext_getElem?
    intro file
    rw [getElem?_syntaxErrors]
    cases hsource : sources[file]? with
    | none => simp
    | some source =>
        obtain ⟨parsed, hparsed⟩ := hparse file source hsource
        simp [hparsed]

/-- A compile goes through if and only if every source parses, and then its output is fixed. -/
theorem compileSources_eq_ok {sources : SourceSet} {env : CompileEnvironment}
    {output : CompileOutput} :
    compileSources sources env = .ok output ↔
      AllParse sources ∧ output = outputOf sources env := by
  rw [← isEmpty_syntaxErrors, compileSources]
  by_cases hempty : (syntaxErrors sources).isEmpty
  · simp only [hempty, if_true, Except.ok.injEq, true_and]
    exact eq_comm
  · simp [hempty]

/-- Only a run that was not told to fail goes through, and then it is a compile. -/
theorem compileSources_of_run {state state' : CompilerState} {sources : SourceSet}
    {env : CompileEnvironment} {output : CompileOutput}
    (h : Compiler.compile state sources env = (state', .ok output)) :
    compileSources sources env = .ok output := by
  change run state sources env = (state', .ok output) at h
  rw [run] at h
  split at h
  · simp at h
  · exact (Prod.mk.inj h).2

/-- A compiler that was not told to fail compiles. -/
theorem compile_eq {state : CompilerState} (hnext : state.failNext = none)
    (hfailing : state.failing = none) (sources : SourceSet) (env : CompileEnvironment) :
    (Compiler.compile state sources env).2 = compileSources sources env := by
  change (run state sources env).2 = _
  simp only [run, hnext, hfailing]
  rfl

/-! ### Trees -/

theorem getElem?_parsedFiles (sources : SourceSet) (file : FileId) :
    (parsedFiles sources)[file]? =
      sources[file]?.bind fun source => (parse source.text).toOption := by
  rw [parsedFiles, Std.ExtTreeMap.getElem?_filterMap']

/-- The tree of a file is that of its text. -/
theorem getElem?_trees_outputOf (sources : SourceSet) (env : CompileEnvironment) (file : FileId) :
    (outputOf sources env).trees[file]? = sources[file]?.bind fun source => tree? source.text := by
  rw [outputOf, Std.ExtTreeMap.getElem?_map, getElem?_parsedFiles]
  cases sources[file]? <;> rfl

theorem mem_declaredNames {sources : SourceSet} {name : String} :
    name ∈ declaredNames (parsedFiles sources) ↔
      ∃ (file : FileId) (source : SourceFile) (tree : FileSyntax),
        sources[file]? = some source ∧ tree? source.text = some tree ∧ tree.Declares name := by
  simp only [declaredNames, Std.ExtTreeSet.mem_ofList, List.contains_eq_mem, List.mem_flatMap,
    decide_eq_true_eq, List.mem_map]
  constructor
  · rintro ⟨⟨file, parsed⟩, hparsed, c, hc, hname⟩
    rw [Std.ExtTreeMap.mem_toList_iff_getElem?_eq_some, getElem?_parsedFiles] at hparsed
    obtain ⟨source, hsource, htext⟩ := Option.bind_eq_some_iff.mp hparsed
    exact ⟨file, source, parsed.tree, hsource, by rw [tree?, htext]; rfl, c, hc, hname⟩
  · rintro ⟨file, source, tree, hsource, htree, c, hc, hname⟩
    obtain ⟨parsed, hparsed, rfl⟩ := Option.map_eq_some_iff.mp htree
    refine ⟨(file, parsed), ?_, c, hc, hname⟩
    rw [Std.ExtTreeMap.mem_toList_iff_getElem?_eq_some, getElem?_parsedFiles, hsource]
    exact hparsed

/-! ### Warnings -/

theorem warnings_congr {declared declared' : Std.ExtTreeSet String}
    {env env' : CompileEnvironment} (p : Parsed)
    (h : ∀ name, (name ∈ declared ∨ env.knowsClass name) ↔
      (name ∈ declared' ∨ env'.knowsClass name)) :
    warnings declared env p = warnings declared' env' p := by
  unfold warnings
  congr 2
  apply List.filter_congr
  rintro ⟨name, range⟩ -
  dsimp only
  rw [← Bool.not_or, ← Bool.not_or, Bool.not_inj_iff, Bool.eq_iff_iff, Bool.or_eq_true,
    Bool.or_eq_true, ← Std.ExtTreeSet.mem_iff_contains, ← Std.ExtTreeSet.mem_iff_contains]
  exact h name

theorem ofFile_diagnostics_outputOf (sources : SourceSet) (env : CompileEnvironment)
    (file : FileId) :
    (outputOf sources env).diagnostics.ofFile file =
      ((parsedFiles sources)[file]?.map
        (warnings (declaredNames (parsedFiles sources)) env)).getD [] := by
  rw [DiagnosticMap.ofFile, Std.ExtTreeMap.getD_eq_getD_getElem?, outputOf,
    Std.ExtTreeMap.getElem?_filterMap']
  cases (parsedFiles sources)[file]? with
  | none => rfl
  | some p =>
      simp only [Option.bind_some, Option.map_some, Option.getD_some]
      split
      · rename_i hempty
        rw [List.isEmpty_iff.mp hempty]
        rfl
      · rfl

/-- The same text gets the same warnings wherever the same names resolve. -/
theorem ofFile_diagnostics_congr {sources sources' : SourceSet} {env env' : CompileEnvironment}
    {file : FileId} (hsource : sources[file]? = sources'[file]?)
    (hresolves : ∀ name, Resolves sources env name ↔ Resolves sources' env' name) :
    (outputOf sources env).diagnostics.ofFile file =
      (outputOf sources' env').diagnostics.ofFile file := by
  rw [ofFile_diagnostics_outputOf, ofFile_diagnostics_outputOf, getElem?_parsedFiles,
    getElem?_parsedFiles, hsource]
  congr 2
  funext p
  exact warnings_congr p hresolves

/-! ### Files of a compile that goes through -/

/-- Every source has a tree, that of its text. -/
theorem getElem?_trees_of_getElem? {sources : SourceSet} {env : CompileEnvironment}
    {output : CompileOutput} (hcompile : compileSources sources env = .ok output) {file : FileId}
    {source : SourceFile} (h : sources[file]? = some source) :
    ∃ parsed, parse source.text = .ok parsed ∧ output.trees[file]? = some parsed.tree := by
  obtain ⟨hparse, rfl⟩ := compileSources_eq_ok.mp hcompile
  obtain ⟨parsed, hparsed⟩ := hparse file source h
  refine ⟨parsed, hparsed, ?_⟩
  rw [getElem?_trees_outputOf, h, Option.bind_some, tree?, hparsed]
  rfl

theorem exists_tree_of_mem {sources : SourceSet} {env : CompileEnvironment}
    {output : CompileOutput} (hcompile : compileSources sources env = .ok output) {file : FileId}
    (h : file ∈ sources) : ∃ tree, output.trees[file]? = some tree := by
  rw [← Std.ExtTreeMap.isSome_getElem?_iff_mem, Option.isSome_iff_exists] at h
  obtain ⟨source, hsource⟩ := h
  obtain ⟨parsed, -, htree⟩ := getElem?_trees_of_getElem? hcompile hsource
  exact ⟨parsed.tree, htree⟩

theorem getElem?_trees_of_not_mem {sources : SourceSet} {env : CompileEnvironment}
    {output : CompileOutput} (hcompile : compileSources sources env = .ok output) {file : FileId}
    (h : file ∉ sources) : output.trees[file]? = none := by
  obtain ⟨-, rfl⟩ := compileSources_eq_ok.mp hcompile
  rw [getElem?_trees_outputOf, Std.ExtTreeMap.getElem?_eq_none h, Option.bind_none]

theorem ofFile_diagnostics_of_not_mem {sources : SourceSet} {env : CompileEnvironment}
    {output : CompileOutput} (hcompile : compileSources sources env = .ok output) {file : FileId}
    (h : file ∉ sources) : output.diagnostics.ofFile file = [] := by
  obtain ⟨-, rfl⟩ := compileSources_eq_ok.mp hcompile
  rw [ofFile_diagnostics_outputOf, getElem?_parsedFiles, Std.ExtTreeMap.getElem?_eq_none h]
  rfl

end Workbench.Toy
