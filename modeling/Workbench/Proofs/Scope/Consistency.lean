import Workbench.Proofs.Scope.Commit
import Workbench.Proofs.Scope.Diagnostics
import Workbench.Proofs.Scope.Pass
import Workbench.Proofs.Syntax.Surface
import Workbench.Proofs.Toy.Compiler

/-!
Incremental compiles against full ones. A scope describes a unit if its trees and diagnostics are
those of a compile of the whole unit. An incremental compile sees only its working set, and of all
other files only the names of their classes; the gate on surfaces keeps these names as they are.
That is enough: if the compile counts, the scope describes the unit with the new texts, and so the
diagnostics of files outside the working set, which were not compiled at all, are still right.
-/

namespace Workbench

open Toy

namespace Scope

/-- The scope holds what a compile of the unit gives: its trees, owners of all their classes, and
its diagnostics in order and without repetition. -/
structure Describes (s : Scope) (unit : CompilationUnit) (output : CompileOutput) : Prop where
  unit_eq : s.unit = some unit
  projectClasses_eq : s.environment.projectClasses = ∅
  compiles : compileSources unit.sources s.environment = .ok output
  trees_eq : s.trees.files = output.trees
  made : s.trees.Made
  complete : s.trees.Complete
  diagnostics_eq : ∀ file,
    s.diagnostics.ofFile file = Diagnostic.tidy (output.diagnostics.ofFile file)

/-- Some file among the given ones has a tree that declares the class. -/
def DeclaredIn (s : Scope) (files : List FileId) (name : String) : Prop :=
  ∃ file ∈ files, ∃ c ∈ s.trees.classesIn file, c.name = name

theorem mem_surfaceOf {s : Scope} {files : List FileId} {name : String} :
    name ∈ s.trees.surfaceOf files ↔ s.DeclaredIn files name := by
  simp only [SyntaxIndex.surfaceOf, Surface.mem_ofClasses, DeclaredIn, List.mem_flatMap]
  constructor
  · rintro ⟨c, ⟨file, hfile, hc⟩, hname⟩
    exact ⟨file, hfile, c, hc, hname⟩
  · rintro ⟨file, hfile, c, hc, hname⟩
    exact ⟨c, ⟨file, hfile, hc⟩, hname⟩

theorem declaredIn_iff {s : Scope} {files : List FileId} {name : String} :
    s.DeclaredIn files name ↔
      ∃ file ∈ files, ∃ tree, s.trees.get? file = some tree ∧ tree.Declares name := by
  constructor
  · rintro ⟨file, hfile, c, hc, hname⟩
    cases htree : s.trees.get? file with
    | none => simp [SyntaxIndex.classesIn, htree] at hc
    | some tree =>
        refine ⟨file, hfile, tree, htree, c, ?_, hname⟩
        simpa [SyntaxIndex.classesIn, htree] using hc
  · rintro ⟨file, hfile, tree, htree, c, hc, hname⟩
    exact ⟨file, hfile, c, by simpa [SyntaxIndex.classesIn, htree] using hc, hname⟩

namespace Describes

variable {s : Scope} {unit : CompilationUnit} {output : CompileOutput}

theorem get?_trees (hs : s.Describes unit output) (file : FileId) :
    s.trees.get? file = unit.sources[file]?.bind fun source => tree? source.text := by
  obtain ⟨-, rfl⟩ := compileSources_eq_ok.mp hs.compiles
  rw [SyntaxIndex.get?, hs.trees_eq, getElem?_trees_outputOf]

/-- The owned classes are exactly those that the sources of the unit declare. -/
theorem mem_classNames (hs : s.Describes unit output) {name : String} :
    name ∈ s.trees.classNames ↔ name ∈ declaredNames (parsedFiles unit.sources) := by
  rw [mem_declaredNames]
  constructor
  · intro h
    obtain ⟨file, howner⟩ := SyntaxIndex.mem_classNames.mp h
    obtain ⟨tree, htree, hdeclares⟩ := hs.made.sound name file howner
    rw [hs.get?_trees] at htree
    obtain ⟨source, hsource, htext⟩ := Option.bind_eq_some_iff.mp htree
    exact ⟨file, source, tree, hsource, htext, hdeclares⟩
  · rintro ⟨file, source, tree, hsource, htext, hdeclares⟩
    apply hs.complete file tree name _ hdeclares
    rw [hs.get?_trees, hsource, Option.bind_some, htext]

end Describes

/-! ### The view of the working set

An incremental compile of `files` was answered by the output of `sources`, and the gate found no
drift. -/

section Accepted

variable {s : Scope} {unit : CompilationUnit} {output : CompileOutput}
variable {files : List FileId} {sources : List SourceFile} {env : CompileEnvironment}

theorem getElem?_trees_restrict (hfiles : sources.map SourceFile.file = files) (file : FileId) :
    ((outputOf (.ofList sources) env).restrict files).trees[file]? =
      (SourceSet.ofList sources)[file]?.bind fun source => tree? source.text := by
  rw [CompileOutput.getElem?_trees_restrict, getElem?_trees_outputOf]
  split
  case isTrue => rfl
  case isFalse hfile =>
    rw [← hfiles, ← SourceSet.isSome_getElem?_ofList, Option.not_isSome_iff_eq_none] at hfile
    rw [hfile, Option.bind_none]

/-- Without drift the working set declares the class names that it declared before. -/
theorem declaredIn_iff_of_no_drift (hfiles : sources.map SourceFile.file = files)
    (hdrift : (s.trees.surfaceOf files).drift
      ((outputOf (.ofList sources) env).restrict files).surface = []) {name : String} :
    s.DeclaredIn files name ↔ name ∈ declaredNames (parsedFiles (.ofList sources)) := by
  rw [← mem_surfaceOf, Surface.eq_of_drift_eq_nil hdrift, CompileOutput.surface,
    Surface.mem_ofClasses, mem_declaredNames]
  simp only [List.mem_flatMap]
  constructor
  · rintro ⟨c, ⟨⟨file, tree⟩, htree, hc⟩, hname⟩
    rw [Std.ExtTreeMap.mem_toList_iff_getElem?_eq_some, getElem?_trees_restrict hfiles] at htree
    obtain ⟨source, hsource, htext⟩ := Option.bind_eq_some_iff.mp htree
    exact ⟨file, source, tree, hsource, htext, c, hc, hname⟩
  · rintro ⟨file, source, tree, hsource, htext, c, hc, hname⟩
    refine ⟨c, ⟨(file, tree), ?_, hc⟩, hname⟩
    rw [Std.ExtTreeMap.mem_toList_iff_getElem?_eq_some, getElem?_trees_restrict hfiles, hsource,
      Option.bind_some, htext]

/-- The refreshed unit declares what the working set declares now and what others declare. -/
theorem mem_declaredNames_insertAll (hfiles : sources.map SourceFile.file = files)
    (unit : CompilationUnit) {name : String} :
    name ∈ declaredNames (parsedFiles (unit.insertAll sources).sources) ↔
      name ∈ declaredNames (parsedFiles (.ofList sources)) ∨
        ∃ (file : FileId) (source : SourceFile) (tree : FileSyntax), file ∉ files ∧
          unit.sources[file]? = some source ∧ tree? source.text = some tree ∧
          tree.Declares name := by
  rw [mem_declaredNames, mem_declaredNames]
  constructor
  · rintro ⟨file, source, tree, hsource, htree⟩
    by_cases hfile : file ∈ files
    · rw [CompilationUnit.getElem?_insertAll_of_mem hfiles unit hfile] at hsource
      exact .inl ⟨file, source, tree, hsource, htree⟩
    · rw [CompilationUnit.getElem?_insertAll_of_not_mem hfiles unit hfile] at hsource
      exact .inr ⟨file, source, tree, hfile, hsource, htree⟩
  · rintro (⟨file, source, tree, hsource, htree⟩ | ⟨file, source, tree, hfile, hsource, htree⟩)
    · have hfile : file ∈ files := by
        rw [← hfiles, ← SourceSet.isSome_getElem?_ofList, hsource]
        rfl
      exact ⟨file, source, tree,
        (CompilationUnit.getElem?_insertAll_of_mem hfiles unit hfile).trans hsource, htree⟩
    · exact ⟨file, source, tree,
        (CompilationUnit.getElem?_insertAll_of_not_mem hfiles unit hfile).trans hsource, htree⟩

end Accepted

/-! ### The same names resolve -/

namespace Describes

variable {s : Scope} {unit : CompilationUnit} {output : CompileOutput}
variable {files : List FileId} {sources : List SourceFile}

/-- A name that the unit declares is declared in the working set or by a file outside it. -/
theorem mem_declaredNames_unit (hs : s.Describes unit output) (files : List FileId)
    {name : String} :
    name ∈ declaredNames (parsedFiles unit.sources) ↔
      s.DeclaredIn files name ∨
        ∃ (file : FileId) (source : SourceFile) (tree : FileSyntax), file ∉ files ∧
          unit.sources[file]? = some source ∧ tree? source.text = some tree ∧
          tree.Declares name := by
  rw [mem_declaredNames, declaredIn_iff]
  constructor
  · rintro ⟨file, source, tree, hsource, htext, hdeclares⟩
    by_cases hfile : file ∈ files
    · refine .inl ⟨file, hfile, tree, ?_, hdeclares⟩
      rw [hs.get?_trees, hsource, Option.bind_some, htext]
    · exact .inr ⟨file, source, tree, hfile, hsource, htext, hdeclares⟩
  · rintro (⟨file, hfile, tree, htree, hdeclares⟩ |
      ⟨file, source, tree, hfile, hsource, htext, hdeclares⟩)
    · rw [hs.get?_trees] at htree
      obtain ⟨source, hsource, htext⟩ := Option.bind_eq_some_iff.mp htree
      exact ⟨file, source, tree, hsource, htext, hdeclares⟩
    · exact ⟨file, source, tree, hsource, htext, hdeclares⟩

/-- The environment of an incremental compile knows the classes declared outside the working set,
and what the environment of the scope knows. -/
theorem knowsClass_outerEnvironment (hs : s.Describes unit output) {name : String} :
    (s.outerEnvironment files).knowsClass name ↔
      (name ∈ s.trees.classNames ∧ ¬ s.DeclaredIn files name) ∨ s.environment.knowsClass name := by
  have hhere : (s.trees.surfaceOf files).contains name ↔ s.DeclaredIn files name := by
    rw [← Std.ExtTreeMap.mem_iff_contains, mem_surfaceOf]
  simp only [outerEnvironment, CompileEnvironment.knowsClass, hs.projectClasses_eq, Bool.or_eq_true,
    Std.ExtTreeSet.contains_ofList, List.contains_iff_mem, List.mem_filter, Bool.not_eq_true',
    ← Bool.not_eq_true, hhere, Std.ExtTreeSet.contains_empty, Bool.false_eq_true, false_or,
    or_assoc]

/-- The refreshed unit resolves the names that the unit resolved before. -/
theorem resolves_unit_iff (hs : s.Describes unit output)
    (hfiles : sources.map SourceFile.file = files)
    (hkept : ∀ name, s.DeclaredIn files name ↔ name ∈ declaredNames (parsedFiles (.ofList sources)))
    (name : String) :
    Resolves unit.sources s.environment name ↔
      Resolves (unit.insertAll sources).sources s.environment name := by
  rw [Resolves, Resolves, hs.mem_declaredNames_unit files, hkept,
    ← mem_declaredNames_insertAll hfiles unit]

/-- The working set by itself resolves the names that the refreshed unit resolves. -/
theorem resolves_working_iff (hs : s.Describes unit output)
    (hfiles : sources.map SourceFile.file = files)
    (hkept : ∀ name, s.DeclaredIn files name ↔ name ∈ declaredNames (parsedFiles (.ofList sources)))
    (name : String) :
    Resolves (.ofList sources) (s.outerEnvironment files) name ↔
      Resolves (unit.insertAll sources).sources s.environment name := by
  rw [Resolves, Resolves, hs.knowsClass_outerEnvironment, hs.mem_classNames,
    hs.mem_declaredNames_unit files, mem_declaredNames_insertAll hfiles unit, ← hkept]
  constructor
  · rintro (hhere | ⟨hhere | houtside, hnot⟩ | hknown)
    · exact .inl (.inl hhere)
    · exact absurd hhere hnot
    · exact .inl (.inr houtside)
    · exact .inr hknown
  · rintro ((hhere | houtside) | hknown)
    · exact .inl hhere
    · by_cases hhere : s.DeclaredIn files name
      · exact .inl hhere
      · exact .inr (.inl ⟨.inr houtside, hhere⟩)
    · exact .inr (.inr hknown)

/-! ### A compile that counts -/

theorem allParse_insertAll (hs : s.Describes unit output)
    (hfiles : sources.map SourceFile.file = files) (hparse : AllParse (.ofList sources)) :
    AllParse (unit.insertAll sources).sources := by
  intro file source hsource
  by_cases hfile : file ∈ files
  · rw [CompilationUnit.getElem?_insertAll_of_mem hfiles unit hfile] at hsource
    exact hparse file source hsource
  · rw [CompilationUnit.getElem?_insertAll_of_not_mem hfiles unit hfile] at hsource
    exact (compileSources_eq_ok.mp hs.compiles).1 file source hsource

/-- With the new trees of the working set the index has the trees of the refreshed unit. -/
theorem files_insertAll (hs : s.Describes unit output)
    (hfiles : sources.map SourceFile.file = files) (hparse : AllParse (.ofList sources)) :
    (s.trees.insertAll ((outputOf (.ofList sources) (s.outerEnvironment files)).restrict
        files).trees.toList).files =
      (outputOf (unit.insertAll sources).sources s.environment).trees := by
  apply Std.ExtTreeMap.ext_getElem?
  intro file
  have hget := s.trees.get?_insertAll_toList
    ((outputOf (.ofList sources) (s.outerEnvironment files)).restrict files).trees file
  rw [SyntaxIndex.get?] at hget
  rw [hget, getElem?_trees_restrict hfiles, getElem?_trees_outputOf, hs.get?_trees,
    CompilationUnit.getElem?_insertAll]
  cases hread : (SourceSet.ofList sources)[file]? with
  | none => simp
  | some source =>
      obtain ⟨parsed, hparsed⟩ := hparse file source hread
      simp [tree?, hparsed, Except.toOption]

/-- Every class of the refreshed unit has an owner: one of the working set got it when its new tree
was put in, and the others were not touched. -/
theorem complete_insertAll (hs : s.Describes unit output)
    (hfiles : sources.map SourceFile.file = files) (hparse : AllParse (.ofList sources))
    (hkept : ∀ name,
      s.DeclaredIn files name ↔ name ∈ declaredNames (parsedFiles (.ofList sources))) :
    (s.trees.insertAll ((outputOf (.ofList sources) (s.outerEnvironment files)).restrict
      files).trees.toList).Complete := by
  intro file tree name htree hdeclares
  rw [SyntaxIndex.get?, hs.files_insertAll hfiles hparse, getElem?_trees_outputOf] at htree
  obtain ⟨source, hsource, htext⟩ := Option.bind_eq_some_iff.mp htree
  have hdeclared : name ∈ declaredNames (parsedFiles (unit.insertAll sources).sources) :=
    mem_declaredNames.mpr ⟨file, source, tree, hsource, htext, hdeclares⟩
  by_cases hnew : ∃ entry ∈ ((outputOf (.ofList sources) (s.outerEnvironment files)).restrict
      files).trees.toList, entry.2.Declares name
  · exact SyntaxIndex.mem_classNames_insertAll s.trees (fun entry hentry =>
      Std.ExtTreeMap.mem_toList_iff_getElem?_eq_some.mp hentry) hnew
  · have hnot : name ∉ declaredNames (parsedFiles (.ofList sources)) := by
      intro hmem
      obtain ⟨file, source, tree, hsource, htext, hdeclares⟩ := mem_declaredNames.mp hmem
      refine hnew ⟨(file, tree), ?_, hdeclares⟩
      rw [Std.ExtTreeMap.mem_toList_iff_getElem?_eq_some, getElem?_trees_restrict hfiles, hsource,
        Option.bind_some, htext]
    -- Then it was declared outside the working set only, and its owner is as before.
    have howned : name ∈ s.trees.classNames := by
      rw [hs.mem_classNames, hs.mem_declaredNames_unit files, hkept]
      exact (mem_declaredNames_insertAll hfiles unit).mp hdeclared
    obtain ⟨owner, howner⟩ := SyntaxIndex.mem_classNames.mp howned
    rw [SyntaxIndex.mem_classNames]
    refine ⟨owner, ?_⟩
    rw [SyntaxIndex.declaringFile?_insertAll_of_not_declared
      (fun entry hentry hd => hnew ⟨entry, hentry, hd⟩) ?_, howner]
    rintro entry hentry hold
    apply hnot
    rw [← hkept]
    exact ⟨entry.1, CompileOutput.mem_of_mem_restrict hentry, hold⟩

/-- An incremental compile that counts leaves a scope that describes the refreshed unit. -/
theorem describes_accept (hs : s.Describes unit output)
    (hfiles : sources.map SourceFile.file = files) {found : CompileOutput}
    (hcompile : compileSources (.ofList sources) (s.outerEnvironment files) = .ok found)
    (hdrift : (s.trees.surfaceOf files).drift (found.restrict files).surface = [])
    (context : Option FileId) :
    (s.accept files sources (found.restrict files) context).1.Describes (unit.insertAll sources)
      (outputOf (unit.insertAll sources).sources s.environment) := by
  obtain ⟨hparse, rfl⟩ := compileSources_eq_ok.mp hcompile
  have hkept : ∀ name,
      s.DeclaredIn files name ↔ name ∈ declaredNames (parsedFiles (.ofList sources)) :=
    fun name => declaredIn_iff_of_no_drift hfiles hdrift
  constructor
  case unit_eq => simp [accept, hs.unit_eq]
  case projectClasses_eq => exact hs.projectClasses_eq
  case compiles => exact compileSources_eq_ok.mpr ⟨hs.allParse_insertAll hfiles hparse, rfl⟩
  case trees_eq => exact hs.files_insertAll hfiles hparse
  case made => exact hs.made.insertAll _
  case complete => exact hs.complete_insertAll hfiles hparse hkept
  case diagnostics_eq =>
    intro file
    obtain ⟨-, hold⟩ := compileSources_eq_ok.mp hs.compiles
    rw [accept, DiagnosticMap.ofFile_replace]
    split
    case isTrue hfile =>
      congr 1
      exact ofFile_diagnostics_congr
        (CompilationUnit.getElem?_insertAll_of_mem hfiles unit hfile).symm
        (hs.resolves_working_iff hfiles hkept)
    case isFalse hfile =>
      rw [hs.diagnostics_eq, hold]
      congr 1
      exact ofFile_diagnostics_congr
        (CompilationUnit.getElem?_insertAll_of_not_mem hfiles unit hfile).symm
        (hs.resolves_unit_iff hfiles hkept)

end Describes

/-! ### Full compiles of a new unit -/

/-- A full compile that goes through and builds the unit anew leaves a scope that describes the
unit, whatever the scope held before. -/
theorem describes_commit (s : Scope) {unit : CompilationUnit} {output : CompileOutput}
    (hproject : s.environment.projectClasses = ∅)
    (hcompile : compileSources unit.sources s.environment = .ok output)
    (affected : Std.ExtTreeSet FileId) (context : Option FileId) (reason : FullCompileReason) :
    (s.commit unit .rebuilt affected output false context reason).1.Describes unit output := by
  have hget (file : FileId) :
      (s.nextTrees (revisited unit affected .rebuilt) output .rebuilt).get? file =
        output.trees[file]? := by
    rw [get?_nextTrees_rebuilt]
    by_cases hfile : unit.contains file
    · obtain ⟨tree, htree⟩ :=
        exists_tree_of_mem hcompile (Std.ExtTreeMap.mem_iff_contains.mpr hfile)
      rw [if_pos (mem_revisited_rebuilt.mpr hfile), htree, Option.some_or]
    · rw [if_neg fun hmem => hfile (mem_revisited_rebuilt.mp hmem),
        getElem?_trees_of_not_mem hcompile fun hmem =>
          hfile (Std.ExtTreeMap.mem_iff_contains.mp hmem)]
  constructor
  case unit_eq => rfl
  case projectClasses_eq => exact hproject
  case compiles => exact hcompile
  case trees_eq => exact Std.ExtTreeMap.ext_getElem? fun file => hget file
  case made => exact SyntaxIndex.Made.empty.insertAll _
  case complete =>
    intro file tree name htree hdeclares
    have hnew : output.trees[file]? = some tree := (hget file).symm.trans htree
    have hfile : unit.contains file := by
      apply Decidable.byContradiction
      intro hnot
      rw [getElem?_trees_of_not_mem hcompile fun hmem =>
        hnot (Std.ExtTreeMap.mem_iff_contains.mp hmem)] at hnew
      contradiction
    apply SyntaxIndex.mem_classNames_insertAll _
      fun entry hentry => (SyntaxIndex.mem_filterMap_trees.mp hentry).2
    refine ⟨(file, tree), SyntaxIndex.mem_filterMap_trees.mpr
      ⟨mem_revisited_rebuilt.mpr hfile, ?_⟩, hdeclares⟩
    rw [hnew]
    rfl
  case diagnostics_eq =>
    intro file
    rw [commit, DiagnosticMap.ofFile_replace]
    split
    case isTrue => rfl
    case isFalse hdiagnosed =>
      simp only [diagnosed, Std.ExtTreeSet.mem_toList, Std.ExtTreeSet.mem_ofList,
        List.contains_eq_mem, List.mem_append, decide_eq_true_eq, not_or,
        Std.ExtTreeMap.mem_keys, CompilationUnit.files] at hdiagnosed
      rw [ofFile_diagnostics_of_not_mem hcompile hdiagnosed.1, DiagnosticMap.ofFile,
        Std.ExtTreeMap.getD_eq_fallback hdiagnosed.2]
      rfl

/-! ### Incremental compiles -/

/-- If an incremental compile of a scope that describes its unit counts, the scope describes the
unit with the texts just read for the working set. In particular the diagnostics of every file, in
the working set or outside it, are those of a compile of that whole unit. -/
theorem tryIncremental_describes {s s' : Scope} {unit : CompilationUnit} {output : CompileOutput}
    (hs : s.Describes unit output) (c : CompileConfig) (d : Disk) (b : Bench CompilerState)
    (changed : List FileId) (context : Option FileId) {b' : Bench CompilerState}
    {report : CompileReport}
    (h : s.tryIncremental c d b changed context = (b', s', .ok report)) :
    s'.environment = s.environment ∧
      ∃ (sources : List SourceFile) (full : CompileOutput),
        (b.readAll d (s.workingFiles c changed context)).2 = some sources ∧
        s'.Describes (unit.insertAll sources) full := by
  obtain ⟨b₁, sources, found, hread, hcompile, hdrift, hresult⟩ := tryIncremental_ok h
  obtain ⟨rfl, rfl⟩ := Prod.mk.inj hresult
  obtain ⟨before, after, hrun⟩ := answers_of_compile hcompile
  exact ⟨rfl, sources, _, congrArg Prod.snd hread,
    hs.describes_accept (Bench.file_of_readAll hread) (compileSources_of_run hrun) hdrift context⟩

/-! A class moves from one file of the working set to another, while a file outside refers to it and
to a class that nothing declares. -/

def movingSources : List SourceFile :=
  [⟨0, ⟨"/p/A.groovy"⟩, "class X \x7b\n\x7d\n"⟩,
    ⟨1, ⟨"/p/F.groovy"⟩, "class F \x7b\n    X x\n    Ghost g\n\x7d\n"⟩,
    ⟨2, ⟨"/p/B.groovy"⟩, "\n"⟩]

def movingUnit : CompilationUnit := ⟨.ofList movingSources⟩

def movingScope : Scope :=
  (commit { territory := ⟨⟨"/p"⟩, []⟩ } movingUnit .rebuilt ∅ (outputOf movingUnit.sources {})
    false none .notCompiled).1

def movingDisk : Disk where
  nodes := ∅
  cwd := []

/-- The editor has taken the class out of one file and put it into the other. -/
def movingBench : Bench CompilerState where
  tracker :=
    { registry := movingSources.foldl (fun r source => (r.register source.path).1) ∅
      documents := (∅ : Std.ExtTreeMap FileId OpenDocument).insert 0 ⟨.ofText "\n" 2, none⟩
        |>.insert 2 ⟨.ofText "class X \x7b\n\x7d\n" 2, none⟩
      closed := .ofCapacity 1
      timeToLive := 0 }
  compiler := {}

theorem movingScope_describes :
    movingScope.Describes movingUnit (outputOf movingUnit.sources {}) := by
  apply describes_commit
  · rfl
  · rw [compileSources_eq_ok, ← isEmpty_syntaxErrors]
    exact ⟨by decide +kernel, rfl⟩

theorem tryIncremental_describes_moving :
    ∃ (b' : Bench CompilerState) (s' : Scope) (report : CompileReport),
      movingScope.tryIncremental {} movingDisk movingBench [0, 2] none = (b', s', .ok report) ∧
      s'.environment = movingScope.environment ∧
      ∃ (sources : List SourceFile) (full : CompileOutput),
        (movingBench.readAll movingDisk (movingScope.workingFiles {} [0, 2] none)).2 =
          some sources ∧
        s'.Describes (movingUnit.insertAll sources) full := by
  have hcounts : (movingScope.tryIncremental {} movingDisk movingBench [0, 2] none).2.2.isOk := by
    decide +kernel
  cases h : movingScope.tryIncremental {} movingDisk movingBench [0, 2] none with
  | mk b' result =>
      obtain ⟨s', answer⟩ := result
      cases answer with
      | error reason => simp [h, Except.isOk, Except.toBool] at hcounts
      | ok report =>
          exact ⟨b', s', report, rfl,
            tryIncremental_describes movingScope_describes {} movingDisk movingBench [0, 2] none h⟩

end Scope

end Workbench
