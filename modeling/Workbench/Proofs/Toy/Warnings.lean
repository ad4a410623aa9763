import Mathlib.Data.List.Nodup
import Mathlib.Data.List.Sublists
import Workbench.Proofs.Toy.Compiler

/-!
Which warnings a compile of the toy language gives. A file has one for each class that it refers to
and that resolves nowhere, at its first use. What resolves is the only thing that the rest of the
sources and the environment contribute, so more of them leave a file a part of its warnings.
-/

namespace Workbench.Toy

variable {uses : List (String × Range)} {use : String × Range} {name : String}

/-! ### First uses -/

/-- A use of a name that no use of this name comes before. -/
def IsFirstUse (uses : List (String × Range)) (use : String × Range) : Prop :=
  ∃ before after, uses = before ++ use :: after ∧ ∀ other ∈ before, other.1 ≠ use.1

theorem isFirstUse_cons {first : String × Range} :
    IsFirstUse (first :: uses) use ↔ use = first ∨ use.1 ≠ first.1 ∧ IsFirstUse uses use := by
  constructor
  · rintro ⟨before, after, heq, hbefore⟩
    rcases List.cons_eq_append_iff.mp heq with ⟨-, hhead⟩ | ⟨rest, rfl, rfl⟩
    · exact .inl (List.cons.inj hhead).1
    · exact .inr ⟨(hbefore first List.mem_cons_self).symm, rest, after, rfl,
        fun other hother => hbefore other (List.mem_cons_of_mem _ hother)⟩
  · rintro (rfl | ⟨hne, before, after, rfl, hbefore⟩)
    · exact ⟨[], uses, rfl, by simp⟩
    · refine ⟨first :: before, after, rfl, fun other hother => ?_⟩
      rcases List.mem_cons.mp hother with rfl | hother
      · exact hne.symm
      · exact hbefore other hother

theorem mem_firstUses : use ∈ firstUses uses ↔ IsFirstUse uses use := by
  induction uses with
  | nil => simp [firstUses, IsFirstUse]
  | cons first rest ih =>
      rw [firstUses, List.mem_cons, List.mem_filter, ih, isFirstUse_cons, bne_iff_ne, and_comm]

theorem firstUses_sublist (uses : List (String × Range)) : (firstUses uses).Sublist uses := by
  induction uses with
  | nil => exact .slnil
  | cons first rest ih => exact (List.filter_sublist.trans ih).cons_cons first

theorem nodup_names_firstUses (uses : List (String × Range)) :
    ((firstUses uses).map Prod.fst).Nodup := by
  induction uses with
  | nil => exact List.nodup_nil
  | cons first rest ih =>
      rw [firstUses, List.map_cons, List.nodup_cons]
      constructor
      · simp
      · exact ih.sublist (List.filter_sublist.map Prod.fst)

theorem mem_names_firstUses (uses : List (String × Range)) (name : String) :
    name ∈ (firstUses uses).map Prod.fst ↔ name ∈ uses.map Prod.fst := by
  induction uses with
  | nil => rfl
  | cons first rest ih =>
      have hrest : ((firstUses rest).filter fun other => other.1 != first.1).map Prod.fst =
          ((firstUses rest).map Prod.fst).filter (· != first.1) := by
        rw [List.filter_map]
        rfl
      rw [firstUses, List.map_cons, List.map_cons, List.mem_cons, List.mem_cons, hrest,
        List.mem_filter, ih, bne_iff_ne]
      by_cases h : name = first.1 <;> simp [h]

/-- Whether a name matters is the same for all its uses, so the first uses may be taken first. -/
theorem firstUses_filter (matters : String → Bool) (uses : List (String × Range)) :
    firstUses (uses.filter fun use => matters use.1) =
      (firstUses uses).filter fun use => matters use.1 := by
  induction uses with
  | nil => rfl
  | cons first rest ih =>
      rw [List.filter_cons, firstUses, List.filter_cons]
      cases hfirst : matters first.1 with
      | true =>
          rw [if_pos rfl, if_pos rfl, firstUses, ih, List.filter_filter, List.filter_filter]
          simp only [Bool.and_comm]
      | false =>
          -- No other use of the name matters either.
          have hkeep : ∀ use ∈ firstUses rest, matters use.1 =
              (matters use.1 && (use.1 != first.1)) := by
            rintro use -
            by_cases h : use.1 = first.1 <;> simp [h, hfirst]
          rw [if_neg Bool.false_ne_true, if_neg Bool.false_ne_true, ih, List.filter_filter]
          exact List.filter_congr hkeep

/-! ### References of a file -/

/-- A file refers to the classes that it uses, and to those of its own that it uses. -/
theorem mem_names_typeUses (r : Reading) :
    name ∈ r.toParsed.typeUses.map Prod.fst ↔
      name ∈ r.toParsed.tree.references ∧ ¬ r.toParsed.tree.Declares name := by
  simp only [Reading.toParsed, Std.ExtTreeSet.mem_ofList, List.contains_eq_mem, decide_eq_true_eq,
    FileSyntax.Declares, List.mem_map, List.mem_filter, Bool.not_eq_true', List.any_eq_false,
    beq_iff_eq]
  constructor
  · rintro ⟨use, ⟨huse, hown⟩, rfl⟩
    refine ⟨⟨use, huse, rfl⟩, ?_⟩
    rintro ⟨c, hc, hname⟩
    exact hown c hc hname
  · rintro ⟨⟨use, huse, rfl⟩, hown⟩
    exact ⟨use, ⟨huse, fun c hc hname => hown ⟨c, hc, hname⟩⟩, rfl⟩

theorem eq_toParsed_of_parse {text : String} {p : Parsed} (h : parse text = .ok p) :
    p = (readFile text).toParsed := by
  rw [parse] at h
  split at h
  · exact (Except.ok.inj h).symm
  · contradiction

/-! ### Warnings of a file -/

theorem resolves_iff {sources : SourceSet} {env : CompileEnvironment} :
    Resolves sources env name ↔
      (∃ (file : FileId) (tree : FileSyntax),
        (outputOf sources env).trees[file]? = some tree ∧ tree.Declares name) ∨
      env.knowsClass name := by
  refine or_congr ?_ Iff.rfl
  simp only [mem_declaredNames, getElem?_trees_outputOf, Option.bind_eq_some_iff]
  constructor
  · rintro ⟨file, source, tree, hsource, htree, hdeclares⟩
    exact ⟨file, tree, ⟨source, hsource, htree⟩, hdeclares⟩
  · rintro ⟨file, tree, ⟨source, hsource, htree⟩, hdeclares⟩
    exact ⟨file, source, tree, hsource, htree, hdeclares⟩

/-- The classes that a file refers to without any file of an output or the environment knowing
them, each at its first use. -/
structure AreUnresolved (output : CompileOutput) (env : CompileEnvironment) (p : Parsed)
    (found : List (String × Range)) : Prop where
  names_nodup : (found.map Prod.fst).Nodup
  mem_names : ∀ name : String, name ∈ found.map Prod.fst ↔
    name ∈ p.tree.references ∧ env.knowsClass name = false ∧
      ∀ (file : FileId) (tree : FileSyntax),
        output.trees[file]? = some tree → ¬ tree.Declares name
  first : ∀ use ∈ found, IsFirstUse p.typeUses use
  in_order : found.Sublist p.typeUses

instance (sources : SourceSet) (env : CompileEnvironment) (name : String) :
    Decidable (Resolves sources env name) :=
  inferInstanceAs (Decidable (_ ∈ declaredNames _ ∨ env.knowsClass name))

/-- The uses that a compile warns of. -/
def unresolvedUses (sources : SourceSet) (env : CompileEnvironment) (p : Parsed) :
    List (String × Range) :=
  (firstUses p.typeUses).filter fun use => ¬ Resolves sources env use.1

theorem warnings_eq (sources : SourceSet) (env : CompileEnvironment) (p : Parsed) :
    warnings (declaredNames (parsedFiles sources)) env p =
      (unresolvedUses sources env p).map unresolved := by
  rw [warnings, unresolvedUses, firstUses_filter fun name =>
    !(declaredNames (parsedFiles sources)).contains name && !env.knowsClass name]
  refine congrArg (List.map unresolved) (List.filter_congr fun use _ => ?_)
  rw [← Bool.not_or, decide_not, Bool.not_inj_iff, Bool.eq_iff_iff, Bool.or_eq_true,
    decide_eq_true_iff, ← Std.ExtTreeSet.mem_iff_contains, Resolves]

/-- Where more resolves, less is warned of. -/
theorem unresolvedUses_sublist {sources sources' : SourceSet} {env env' : CompileEnvironment}
    (h : ∀ name, Resolves sources env name → Resolves sources' env' name) (p : Parsed) :
    (unresolvedUses sources' env' p).Sublist (unresolvedUses sources env p) := by
  refine List.monotone_filter_right _ fun use huse => ?_
  simp only [decide_eq_true_eq] at huse ⊢
  exact mt (h use.1) huse

theorem areUnresolved_unresolvedUses {sources : SourceSet} (env : CompileEnvironment)
    {file : FileId} {source : SourceFile} (hsource : sources[file]? = some source) {p : Parsed}
    (hparse : parse source.text = .ok p) :
    AreUnresolved (outputOf sources env) env p (unresolvedUses sources env p) := by
  have htree : (outputOf sources env).trees[file]? = some p.tree := by
    rw [getElem?_trees_outputOf, hsource, Option.bind_some, tree?, hparse]
    rfl
  have hsub : (unresolvedUses sources env p).Sublist (firstUses p.typeUses) := List.filter_sublist
  constructor
  case names_nodup => exact (nodup_names_firstUses _).sublist (hsub.map Prod.fst)
  case first => exact fun use huse => mem_firstUses.mp (hsub.subset huse)
  case in_order => exact hsub.trans (firstUses_sublist _)
  case mem_names =>
    intro name
    have hname : name ∈ (unresolvedUses sources env p).map Prod.fst ↔
        name ∈ p.typeUses.map Prod.fst ∧ ¬ Resolves sources env name := by
      rw [← mem_names_firstUses p.typeUses, unresolvedUses, List.mem_map, List.mem_map]
      constructor
      · rintro ⟨use, huse, rfl⟩
        obtain ⟨hfirst, hnot⟩ := List.mem_filter.mp huse
        exact ⟨⟨use, hfirst, rfl⟩, of_decide_eq_true hnot⟩
      · rintro ⟨⟨use, hfirst, rfl⟩, hnot⟩
        exact ⟨use, List.mem_filter.mpr ⟨hfirst, decide_eq_true hnot⟩, rfl⟩
    rw [hname, eq_toParsed_of_parse hparse, mem_names_typeUses, ← eq_toParsed_of_parse hparse,
      resolves_iff, not_or, Bool.not_eq_true]
    constructor
    · rintro ⟨⟨hrefers, -⟩, hdeclared, hknown⟩
      exact ⟨hrefers, hknown, fun other tree hother hdeclares =>
        hdeclared ⟨other, tree, hother, hdeclares⟩⟩
    · rintro ⟨hrefers, hknown, hdeclared⟩
      refine ⟨⟨hrefers, hdeclared file p.tree htree⟩, ?_, hknown⟩
      rintro ⟨other, tree, hother, hdeclares⟩
      exact hdeclared other tree hother hdeclares

theorem ofFile_diagnostics_of_getElem? {sources : SourceSet} (env : CompileEnvironment)
    {file : FileId} {source : SourceFile} (hsource : sources[file]? = some source) {p : Parsed}
    (hparse : parse source.text = .ok p) :
    (outputOf sources env).diagnostics.ofFile file =
      (unresolvedUses sources env p).map unresolved := by
  rw [ofFile_diagnostics_outputOf, getElem?_parsedFiles, hsource, Option.bind_some, hparse,
    ← warnings_eq]
  rfl

/-! ### More sources and a larger environment -/

theorem Resolves.mono {sources sources' : SourceSet} {env env' : CompileEnvironment}
    (hsources : ∀ (file : FileId) (source : SourceFile),
      sources[file]? = some source → sources'[file]? = some source)
    (henv : ∀ name, env.knowsClass name → env'.knowsClass name)
    (h : Resolves sources env name) : Resolves sources' env' name := by
  refine h.imp (fun hdeclared => ?_) (henv name)
  obtain ⟨file, source, tree, hsource, htree, hdeclares⟩ := mem_declaredNames.mp hdeclared
  exact mem_declaredNames.mpr ⟨file, source, tree, hsources file source hsource, htree, hdeclares⟩

/-- A compile that goes through gives every file the tree of its own text and one warning for each
class that the file refers to and that resolves nowhere, at the first use of the class. One with
more sources and a larger environment leaves each of the files a part of these warnings. -/
theorem compile_warns_of_unresolved {state state' : CompilerState} {sources : SourceSet}
    {env : CompileEnvironment} {output : CompileOutput}
    (hcompile : Compiler.compile state sources env = (state', .ok output)) :
    (∀ file : FileId, file ∉ sources →
        output.trees[file]? = none ∧ output.diagnostics.ofFile file = []) ∧
      (∀ (file : FileId) (source : SourceFile), sources[file]? = some source →
        ∃ p, parse source.text = .ok p ∧ output.trees[file]? = some p.tree ∧
          ∃ found, AreUnresolved output env p found ∧
            output.diagnostics.ofFile file = found.map unresolved) ∧
      ∀ (later later' : CompilerState) (sources' : SourceSet) (env' : CompileEnvironment)
        (output' : CompileOutput),
        Compiler.compile later sources' env' = (later', .ok output') →
        (∀ (file : FileId) (source : SourceFile),
          sources[file]? = some source → sources'[file]? = some source) →
        (∀ name : String, env.knowsClass name → env'.knowsClass name) →
        ∀ file : FileId, file ∈ sources →
          (output'.diagnostics.ofFile file).Sublist (output.diagnostics.ofFile file) := by
  have hrun := compileSources_of_run hcompile
  obtain ⟨hparse, rfl⟩ := compileSources_eq_ok.mp hrun
  refine ⟨fun file hfile => ?_, fun file source hsource => ?_, ?_⟩
  · exact ⟨getElem?_trees_of_not_mem hrun hfile, ofFile_diagnostics_of_not_mem hrun hfile⟩
  · obtain ⟨p, hp, htree⟩ := getElem?_trees_of_getElem? hrun hsource
    exact ⟨p, hp, htree, _, areUnresolved_unresolvedUses env hsource hp,
      ofFile_diagnostics_of_getElem? env hsource hp⟩
  · intro later later' sources' env' output' hlater hsources henv file hfile
    obtain ⟨-, rfl⟩ := compileSources_eq_ok.mp (compileSources_of_run hlater)
    obtain ⟨source, hsource⟩ := Option.isSome_iff_exists.mp
      (Std.ExtTreeMap.isSome_getElem?_iff_mem.mpr hfile)
    obtain ⟨p, hp⟩ := hparse file source hsource
    rw [ofFile_diagnostics_of_getElem? env hsource hp,
      ofFile_diagnostics_of_getElem? env' (hsources file source hsource) hp]
    exact (unresolvedUses_sublist (fun _ => Resolves.mono hsources henv) p).map unresolved

/-! A class that is used twice and declared in a third file only. -/

def userFile : SourceFile :=
  ⟨0, ⟨"/p/Main.groovy"⟩, "class Main extends Base {
  Util a, b
  Main f(Util u)
}
"⟩

def baseFile : SourceFile := ⟨1, ⟨"/p/Base.groovy"⟩, "class Base {}
"⟩

def utilFile : SourceFile := ⟨2, ⟨"/p/Util.groovy"⟩, "class Util {}
"⟩

def fewSources : SourceSet := .ofList [userFile, baseFile]

def allSources : SourceSet := .ofList [userFile, baseFile, utilFile]

theorem compile_warns_of_unresolved_util :
    ∃ (state' : CompilerState) (output : CompileOutput),
      Compiler.compile ({} : CompilerState) fewSources {} = (state', .ok output) ∧
      output.diagnostics.ofFile 0 = [unresolved ("Util", .across 1 2 4)] ∧
      (∃ p found, parse userFile.text = .ok p ∧ AreUnresolved output {} p found ∧
        output.diagnostics.ofFile 0 = found.map unresolved) ∧
      ∃ (later' : CompilerState) (output' : CompileOutput),
        Compiler.compile state' allSources {} = (later', .ok output') ∧
        output'.diagnostics.ofFile 0 = [] ∧
        (output'.diagnostics.ofFile 0).Sublist (output.diagnostics.ofFile 0) := by
  have hfew : AllParse fewSources := isEmpty_syntaxErrors.mp (by decide +kernel)
  have hall : AllParse allSources := isEmpty_syntaxErrors.mp (by decide +kernel)
  have hcompile : Compiler.compile ({} : CompilerState) fewSources {} =
      ((run {} fewSources {}).1, .ok (outputOf fewSources {})) :=
    Prod.ext rfl ((compile_eq rfl rfl _ _).trans (compileSources_eq_ok.mpr ⟨hfew, rfl⟩))
  have hlater : Compiler.compile (run {} fewSources {}).1 allSources {} =
      ((run (run {} fewSources {}).1 allSources {}).1, .ok (outputOf allSources {})) :=
    Prod.ext rfl ((compile_eq rfl rfl _ _).trans (compileSources_eq_ok.mpr ⟨hall, rfl⟩))
  have huser : fewSources[(0 : FileId)]? = some userFile := by decide +kernel
  obtain ⟨-, hexact, hmore⟩ := compile_warns_of_unresolved hcompile
  obtain ⟨p, hp, -, found, hfound, hdiagnostics⟩ := hexact 0 userFile huser
  refine ⟨_, _, hcompile, ?_, ⟨p, found, hp, hfound, hdiagnostics⟩, _, _, hlater, ?_, ?_⟩
  · decide +kernel
  · decide +kernel
  · refine hmore _ _ _ _ _ hlater (fun file source hsource => ?_) (fun _ h => h) 0 ?_
    · have hnew : fewSources[(2 : FileId)]? = none := by decide +kernel
      have hne : file ≠ 2 := by
        rintro rfl
        simp [hnew] at hsource
      show (fewSources.insert 2 utilFile)[file]? = some source
      rw [Std.ExtTreeMap.getElem?_insert, if_neg (by simpa using hne.symm), hsource]
    · exact Std.ExtTreeMap.isSome_getElem?_iff_mem.mp (by rw [huser]; rfl)

end Workbench.Toy
