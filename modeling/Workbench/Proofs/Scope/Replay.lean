import Workbench.Proofs.Diagnostic
import Workbench.Proofs.Maps
import Workbench.Proofs.Scope.Diagnostics
import Workbench.Proofs.Scope.Pass
import Workbench.Scope.Placeholder
import Workbench.Toy.Compiler

/-!
Reports against the store. A client that knows nothing of a scope but its reports, and takes them in
one after another, has at every moment just the diagnostics that the scope stores. So nothing is
published in vain, and no change of the store goes unpublished, whichever way the compiles go.
-/

namespace Workbench

namespace DiagnosticMap

/-- A client's view after one publication. -/
def hear (view : DiagnosticMap) : Publication → DiagnosticMap
  | (file, []) => view.erase file
  | (file, diagnostics) => view.insert file diagnostics

/-- A client's view after several publications, one after another. -/
def hearAll (view : DiagnosticMap) (published : List Publication) : DiagnosticMap :=
  published.foldl hear view

/-- Every stored list has something in it and is tidy. -/
def AllTidy (m : DiagnosticMap) : Prop :=
  ∀ (file : FileId) (diagnostics : List Diagnostic), m[file]? = some diagnostics →
    diagnostics ≠ [] ∧ Diagnostic.IsTidy diagnostics

theorem hear_eq_set (view : DiagnosticMap) (file : FileId) (diagnostics : List Diagnostic) :
    view.hear (file, diagnostics) = view.set file diagnostics := by
  cases diagnostics <;> rfl

theorem hearAll_append (view : DiagnosticMap) (first second : List Publication) :
    view.hearAll (first ++ second) = (view.hearAll first).hearAll second :=
  List.foldl_append

theorem allTidy_empty : AllTidy ∅ := by
  intro file diagnostics h
  simp at h

theorem AllTidy.set {m : DiagnosticMap} (hm : m.AllTidy) {diagnostics : List Diagnostic}
    (hd : Diagnostic.IsTidy diagnostics) (file : FileId) : (m.set file diagnostics).AllTidy := by
  intro other found h
  unfold DiagnosticMap.set at h
  split at h
  case isTrue =>
    rw [Std.ExtTreeMap.getElem?_erase] at h
    split at h
    · contradiction
    · exact hm other found h
  case isFalse hsome =>
    rw [Std.ExtTreeMap.getElem?_insert] at h
    split at h
    · cases h
      exact ⟨fun hnone => hsome (List.isEmpty_iff.mpr hnone), hd⟩
    · exact hm other found h

/-! ### One replacement -/

/-- What a report says about a store that went from one state to another. -/
structure Reported (m m' : DiagnosticMap) (published : List Publication) : Prop where
  hearAll_eq : m.hearAll published = m'
  nodup : (published.map Prod.fst).Nodup
  changed : ∀ publication ∈ published, m.ofFile publication.1 ≠ m'.ofFile publication.1
  allTidy : m.AllTidy → m'.AllTidy

theorem reported_nil (m : DiagnosticMap) : m.Reported m [] :=
  ⟨rfl, List.nodup_nil, fun _ h => absurd h List.not_mem_nil, id⟩

theorem hearAll_replace (stored fresh : DiagnosticMap) (files : List FileId) :
    stored.hearAll (stored.replace fresh files).2 = (stored.replace fresh files).1 := by
  induction files generalizing stored with
  | nil => rfl
  | cons file rest ih =>
      simp only [replace]
      -- What a replacement stores and what it publishes are decided by one comparison.
      split
      · exact ih stored
      · have hrest := ih (stored.set file (Diagnostic.tidy (fresh.ofFile file)))
        rw [← hear_eq_set] at hrest ⊢
        exact hrest

theorem sublist_replace (stored fresh : DiagnosticMap) (files : List FileId) :
    ((stored.replace fresh files).2.map Prod.fst).Sublist files := by
  induction files generalizing stored with
  | nil => exact List.Sublist.slnil
  | cons file rest ih =>
      simp only [replace]
      split
      · exact (ih stored).cons file
      · exact (ih _).cons_cons file

/-- What is published was not stored before. -/
theorem ofFile_ne_of_mem_replace {stored fresh : DiagnosticMap} {files : List FileId}
    (hfiles : files.Nodup) {publication : Publication}
    (h : publication ∈ (stored.replace fresh files).2) :
    stored.ofFile publication.1 ≠ Diagnostic.tidy (fresh.ofFile publication.1) := by
  induction files generalizing stored with
  | nil => exact absurd h List.not_mem_nil
  | cons file rest ih =>
      obtain ⟨hnot, hrest⟩ := List.nodup_cons.mp hfiles
      simp only [replace] at h
      split at h
      case isTrue => exact ih hrest h
      case isFalse hdiffers =>
        rcases List.mem_cons.mp h with rfl | hlater
        · exact hdiffers
        · -- The file comes later in the list, so the first replacement did not touch it.
          have hother : publication.1 ≠ file := by
            rintro rfl
            exact hnot ((sublist_replace _ _ rest).subset (List.mem_map_of_mem hlater))
          have hlast := ih hrest hlater
          rw [ofFile_set, if_neg hother] at hlast
          exact hlast

theorem AllTidy.replace {stored : DiagnosticMap} (h : stored.AllTidy) (fresh : DiagnosticMap)
    (files : List FileId) : (stored.replace fresh files).1.AllTidy := by
  induction files generalizing stored with
  | nil => exact h
  | cons file rest ih =>
      simp only [DiagnosticMap.replace]
      split
      · exact ih h
      · exact ih (h.set (Diagnostic.isTidy_tidy _) file)

theorem reported_replace (stored fresh : DiagnosticMap) {files : List FileId}
    (hfiles : files.Nodup) :
    stored.Reported (stored.replace fresh files).1 (stored.replace fresh files).2 where
  hearAll_eq := hearAll_replace stored fresh files
  nodup := (sublist_replace stored fresh files).nodup hfiles
  changed publication h := by
    have hmem := (sublist_replace stored fresh files).subset (List.mem_map_of_mem h)
    rw [ofFile_replace, if_pos hmem]
    exact ofFile_ne_of_mem_replace hfiles h
  allTidy h := h.replace fresh files

end DiagnosticMap

namespace Scope

variable {κ : Type} [Compiler κ]

/-! ### One call -/

theorem Pass.reported {s s' : Scope} {c : CompileConfig} {changed : List FileId}
    {context : Option FileId} {report : CompileReport}
    (hpass : Pass κ s c changed context s' report) :
    s.diagnostics.Reported s'.diagnostics report.published := by
  cases hpass with
  | rested => exact s.diagnostics.reported_nil
  | failed message => exact s.diagnostics.reported_nil
  | accepted sources output => exact s.diagnostics.reported_replace _ (nodup_toList _)
  | committed unit update output reason => exact s.diagnostics.reported_replace _ (nodup_toList _)
  | stopped unit update errors reason => exact s.diagnostics.reported_replace _ (nodup_toList _)

theorem pass_of_withPlaceholder {α : Type} {s s' : Scope} {c : CompileConfig} {d : Disk}
    {b b' : Bench κ} {p : Path} {position : Position} {token : String}
    {read : Bench κ → Scope → FileId → Bench κ × α} {report : CompileReport} {answer : α}
    (h : s.withPlaceholder c d b p position token read = some (b', s', report, answer)) :
    ∃ changed context, Pass κ s c changed context s' report := by
  obtain ⟨⟨tracker, file⟩, -, h⟩ := Option.bind_eq_some_iff.mp h
  have hpass := s.pass_of_refresh c d { b with tracker } (some file)
  cases h
  exact ⟨_, _, hpass⟩

/-- What a scope is asked to do. Everything around it is as it happens to be at that moment: no call
knows the tracker, the compiler or the disk that another one found. -/
inductive Call (κ : Type) : Type 1 where
  | refresh (c : CompileConfig) (d : Disk) (b : Bench κ) (asked : Option FileId)
  | placeholder {α : Type} (c : CompileConfig) (d : Disk) (b : Bench κ) (p : Path)
      (position : Position) (token : String) (read : Bench κ → Scope → FileId → Bench κ × α)
  | setExcluded (roots : List Path)
  | setClasspath (handle : SnapshotHandle ClasspathIndex) (runtimeVersion : Option String)
  | releaseClasspath

/-- The scope after a call, and its report if there is one. -/
def serve (s : Scope) : Call κ → Scope × Option CompileReport
  | .refresh c d b asked =>
    let (_, s, report) := s.refresh c d b asked
    (s, some report)
  | .placeholder c d b p position token read =>
    match s.withPlaceholder c d b p position token read with
    | some (_, s, report, _) => (s, some report)
    | none => (s, none)
  | .setExcluded roots => (s.setExcluded roots, none)
  | .setClasspath handle version => (s.setClasspath handle version, none)
  | .releaseClasspath => (s.releaseClasspath, none)

/-- The scope after several calls, and all that it published. -/
def serveAll (s : Scope) : List (Call κ) → Scope × List Publication
  | [] => (s, [])
  | call :: rest =>
    let (s, report) := s.serve call
    let (s, published) := serveAll s rest
    (s, (report.map CompileReport.published).getD [] ++ published)

theorem diagnostics_setExcluded (s : Scope) (roots : List Path) :
    (s.setExcluded roots).diagnostics = s.diagnostics := by
  unfold setExcluded
  dsimp only
  split <;> rfl

theorem reported_serve (s : Scope) (call : Call κ) :
    s.diagnostics.Reported (s.serve call).1.diagnostics
      (((s.serve call).2.map CompileReport.published).getD []) := by
  cases call with
  | refresh c d b asked => exact (s.pass_of_refresh c d b asked).reported
  | placeholder c d b p position token read =>
      rw [serve]
      cases h : s.withPlaceholder c d b p position token read with
      | none => exact s.diagnostics.reported_nil
      | some result =>
          obtain ⟨b', s', report, answer⟩ := result
          obtain ⟨changed, context, hpass⟩ := pass_of_withPlaceholder h
          exact hpass.reported
  | setExcluded roots =>
      rw [serve, diagnostics_setExcluded]
      exact s.diagnostics.reported_nil
  | setClasspath handle version => exact s.diagnostics.reported_nil
  | releaseClasspath => exact s.diagnostics.reported_nil

/-! ### Whole runs -/

theorem hearAll_serveAll (s : Scope) (calls : List (Call κ)) :
    s.diagnostics.hearAll (s.serveAll calls).2 = (s.serveAll calls).1.diagnostics := by
  induction calls generalizing s with
  | nil => rfl
  | cons call rest ih =>
      simp only [serveAll]
      rw [DiagnosticMap.hearAll_append, (s.reported_serve call).hearAll_eq]
      exact ih _

theorem allTidy_serveAll {s : Scope} (hs : s.diagnostics.AllTidy) (calls : List (Call κ)) :
    (s.serveAll calls).1.diagnostics.AllTidy := by
  induction calls generalizing s with
  | nil => exact hs
  | cons call rest ih => exact ih ((s.reported_serve call).allTidy hs)

/-- After any calls to a scope that starts uncompiled, a client that heard all its reports has what
the scope stores; all that it stores is tidy; and the report of one more call lists no file twice
and no file whose diagnostics stay as they are. -/
theorem serveAll_replays (d : Disk) (root : Path) (calls : List (Call κ)) (s : Scope)
    (published : List Publication) (hrun : (ofRoot d root).serveAll calls = (s, published)) :
    DiagnosticMap.hearAll ∅ published = s.diagnostics ∧
      (∀ (file : FileId) (diagnostics : List Diagnostic),
        s.diagnostics[file]? = some diagnostics →
          diagnostics ≠ [] ∧ diagnostics.Pairwise (fun a b => (compare a b).isLE) ∧
            diagnostics.Nodup) ∧
      ∀ (call : Call κ) (s' : Scope) (report : CompileReport),
        s.serve call = (s', some report) →
          (report.published.map Prod.fst).Nodup ∧
            ∀ file ∈ report.published.map Prod.fst,
              s.diagnostics.ofFile file ≠ s'.diagnostics.ofFile file := by
  have hheard := (ofRoot d root).hearAll_serveAll calls
  have htidy := allTidy_serveAll (s := ofRoot d root) DiagnosticMap.allTidy_empty calls
  rw [hrun] at hheard htidy
  refine ⟨hheard, fun file diagnostics h => ?_, fun call s' report hcall => ?_⟩
  · obtain ⟨hsome, hsorted, hnodup⟩ := htidy file diagnostics h
    exact ⟨hsome, hsorted, hnodup⟩
  · have hreported := s.reported_serve call
    rw [hcall] at hreported
    refine ⟨hreported.nodup, fun file hfile => ?_⟩
    obtain ⟨publication, hpublication, rfl⟩ := List.mem_map.mp hfile
    exact hreported.changed publication hpublication

/-! A document with a class that does not resolve is read with a token in it, and then mended. -/

def bareDisk : Disk := { nodes := ∅, cwd := [] }

def benchWith (text : String) : Bench Toy.CompilerState :=
  { tracker := ((Tracker.ofLimits 5000 256).openDocument bareDisk ⟨"/p/B.groovy"⟩ text 1).1
    compiler := {} }

def lookingCalls : List (Call Toy.CompilerState) :=
  [.refresh {} bareDisk (benchWith "class B extends Gone \x7b\n\x7d\n") none,
    .placeholder {} bareDisk (benchWith "class B extends Gone \x7b\n\x7d\n")
      ⟨"/p/B.groovy"⟩ ⟨1, 0⟩ "new Lost()\n" fun b _ _ => (b, ())]

theorem serveAll_replays_looking :
    ∃ s published s' report,
      (ofRoot bareDisk ⟨"/p"⟩).serveAll lookingCalls = (s, published) ∧
      s.serve (.refresh {} bareDisk (benchWith "class B \x7b\n\x7d\n") (some 0)) =
        (s', some report) ∧
      published.length = 2 ∧ report.published = [(0, [])] ∧
      DiagnosticMap.hearAll ∅ published = s.diagnostics ∧
      (∃ found, s.diagnostics[0]? = some found ∧ found.Nodup) ∧
      (report.published.map Prod.fst).Nodup ∧ s.diagnostics.ofFile 0 ≠ s'.diagnostics.ofFile 0 := by
  have hruns :
      (((ofRoot bareDisk ⟨"/p"⟩).serveAll lookingCalls).2.length = 2 ∧
        (((ofRoot bareDisk ⟨"/p"⟩).serveAll
          lookingCalls).1.diagnostics[0]?).isSome ∧
        ((((ofRoot bareDisk ⟨"/p"⟩).serveAll lookingCalls).1.serve
          (.refresh {} bareDisk (benchWith "class B \x7b\n\x7d\n")
            (some 0))).2.map CompileReport.published) = some [(0, [])]) := by
    decide +kernel
  cases hrun : (ofRoot bareDisk ⟨"/p"⟩).serveAll lookingCalls with
  | mk s published =>
      rw [hrun] at hruns
      obtain ⟨hlength, hstored, hcleared⟩ := hruns
      cases hcall : s.serve (.refresh {} bareDisk
          (benchWith "class B \x7b\n\x7d\n") (some 0)) with
      | mk s' answer =>
          rw [hcall] at hcleared
          obtain ⟨report, rfl, hpublished⟩ := Option.map_eq_some_iff.mp hcleared
          obtain ⟨hheard, htidy, hreport⟩ :=
            serveAll_replays bareDisk ⟨"/p"⟩ lookingCalls s published hrun
          obtain ⟨hnodup, hchanged⟩ := hreport _ s' report hcall
          obtain ⟨found, hfound⟩ := Option.isSome_iff_exists.mp hstored
          refine ⟨s, published, s', report, rfl, hcall, hlength, hpublished, hheard,
            ⟨found, hfound, (htidy 0 found hfound).2.2⟩, hnodup, hchanged 0 ?_⟩
          rw [hpublished]
          exact List.mem_singleton_self 0

end Scope

end Workbench
