import Workbench.Disk.Outside
import Workbench.Proofs.Scope.Pass
import Workbench.Proofs.Tracker.Action

/-!
Runs of one scope. Between two refreshes of the scope anything can happen around it: documents are
opened and edited, files change on the disk, other scopes compile on the same bench, a classpath is
installed. Of all these only a refresh touches what the scope has compiled. So a property of every
refresh of every run follows from what one refresh does to a scope with a suitable invariant.
-/

namespace Workbench

/-- A scope at work: the disk, what it shares with other scopes, and the scope itself. -/
structure Session (κ : Type) where
  disk : Disk
  bench : Bench κ
  scope : Scope

/-- Two scopes that hold the same results of compiles. -/
structure Scope.SameResults (s s' : Scope) : Prop where
  unit_eq : s'.unit = s.unit
  trees_eq : s'.trees = s.trees
  graph_eq : s'.graph = s.graph
  diagnostics_eq : s'.diagnostics = s.diagnostics
  sourceErrors_eq : s'.sourceErrors = s.sourceErrors

namespace Session

/-- One thing that happens in a session. -/
inductive Action (κ : Type) where
  | track (action : Tracker.Action)
  | outside (action : OutsideAction)
  /-- The compiler is put into another state, as by one who wants it to fail. -/
  | instruct (compiler : κ)
  /-- Another scope of the workspace is brought up to date. -/
  | refreshOther (other : Scope) (asked : Option FileId)
  | setExcluded (roots : List Path)
  | setClasspath (handle : SnapshotHandle ClasspathIndex) (runtimeVersion : Option String)
  | releaseClasspath
  | refresh (asked : Option FileId)

variable {κ : Type}

def Action.opening (p : Path) (text : String) : Action κ := .track (.openDocument p text 1)

def Action.replacing (p : Path) (version : Int) (text : String) : Action κ :=
  .track (.change p version [⟨none, text⟩])

/-- A session whose scope was never compiled. -/
def start (disk : Disk) (bench : Bench κ) (root : Path) : Session κ :=
  ⟨disk, bench, Scope.ofRoot disk root⟩

/-- A session with nothing on the disk and no document open. -/
def blank (compiler : κ) : Session κ :=
  start { nodes := ∅, cwd := [] } { tracker := .ofLimits 5000 256, compiler } ⟨"/p"⟩

variable [Compiler κ] (c : CompileConfig)

def refresh (x : Session κ) (asked : Option FileId) : Session κ × CompileReport :=
  let (bench, scope, report) := x.scope.refresh c x.disk x.bench asked
  ({ x with bench, scope }, report)

def step (x : Session κ) : Action κ → Session κ
  | .track action =>
    { x with bench := { x.bench with tracker := x.bench.tracker.act x.disk action } }
  | .outside action => { x with disk := x.disk.perform action }
  | .instruct compiler => { x with bench := { x.bench with compiler } }
  | .refreshOther other asked => { x with bench := (other.refresh c x.disk x.bench asked).1 }
  | .setExcluded roots => { x with scope := x.scope.setExcluded roots }
  | .setClasspath handle version => { x with scope := x.scope.setClasspath handle version }
  | .releaseClasspath => { x with scope := x.scope.releaseClasspath }
  | .refresh asked => (x.refresh c asked).1

def run (x : Session κ) (actions : List (Action κ)) : Session κ := actions.foldl (step c) x

/-- The property holds at every refresh of a run, of the session before the refresh and of the file
that it is asked for. -/
def EveryRefresh (P : Session κ → Option FileId → Prop) (x : Session κ)
    (actions : List (Action κ)) : Prop :=
  ∀ before asked after, actions = before ++ .refresh asked :: after → P (x.run c before) asked

def pending (x : Session κ) : List FileId := x.scope.pending c x.bench.tracker

/-- The file that a refresh compiles along with them. -/
def contextFor (x : Session κ) (asked : Option FileId) : Option FileId :=
  x.scope.contextFor c x.bench.tracker asked

variable {c}

theorem pass_refresh (x : Session κ) (asked : Option FileId) :
    Scope.Pass κ x.scope c (x.pending c) (x.contextFor c asked) (x.refresh c asked).1.scope
      (x.refresh c asked).2 :=
  x.scope.pass_of_refresh c x.disk x.bench asked

/-- Nothing but a refresh touches what the scope has compiled. -/
theorem sameResults_step (x : Session κ) {action : Action κ}
    (h : ∀ asked, action ≠ .refresh asked) :
    x.scope.SameResults (x.step c action).scope := by
  cases action with
  | setExcluded roots =>
      simp only [step, Scope.setExcluded]
      split <;> exact ⟨rfl, rfl, rfl, rfl, rfl⟩
  | refresh asked => exact absurd rfl (h asked)
  | _ => exact ⟨rfl, rfl, rfl, rfl, rfl⟩

/-! ### Properties of every refresh -/

theorem everyRefresh_nil (P : Session κ → Option FileId → Prop) (x : Session κ) :
    EveryRefresh c P x [] := by
  intro before asked after h
  simp at h

theorem everyRefresh_cons {P : Session κ → Option FileId → Prop} {x : Session κ}
    {action : Action κ} {actions : List (Action κ)} :
    EveryRefresh c P x (action :: actions) ↔
      (∀ asked, action = .refresh asked → P x asked) ∧
        EveryRefresh c P (x.step c action) actions := by
  constructor
  · intro h
    refine ⟨?_, ?_⟩
    · rintro asked rfl
      exact h [] asked actions rfl
    · rintro before asked after rfl
      exact h (action :: before) asked after rfl
  · rintro ⟨hfirst, hrest⟩ before asked after h
    cases before with
    | nil =>
        obtain ⟨rfl, -⟩ := List.cons.inj h
        exact hfirst asked rfl
    | cons first before =>
        obtain ⟨rfl, rfl⟩ := List.cons.inj h
        exact hrest before asked after rfl

/-- Two properties of refreshes go together over whole runs if they do at each refresh of a scope
with the invariant, and the second of them keeps the invariant up. -/
theorem everyRefresh_iff {P Q : Session κ → Option FileId → Prop} {Inv : Scope → Prop}
    (hsame : ∀ s s' : Scope, s.SameResults s' → Inv s → Inv s')
    (hiff : ∀ x asked, Inv x.scope → (P x asked ↔ Q x asked))
    (hkeep : ∀ x asked, Inv x.scope → Q x asked → Inv (x.refresh c asked).1.scope)
    {x : Session κ} (hx : Inv x.scope) (actions : List (Action κ)) :
    EveryRefresh c P x actions ↔ EveryRefresh c Q x actions := by
  induction actions generalizing x with
  | nil => simp [everyRefresh_nil]
  | cons action actions ih =>
      rw [everyRefresh_cons, everyRefresh_cons]
      have hhere : (∀ asked, action = .refresh asked → P x asked) ↔
          ∀ asked, action = .refresh asked → Q x asked :=
        forall_congr' fun asked => imp_congr_right fun _ => hiff x asked hx
      rw [hhere]
      refine and_congr_right fun hq => ih ?_
      by_cases hrefresh : ∃ asked, action = .refresh asked
      · obtain ⟨asked, rfl⟩ := hrefresh
        exact hkeep x asked hx (hq asked rfl)
      · exact hsame _ _ (sameResults_step x fun asked h => hrefresh ⟨asked, h⟩) hx

end Session

end Workbench
