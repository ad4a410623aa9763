import Mathlib.Logic.Relation
import Workbench.Proofs.Tracker.Action
import Workbench.Proofs.Workspace.History
import Workbench.Workspace.Watch

/-!
What operations of a workspace are made of. All that is done with the projects that are registered
comes down to a few kinds of changes, and a few more register projects and drop them. What each of
these changes keeps, every operation keeps.
-/

namespace Workbench.Workspace

variable {κ ρ : Type} {w w' : Workspace κ ρ} {key : List Component} {s : Scope}

/-! ### What a change leaves alone -/

/-- A report changes nothing but the queues and the history. -/
theorem publishReport_spec (w : Workspace κ ρ) (key : List Component) (report : CompileReport) :
    ∃ events, w.publishReport key report =
      { w with
        events
        history := Notice.tell w.bench.tracker.registry key w.history report.published } := by
  obtain ⟨outcome, published⟩ := report
  rw [publishReport]
  dsimp only
  induction published generalizing w with
  | nil => exact ⟨w.events, rfl⟩
  | cons publication rest ih =>
      obtain ⟨file, diagnostics⟩ := publication
      rw [List.foldl_cons, Notice.tell, List.foldl_cons]
      dsimp only
      cases hp : w.bench.tracker.path? file with
      | none =>
          have hp' : w.bench.tracker.registry.path? file = none := hp
          rw [hp']
          exact ih w
      | some p =>
          have hp' : w.bench.tracker.registry.path? file = some p := hp
          rw [hp']
          exact ih (w.publish key (.diagnosticsUpdated p diagnostics))

theorem acquireIndex_spec (w : Workspace κ ρ) (entries : List ClasspathEntry) :
    ∃ snapshots log, (w.acquireIndex entries).1 =
      { w with snapshots, bench := { w.bench with log } } := by
  simp only [acquireIndex]
  split <;> exact ⟨_, _, rfl⟩

theorem storeClasspath_spec (w : Workspace κ ρ) (project : Path) (resolved : ResolvedClasspath) :
    ∃ disk log, w.storeClasspath project resolved =
      { w with disk, bench := { w.bench with log } } := by
  simp only [storeClasspath]
  split <;> exact ⟨_, _, rfl⟩

theorem scopes_storeClasspath (w : Workspace κ ρ) (project : Path) (resolved : ResolvedClasspath) :
    (w.storeClasspath project resolved).scopes = w.scopes := by
  obtain ⟨disk, log, heq⟩ := w.storeClasspath_spec project resolved
  rw [heq]

/-- The store once a scope has given back its handle. -/
def giveBack (snapshots : SnapshotStore ClasspathIndex) (s : Scope) :
    SnapshotStore ClasspathIndex :=
  match s.classpath with
  | some handle => snapshots.release handle.key
  | none => snapshots

theorem releaseHandle_eq (w : Workspace κ ρ) (s : Scope) :
    w.releaseHandle s = { w with snapshots := giveBack w.snapshots s } := by
  unfold releaseHandle giveBack
  cases s.classpath <;> rfl

/-- Installing a classpath replaces the scope of the project and tells it to the subscribers. -/
theorem installClasspath_spec (w : Workspace κ ρ) (key : List Component) (project : Path)
    (s : Scope) (resolved : ResolvedClasspath) (fromCache : Bool) :
    ∃ log events, w.installClasspath key project s resolved fromCache =
      { w with
        snapshots := giveBack (w.acquireIndex resolved.entries).1.snapshots s
        scopes := w.scopes.insert key
          (s.setClasspath (w.acquireIndex resolved.entries).2 resolved.runtimeVersion)
        bench := { w.bench with log }
        events
        history := ⟨key, .classpathResolved project fromCache⟩ :: w.history } := by
  obtain ⟨snapshots, log, hacquired⟩ := w.acquireIndex_spec resolved.entries
  simp only [installClasspath, releaseHandle_eq, hacquired]
  exact ⟨log, _, rfl⟩

theorem scopes_installClasspath_eq (w : Workspace κ ρ) (key : List Component) (project : Path)
    (s : Scope) (resolved : ResolvedClasspath) (fromCache : Bool) :
    (w.installClasspath key project s resolved fromCache).scopes =
      w.scopes.insert key
        (s.setClasspath (w.acquireIndex resolved.entries).2 resolved.runtimeVersion) := by
  obtain ⟨log, events, hinstalled⟩ := w.installClasspath_spec key project s resolved fromCache
  rw [hinstalled]

theorem foldl_deeper_mem (first : List Component × Scope) (rest : List (List Component × Scope)) :
    rest.foldl deeper first ∈ first :: rest := by
  induction rest generalizing first with
  | nil => exact List.mem_singleton_self first
  | cons second rest ih =>
      rw [List.foldl_cons]
      rcases List.mem_cons.mp (ih (deeper first second)) with hhere | hlater
      · rw [hhere, deeper]
        split
        · exact List.mem_cons_self
        · exact List.mem_cons_of_mem _ List.mem_cons_self
      · exact List.mem_cons_of_mem _ (List.mem_cons_of_mem _ hlater)

theorem getElem?_of_owner? {p : Path} (h : w.owner? p = some (key, s)) :
    w.scopes[key]? = some s := by
  unfold owner? at h
  dsimp only at h
  split at h
  case h_1 => contradiction
  case h_2 first rest hcandidates =>
    have hmem := foldl_deeper_mem first rest
    rw [Option.some.inj h, ← hcandidates] at hmem
    exact Std.ExtTreeMap.mem_toList_iff_getElem?_eq_some.mp (List.mem_filter.mp hmem).1

/-! ### Resolving a classpath -/

/-- The key under which a project is looked up when its classpath is resolved. -/
def resolvedKey (w : Workspace κ ρ) (project : Path) : List Component :=
  w.keyOf (w.disk.normalize project)

/-- The ways to resolve the classpath of a project, each with what it leaves and what it answers. -/
inductive Resolution [Resolver ρ] (w : Workspace κ ρ) (project : Path) :
    Workspace κ ρ × Except ResolveError Bool → Prop where
  | unknown (hnone : w.scopes[w.resolvedKey project]? = none) :
      Resolution w project (w, .error ⟨w.disk.normalize project, "unknown project"⟩)
  | stored {s : Scope} {own : ResolvedClasspath} (hs : w.scopes[w.resolvedKey project]? = some s)
      (hstored : w.storedClasspath? (w.disk.normalize project) = some own) :
      Resolution w project
        (w.installClasspath (w.resolvedKey project) (w.disk.normalize project) s own true, .ok true)
  | failed {s : Scope} {resolver : ρ} {e : ResolveError}
      (hs : w.scopes[w.resolvedKey project]? = some s)
      (hstored : w.storedClasspath? (w.disk.normalize project) = none)
      (hanswer : Resolver.resolve w.resolver w.disk (w.disk.normalize project) =
        (resolver, .error e)) :
      Resolution w project ({ w with resolver }, .error e)
  | anew {s : Scope} {resolver : ρ} {own : ResolvedClasspath}
      (hs : w.scopes[w.resolvedKey project]? = some s)
      (hstored : w.storedClasspath? (w.disk.normalize project) = none)
      (hanswer : Resolver.resolve w.resolver w.disk (w.disk.normalize project) =
        (resolver, .ok own)) :
      Resolution w project
        ((({ w with resolver } : Workspace κ ρ).storeClasspath (w.disk.normalize project)
          own).installClasspath (w.resolvedKey project) (w.disk.normalize project) s own false,
            .ok false)

theorem resolution [Resolver ρ] (w : Workspace κ ρ) (project : Path) :
    w.Resolution project (w.resolveClasspath project) := by
  simp only [resolveClasspath]
  split
  case h_1 hnone => exact .unknown hnone
  case h_2 s hs =>
    split
    case h_1 own hstored => exact .stored hs hstored
    case h_2 hstored =>
      cases hanswer : Resolver.resolve w.resolver w.disk (w.disk.normalize project) with
      | mk resolver answer =>
          cases answer with
          | error e => exact .failed hs hstored hanswer
          | ok own => exact .anew hs hstored hanswer

/-! ### Work on the registered projects -/

variable [Compiler κ]

/-- One change in the work on the projects that are registered. -/
inductive WorkStep : Workspace κ ρ → Workspace κ ρ → Prop where
  | track (w : Workspace κ ρ) (action : Tracker.Action) :
      WorkStep w (w.track fun t d => (t.act d action, ())).1
  | refresh {w : Workspace κ ρ} {key : List Component} {s : Scope} (hs : w.scopes[key]? = some s)
      (asked : Option FileId) : WorkStep w (w.refreshScope key s asked).1
  /-- The resolver is asked, and it may come into another state. -/
  | ask (w : Workspace κ ρ) (resolver : ρ) : WorkStep w { w with resolver }
  | store (w : Workspace κ ρ) (project : Path) (resolved : ResolvedClasspath) :
      WorkStep w (w.storeClasspath project resolved)
  | install {w : Workspace κ ρ} {key : List Component} {s : Scope} (hs : w.scopes[key]? = some s)
      (project : Path) (resolved : ResolvedClasspath) (fromCache : Bool) :
      WorkStep w (w.installClasspath key project s resolved fromCache)
  | note (w : Workspace κ ρ) (events : List LogEvent) : WorkStep w (w.note events)
  /-- Jobs are asked for or taken up. -/
  | queue (w : Workspace κ ρ) (jobs : List Job) : WorkStep w { w with jobs }

def Works : Workspace κ ρ → Workspace κ ρ → Prop := Relation.ReflTransGen WorkStep

theorem works_ensureFresh (w : Workspace κ ρ) (p : Path) : w.Works (w.ensureFresh p).1 := by
  rw [ensureFresh]
  split
  case h_1 => exact .refl
  case h_2 key s howner =>
    have hregistered : w.WorkStep (w.track fun t d => t.register d p).1 := .track w (.register p)
    have hrefreshed := WorkStep.refresh (w := (w.track fun t d => t.register d p).1)
      (getElem?_of_owner? howner) (some (w.track fun t d => t.register d p).2)
    exact .tail (.single hregistered) hrefreshed

theorem works_ensureProjectFresh (w : Workspace κ ρ) (project : Path) :
    w.Works (w.ensureProjectFresh project).1 := by
  rw [ensureProjectFresh]
  split
  case h_1 => exact .refl
  case h_2 s hs => exact .single (.refresh hs none)

omit [Compiler κ] in
/-- A notification changes only the tracker. -/
theorem takeChange_eq (w : Workspace κ ρ) (change : FileChange) :
    ∃ action, w.takeChange change = (w.track fun t d => (t.act d action, ())).1 := by
  simp only [takeChange]
  split
  · exact ⟨.notify change, rfl⟩
  · exact ⟨.invalidate (w.disk.normalize change.path), rfl⟩

theorem works_foldl_takeChange (w : Workspace κ ρ) (changes : List FileChange) :
    w.Works (changes.foldl takeChange w) := by
  induction changes generalizing w with
  | nil => exact .refl
  | cons change rest ih =>
      obtain ⟨action, htaken⟩ := w.takeChange_eq change
      rw [List.foldl_cons, htaken]
      exact .head (.track w action) (ih _)

section Resolving

variable [Resolver ρ]

theorem works_resolveClasspath (w : Workspace κ ρ) (project : Path) :
    w.Works (w.resolveClasspath project).1 := by
  have hresolution := w.resolution project
  generalize w.resolveClasspath project = result at *
  cases hresolution with
  | unknown => exact .refl
  | stored hs => exact .single (.install hs _ _ _)
  | failed => exact .single (.ask w _)
  | @anew s resolver own hs =>
      have hasked : w.WorkStep { w with resolver } := .ask w resolver
      have hstored := WorkStep.store ({ w with resolver } : Workspace κ ρ)
        (w.disk.normalize project) own
      refine .tail (.tail (.single hasked) hstored) (.install ?_ _ _ _)
      rw [scopes_storeClasspath]
      exact hs

theorem works_resolveLogged (w : Workspace κ ρ) (project : Path) :
    w.Works (w.resolveLogged project).1 := by
  have hresolved := w.works_resolveClasspath project
  rw [resolveLogged]
  generalize w.resolveClasspath project = result at *
  obtain ⟨w', answer⟩ := result
  cases answer with
  | ok stored => exact hresolved
  | error e => exact hresolved.tail (.note w' _)

theorem works_resolveEach (w : Workspace κ ρ) (projects : List Path) :
    w.Works (w.resolveEach projects).1 := by
  induction projects generalizing w with
  | nil => exact .refl
  | cons project rest ih =>
      rw [resolveEach]
      exact (w.works_resolveLogged project).trans (ih _)

theorem works_runStage (w : Workspace κ ρ) (job : Job) : w.Works (w.runStage job).1 := by
  cases job with
  | compile project => exact w.works_ensureProjectFresh project
  | resolve project =>
      have hresolved := w.works_resolveLogged project
      rw [runStage]
      generalize w.resolveLogged project = result at *
      obtain ⟨w', resolved⟩ := result
      cases resolved <;> exact hresolved

theorem works_advance (w : Workspace κ ρ) (number : Nat) : w.Works (w.advance number) := by
  rw [advance]
  split
  case h_1 job _ => exact (w.works_runStage job).tail (.queue _ _)
  case h_2 => exact .refl

/-- The stages that a job can still have. -/
def stagesOf : Job → Nat
  | .resolve _ => 2
  | .compile _ => 1

theorem stagesOf_bounds (job : Job) : 0 < stagesOf job ∧ stagesOf job ≤ 2 := by
  cases job with
  | resolve project => exact ⟨Nat.succ_pos 1, Nat.le_refl 2⟩
  | compile project => exact ⟨Nat.succ_pos 0, Nat.le_succ 1⟩

def stagesLeft (w : Workspace κ ρ) : Nat :=
  w.jobs.foldr (fun job left => stagesOf job + left) 0

omit [Compiler κ] [Resolver ρ] in
theorem stagesLeft_bounds (w : Workspace κ ρ) :
    w.jobs.length ≤ w.stagesLeft ∧ w.stagesLeft ≤ 2 * w.jobs.length := by
  unfold stagesLeft
  induction w.jobs with
  | nil => exact ⟨Nat.le_refl _, Nat.le_refl _⟩
  | cons job rest ih =>
      have hstages := stagesOf_bounds job
      rw [List.foldr_cons, List.length_cons]
      omega

theorem stagesOf_lt_of_runStage {w : Workspace κ ρ} {job left : Job}
    (h : (w.runStage job).2 = some left) : stagesOf left < stagesOf job := by
  cases job with
  | compile project => cases h
  | resolve project =>
      simp only [runStage] at h
      split at h <;> cases h
      exact Nat.lt_succ_self 1

theorem stagesLeft_advance_zero (w : Workspace κ ρ) :
    (w.advance 0).stagesLeft ≤ w.stagesLeft - 1 := by
  unfold advance stagesLeft
  cases hjobs : w.jobs with
  | nil => simp [hjobs]
  | cons job rest =>
      have hpositive := (stagesOf_bounds job).1
      cases hleft : (w.runStage job).2 with
      | none => simp [hleft]; omega
      | some left =>
          have hless := stagesOf_lt_of_runStage hleft
          simp [hleft]
          omega

theorem stagesLeft_foldl_advance_zero (w : Workspace κ ρ) (count : Nat) :
    ((List.range count).foldl (fun w _ => w.advance 0) w).stagesLeft ≤ w.stagesLeft - count := by
  induction count with
  | zero => exact Nat.le_refl _
  | succ count ih =>
      rw [List.range_succ, List.foldl_append]
      have hadvanced := stagesLeft_advance_zero
        ((List.range count).foldl (fun w _ => w.advance 0) w)
      exact Nat.le_trans hadvanced (by omega)

/-- Nothing is left to do once all jobs have been done in order. -/
theorem jobs_runJobs (w : Workspace κ ρ) : w.runJobs.jobs = [] := by
  have hdone : w.runJobs.stagesLeft ≤ w.stagesLeft - 2 * w.jobs.length :=
    w.stagesLeft_foldl_advance_zero _
  have hfew := w.runJobs.stagesLeft_bounds.1
  have henough := w.stagesLeft_bounds.2
  exact List.length_eq_zero_iff.mp (by omega)

end Resolving

/-! ### Finding projects -/

/-- One change of any kind. -/
inductive Step : Workspace κ ρ → Workspace κ ρ → Prop where
  | work {w w' : Workspace κ ρ} (h : w.WorkStep w') : Step w w'
  | add (w : Workspace κ ρ) (found : List Path) : Step w (w.addScopes found)
  | evict (w : Workspace κ ρ) (project : Path) : Step w (w.evict project).1
  | divide (w : Workspace κ ρ) (found : List Path) : Step w (w.divide found)
  | instruct (w : Workspace κ ρ) (compiler : κ) :
      Step w { w with bench := { w.bench with compiler } }

def Steps : Workspace κ ρ → Workspace κ ρ → Prop := Relation.ReflTransGen Step

theorem Works.steps (h : w.Works w') : w.Steps w' :=
  Relation.ReflTransGen.mono (fun _ _ hstep => Step.work hstep) _ _ h

theorem steps_findProjects (w : Workspace κ ρ) (trustStored : Bool) :
    w.Steps (w.findProjects trustStored).1 := by
  rw [findProjects]
  generalize w.foundProjects trustStored = found
  have hadded : w.Steps (w.addScopes found) := .single (.add w found)
  have hothers : w.Steps ((w.addScopes found).evictOthers found) := by
    rw [evictOthers]
    generalize (w.addScopes found).projects.filter _ = gone
    generalize w.addScopes found = w' at *
    induction gone generalizing w' with
    | nil => exact hadded
    | cons root rest ih => exact ih _ (hadded.tail (.evict w' root))
  exact hothers.tail (.divide _ found)

theorem steps_applyFileChanges (w : Workspace κ ρ) (changes : List FileChange) :
    w.Steps (w.applyFileChanges changes).1 := by
  have htaken := (w.works_foldl_takeChange changes).steps
  rw [applyFileChanges]
  generalize changes.foldl takeChange w = w' at *
  cases changes.any w.movesProjects with
  | true => exact (htaken.trans (w'.steps_findProjects false)).tail (.work (.queue _ _))
  | false => exact htaken.tail (.work (.queue _ _))

end Workbench.Workspace
