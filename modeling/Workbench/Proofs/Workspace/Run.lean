import Workbench.Disk.Outside
import Workbench.Proofs.Workspace.Fidelity

/-!
Runs of a workspace. Its operations and the stages of its jobs in the background are done one after
another, the jobs in any order and with anything in between. Between them anything can happen
around it as well: others write on the disk, time passes, and the compiler and the resolver come
into other states.
-/

namespace Workbench.Workspace

/-- One thing that happens to a workspace. -/
inductive Action (κ ρ : Type) where
  | discover
  /-- A file watcher reports changes. What they ask for is left to the background. -/
  | watch (changes : List FileChange)
  | openDocument (p : Path) (text : String) (version : Int)
  | changeDocument (p : Path) (version : Int) (changes : List ContentChange)
  | closeDocument (p : Path)
  | ensureFresh (p : Path)
  | ensureProjectFresh (project : Path)
  /-- One of the jobs in the background gets on. -/
  | advance (number : Nat)
  | wait (milliseconds : Nat)
  | outside (action : OutsideAction)
  | instruct (compiler : κ)
  | script (resolver : ρ)

variable {κ ρ : Type} [Compiler κ] [Resolver ρ]

def step (w : Workspace κ ρ) : Action κ ρ → Workspace κ ρ
  | .discover => w.discover.1
  | .watch changes => (w.applyFileChanges changes).1
  | .openDocument p text version => (w.openDocument p text version).1
  | .changeDocument p version changes => (w.changeDocument p version changes).1
  | .closeDocument p => (w.closeDocument p).1
  | .ensureFresh p => (w.ensureFresh p).1
  | .ensureProjectFresh project => (w.ensureProjectFresh project).1
  | .advance number => w.advance number
  | .wait milliseconds => (w.track fun t _ => (t.wait milliseconds, ())).1
  | .outside action => { w with disk := w.disk.perform action }
  | .instruct compiler => { w with bench := { w.bench with compiler } }
  | .script resolver => { w with resolver }

def run (w : Workspace κ ρ) (actions : List (Action κ ρ)) : Workspace κ ρ := actions.foldl step w

/-- To do all jobs in order is one way to do them. -/
theorem runJobs_eq_run (w : Workspace κ ρ) :
    w.runJobs = w.run (List.replicate (2 * w.jobs.length) (.advance 0)) := by
  unfold runJobs run
  induction 2 * w.jobs.length with
  | zero => rfl
  | succ count ih =>
      rw [List.range_succ, List.foldl_append, ih, List.replicate_succ', List.foldl_append]
      rfl

/-- Whatever happens to a workspace is done in steps, unless others write on the disk. -/
theorem steps_step (w : Workspace κ ρ) (action : Action κ ρ)
    (hinside : ∀ change, action ≠ .outside change) : w.Steps (w.step action) := by
  have htracked (action : Tracker.Action) :
      w.Steps (w.track fun t d => (t.act d action, ())).1 := .single (.work (.track w action))
  cases action with
  | discover => exact w.steps_findProjects true
  | watch changes => exact w.steps_applyFileChanges changes
  | openDocument p text version => exact htracked (.openDocument p text version)
  | changeDocument p version changes => exact htracked (.change p version changes)
  | closeDocument p => exact htracked (.closeDocument p)
  | ensureFresh p => exact (w.works_ensureFresh p).steps
  | ensureProjectFresh project => exact (w.works_ensureProjectFresh project).steps
  | advance number => exact (w.works_advance number).steps
  | wait milliseconds => exact htracked (.wait milliseconds)
  | outside change => exact absurd rfl (hinside change)
  | instruct compiler => exact .single (.instruct w compiler)
  | script resolver => exact .single (.work (.ask w resolver))

theorem IsFaithful.step {w : Workspace κ ρ} (h : w.IsFaithful) (action : Action κ ρ) :
    (w.step action).IsFaithful := by
  cases action with
  | outside change => exact h
  | _ => exact h.steps (w.steps_step _ nofun)

theorem IsFaithful.run {w : Workspace κ ρ} (h : w.IsFaithful) (actions : List (Action κ ρ)) :
    (w.run actions).IsFaithful := by
  induction actions generalizing w with
  | nil => exact h
  | cons action rest ih => exact ih (h.step action)

section Opening

omit [Compiler κ] [Resolver ρ]

variable {disk : Disk} {env : Environment} {config : Config} {compiler : κ} {resolver : ρ}
  {root : Path} {w : Workspace κ ρ}

theorem openAt_spec (h : openAt disk env config compiler resolver root = .ok w) :
    ∃ root cache log, w =
      { root, config, disk, resolver, cache
        bench := ⟨Tracker.ofLimits config.documents.closedFileTtlMs
          config.documents.closedFileCapacity, compiler, log⟩ } := by
  unfold openAt at h
  generalize config.logging.configuredFilter? = filter at h
  generalize ClosedTexts.isPossible config.documents.closedFileCapacity = possible at h
  cases hroot : disk.stat (disk.normalize root) with
  | error e => simp [hroot] at h
  | ok node =>
      cases node with
      | dir =>
          cases filter <;> cases possible <;> simp [hroot] at h
          exact ⟨_, _, _, h.symm⟩
      | file content modified => simp [hroot] at h
      | link target => simp [hroot] at h

theorem eq_ok_of_toOption {ε α : Type} {answer : Except ε α} {a : α}
    (h : answer.toOption = some a) : answer = .ok a := by
  cases answer with
  | error e => contradiction
  | ok b => exact congrArg Except.ok (Option.some.inj h)

theorem exists_opened {start : Except OpenError (Workspace κ ρ)} {holds : Workspace κ ρ → Prop}
    [DecidablePred holds] (h : (start.toOption.any fun w => holds w) = true) :
    ∃ w, start = .ok w ∧ holds w := by
  obtain ⟨w, hw, hholds⟩ := (Option.any_eq_true _ _).mp h
  exact ⟨w, eq_ok_of_toOption hw, of_decide_eq_true hholds⟩

/-- A workspace that was just opened has no scopes, and nothing was said in it. -/
theorem isFaithful_openAt (h : openAt disk env config compiler resolver root = .ok w) :
    w.IsFaithful := by
  obtain ⟨root, cache, log, rfl⟩ := openAt_spec h
  exact
    { known := fun _ _ hsaid => absurd rfl hsaid
      heard := fun _ _ hs => by simp at hs
      silent := fun _ _ _ => rfl }

end Opening

end Workbench.Workspace
