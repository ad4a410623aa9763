import Workbench.Proofs.Workspace.Run
import Workbench.Toy.Compiler
import Workbench.Toy.Resolver

/-!
What subscribers see against what scopes store. A scope knows only what it said itself. When a file
passes from one project to another, the scope that lost it clears it with its next compile, even if
the new owner has spoken of it meanwhile; and the new owner is silent about a file that it finds
nothing in, whatever the old one left standing. So the subscribers see what the owner of a file
stores just when the owner had the last word.
-/

namespace Workbench.Workspace

variable {κ ρ : Type}

/-- A file with its owner, which was compiled and has nothing to compile. -/
structure IsSettled (w : Workspace κ ρ) (file : FileId) (p : Path) (key : List Component)
    (s : Scope) : Prop where
  path_eq : w.bench.tracker.path? file = some p
  owner_eq : w.owner? p = some (key, s)
  compiled : s.compiled = true
  nothing : s.pending w.config.compile w.bench.tracker = []

/-- For every settled file, the last event shows what its owner stores. -/
def Agrees (w : Workspace κ ρ) : Prop :=
  ∀ file p key s, w.IsSettled file p key s →
    Notice.lastAbout p w.history = s.diagnostics.ofFile file

/-- For every settled file, the last event shows what the last event of its owner shows. -/
def OwnersSpeakLast (w : Workspace κ ρ) : Prop :=
  ∀ file p key s, w.IsSettled file p key s →
    Notice.lastAbout p w.history = Notice.lastFrom key p w.history

variable [Compiler κ] [Resolver ρ]

/-- In every run of a workspace, every scope stores for every file what its own last event about the
file shows. So the last events show what the owners store exactly if the owners spoke last. This is
so for every file of which only its owner spoke, if that was never evicted. -/
theorem agrees_run_iff (disk : Disk) (env : Environment) (config : Config) (compiler : κ)
    (resolver : ρ) (root : Path) (w : Workspace κ ρ)
    (hopen : openAt disk env config compiler resolver root = .ok w)
    (actions : List (Action κ ρ)) :
    (∀ key s, (w.run actions).scopes[key]? = some s → ∀ file p,
        (w.run actions).bench.tracker.path? file = some p →
          s.diagnostics.ofFile file = Notice.lastFrom key p (w.run actions).history) ∧
      ((w.run actions).Agrees ↔ (w.run actions).OwnersSpeakLast) ∧
      ∀ file p key s, (w.run actions).IsSettled file p key s →
        (∀ notice ∈ (w.run actions).history, notice.leavesWordTo key p = true) →
          Notice.lastAbout p (w.run actions).history = s.diagnostics.ofFile file := by
  have hfaithful := (isFaithful_openAt hopen).run actions
  generalize w.run actions = w' at hfaithful
  have hstored : ∀ key s, w'.scopes[key]? = some s → ∀ file p,
      w'.bench.tracker.path? file = some p →
        s.diagnostics.ofFile file = Notice.lastFrom key p w'.history :=
    fun key s hs => (hfaithful.heard key s hs).stored
  have hsettled : ∀ file p key s, w'.IsSettled file p key s →
      s.diagnostics.ofFile file = Notice.lastFrom key p w'.history :=
    fun file p key s h => hstored key s (getElem?_of_owner? h.owner_eq) file p h.path_eq
  refine ⟨hstored, ?_, fun file p key s h hword => ?_⟩
  · refine forall_congr' fun file => forall_congr' fun p => forall_congr' fun key =>
      forall_congr' fun s => imp_congr_right fun h => ?_
    rw [hsettled file p key s h]
  · rw [hsettled file p key s h]
    exact Notice.lastAbout_eq_lastFrom hword

/-! A project appears inside another and takes a file over. -/

def nestingStart : Except OpenError (Workspace Toy.CompilerState Toy.ResolverState) :=
  openAt (({ nodes := ∅, cwd := [] } : Disk).perform
    (.write ⟨"/ws/build.gradle"⟩ (.ofText "") 0)) {} {} {} {} ⟨"/ws"⟩

/-- The outer project finds a class of the file unresolved. -/
def outerActions : List (Action Toy.CompilerState Toy.ResolverState) :=
  [.discover, .openDocument ⟨"/ws/sub/B.groovy"⟩ "class B extends Missing \x7b\n\x7d\n" 1,
    .ensureProjectFresh ⟨"/ws"⟩]

/-- The inner project comes up and is compiled before the outer one. -/
def nestingActions : List (Action Toy.CompilerState Toy.ResolverState) :=
  outerActions ++
    [.outside (.write ⟨"/ws/sub/build.gradle"⟩ (.ofText "") 0), .discover,
      .ensureProjectFresh ⟨"/ws/sub"⟩, .ensureProjectFresh ⟨"/ws"⟩]

def outerKey : List Component := [.root, .name "ws"]

theorem agrees_run_iff_outer :
    ∃ w s, nestingStart = .ok w ∧ (w.run outerActions).scopes[outerKey]? = some s ∧
      s.diagnostics.ofFile 0 ≠ [] ∧
      s.diagnostics.ofFile 0 =
        Notice.lastFrom outerKey ⟨"/ws/sub/B.groovy"⟩ (w.run outerActions).history ∧
      Notice.lastAbout ⟨"/ws/sub/B.groovy"⟩ (w.run outerActions).history =
        s.diagnostics.ofFile 0 ∧
      ((w.run outerActions).Agrees ↔ (w.run outerActions).OwnersSpeakLast) := by
  have hruns : (nestingStart.toOption.any fun w =>
      (w.run outerActions).bench.tracker.path? 0 = some ⟨"/ws/sub/B.groovy"⟩ ∧
        (∀ notice ∈ (w.run outerActions).history,
          notice.leavesWordTo outerKey ⟨"/ws/sub/B.groovy"⟩ = true) ∧
        ((w.run outerActions).owner? ⟨"/ws/sub/B.groovy"⟩).any fun owner =>
          owner.1 = outerKey ∧ owner.2.compiled ∧
            owner.2.pending (w.run outerActions).config.compile
              (w.run outerActions).bench.tracker = [] ∧
            owner.2.diagnostics.ofFile 0 ≠ []) = true := by
    decide +kernel
  cases hstart : nestingStart with
  | error e =>
      rw [hstart] at hruns
      contradiction
  | ok w =>
      rw [hstart, Except.toOption, Option.any_some, decide_eq_true_eq] at hruns
      obtain ⟨hpath, hword, howner⟩ := hruns
      obtain ⟨⟨key, s⟩, hs, hscope⟩ := (Option.any_eq_true _ _).mp howner
      obtain ⟨rfl, hcompiled, hnothing, hfound⟩ := of_decide_eq_true hscope
      obtain ⟨hstored, hiff, hagrees⟩ := agrees_run_iff _ _ _ _ _ _ w hstart outerActions
      have hs' := getElem?_of_owner? hs
      exact ⟨w, s, rfl, hs', hfound, hstored _ s hs' 0 _ hpath,
        hagrees 0 _ outerKey s ⟨hpath, hs, hcompiled, hnothing⟩ hword, hiff⟩

theorem not_agrees_nesting : ∃ w, nestingStart = .ok w ∧ ¬ (w.run nestingActions).Agrees := by
  have hruns : (nestingStart.toOption.any fun w =>
      (w.run nestingActions).bench.tracker.path? 0 = some ⟨"/ws/sub/B.groovy"⟩ ∧
        ((w.run nestingActions).owner? ⟨"/ws/sub/B.groovy"⟩).any fun owner =>
          owner.2.compiled ∧
            owner.2.pending (w.run nestingActions).config.compile
              (w.run nestingActions).bench.tracker = [] ∧
            Notice.lastAbout ⟨"/ws/sub/B.groovy"⟩ (w.run nestingActions).history ≠
              owner.2.diagnostics.ofFile 0) = true := by
    decide +kernel
  cases hstart : nestingStart with
  | error e =>
      rw [hstart] at hruns
      contradiction
  | ok w =>
      rw [hstart, Except.toOption, Option.any_some, decide_eq_true_eq] at hruns
      refine ⟨w, rfl, fun hagrees => ?_⟩
      generalize w.run nestingActions = w' at hruns hagrees
      obtain ⟨hpath, howner⟩ := hruns
      obtain ⟨⟨key, s⟩, hs, hdiffers⟩ := (Option.any_eq_true _ _).mp howner
      obtain ⟨hcompiled, hnothing, hdiffers⟩ := of_decide_eq_true hdiffers
      exact hdiffers (hagrees 0 _ key s ⟨hpath, hs, hcompiled, hnothing⟩)

end Workbench.Workspace
