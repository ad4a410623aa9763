import Workbench.Proofs.Snapshot.Accounts
import Workbench.Proofs.Workspace.Held
import Workbench.Proofs.Workspace.Operation
import Workbench.Toy.Compiler
import Workbench.Toy.Resolver

/-!
No classpath is lost. Whatever a workspace is asked for, its store accounts for just the handles
that its scopes hold, and each of them leads to an index that was built for entries with the
handle's key.
-/

namespace Workbench.Workspace

variable {scopes scopes' : Std.ExtTreeMap (List Component) Scope} {key : List Component}
  {s s' : Scope}

/-- The index of a handle was built on one of some disks, for entries that have the handle's key. -/
def IsIndexed (D : Disk → Prop) (handle : SnapshotHandle ClasspathIndex) : Prop :=
  ∃ d, D d ∧ handle.snapshot.value = .build d handle.snapshot.value.entries ∧
    handle.key = SnapshotStore.keyFor (handle.snapshot.value.entries.map ClasspathEntry.toJson)

variable {κ ρ : Type} {w w' : Workspace κ ρ} {D : Disk → Prop}
  {snapshots : SnapshotStore ClasspathIndex}
  {handle : SnapshotHandle ClasspathIndex} {handles : List (SnapshotHandle ClasspathIndex)}

/-- The store accounts for what the scopes hold. The workspace is on one of some disks, storing
classpaths leaves it on one of them, and all indexes were built on them. -/
structure Accounted (D : Disk → Prop) (w : Workspace κ ρ) : Prop where
  here : D w.disk
  stays : ∀ cache, w.cache = some cache → ∀ d project resolved projects, D d →
    D (cache.mergeProject d w.root project resolved projects).1
  accounts : w.snapshots.Accounts (heldBy w.scopes)
  indexed : ∀ handle ∈ heldBy w.scopes, IsIndexed D handle

/-- The scopes may change, as long as they hold the same handles. -/
theorem Accounted.keep (h : w.Accounted D) (hperm : (heldBy scopes).Perm (heldBy w.scopes)) :
    ({ w with scopes } : Workspace κ ρ).Accounted D where
  here := h.here
  stays := h.stays
  accounts := h.accounts.perm hperm.symm
  indexed handle hmem := h.indexed handle (hperm.mem_iff.mp hmem)

/-- What the account does not speak of may change. -/
theorem Accounted.aside (h : w.Accounted D) (bench : Bench κ) (resolver : ρ) (events : EventBus)
    (history : List Notice) (jobs : List Job) :
    ({ w with bench, resolver, events, history, jobs } : Workspace κ ρ).Accounted D :=
  ⟨h.here, h.stays, h.accounts, h.indexed⟩

theorem accounts_giveBack (h : snapshots.Accounts (s.classpath.toList ++ handles)) :
    (giveBack snapshots s).Accounts handles := by
  unfold giveBack
  cases hheld : s.classpath with
  | none =>
      rw [hheld] at h
      exact h
  | some handle =>
      rw [hheld] at h
      exact h.release

/-- A scope gives back its handle, and new handles take its place. -/
theorem Accounted.exchange (h : w.Accounted D) (hs : w.scopes[key]? = some s)
    (hnew : snapshots.Accounts (handles ++ heldBy w.scopes))
    (hindexed : ∀ handle ∈ handles, IsIndexed D handle)
    (hperm : (heldBy scopes').Perm (handles ++ heldBy (w.scopes.erase key))) :
    ({ w with snapshots := giveBack snapshots s, scopes := scopes' } :
      Workspace κ ρ).Accounted D where
  here := h.here
  stays := h.stays
  accounts := by
    have hold : (handles ++ heldBy w.scopes).Perm
        (s.classpath.toList ++ (handles ++ heldBy (w.scopes.erase key))) :=
      ((heldBy_perm_of_getElem? hs).append_left handles).trans (List.perm_append_comm_assoc _ _ _)
    exact (accounts_giveBack (hnew.perm hold)).perm hperm.symm
  indexed handle hmem := by
    rcases List.mem_append.mp (hperm.mem_iff.mp hmem) with hfresh | hkept
    · exact hindexed handle hfresh
    · exact h.indexed handle
        ((heldBy_perm_of_getElem? hs).mem_iff.mpr (List.mem_append_right _ hkept))

/-! ### Operations -/

theorem Accounted.evict (h : w.Accounted D) (project : Path) :
    (w.evict project).1.Accounted D := by
  simp only [Workspace.evict, releaseHandle_eq]
  split
  case h_1 => exact h
  case h_2 s hs =>
    have hnothing : w.snapshots.Accounts ([] ++ heldBy w.scopes) := h.accounts
    have hevicted := h.exchange hs hnothing (fun _ hmem => absurd hmem List.not_mem_nil) (.refl _)
    exact hevicted.aside _ _ _ _ _

theorem Accounted.releaseClasspath (h : w.Accounted D) (project : Path) :
    (w.releaseClasspath project).1.Accounted D := by
  simp only [Workspace.releaseClasspath, releaseHandle_eq]
  split
  case h_1 => exact h
  case h_2 s hs =>
    have hnothing : w.snapshots.Accounts ([] ++ heldBy w.scopes) := h.accounts
    have hreleased := h.exchange hs hnothing (fun _ hmem => absurd hmem List.not_mem_nil)
      (heldBy_insert_perm w.scopes _ s.releaseClasspath)
    exact hreleased

theorem Accounted.track {α : Type} (h : w.Accounted D) (act : Tracker → Disk → Tracker × α) :
    (w.track act).1.Accounted D :=
  h.aside _ w.resolver w.events w.history w.jobs

theorem Accounted.refreshed (h : w.Accounted D) (hs : w.scopes[key]? = some s)
    (hsame : s'.classpath = s.classpath) (bench : Bench κ) (report : CompileReport) :
    ((({ w with bench } : Workspace κ ρ).putScope key s').publishReport key report).Accounted D := by
  obtain ⟨events, htold⟩ :=
    publishReport_spec (({ w with bench } : Workspace κ ρ).putScope key s') key report
  rw [htold]
  exact (h.keep (heldBy_renew_perm hs hsame)).aside _ _ _ _ _

theorem Accounted.refreshScope [Compiler κ] (h : w.Accounted D) (hs : w.scopes[key]? = some s)
    (asked : Option FileId) : (w.refreshScope key s asked).1.Accounted D :=
  h.refreshed hs (s.pass_of_refresh w.config.compile w.disk w.bench asked).classpath_eq _ _

theorem Accounted.withPlaceholder [Compiler κ] {α : Type} (h : w.Accounted D) (p : Path)
    (position : Position) (token : String) (read : Bench κ → Scope → FileId → Bench κ × α) :
    (w.withPlaceholder p position token read).1.Accounted D := by
  rw [Workspace.withPlaceholder]
  split
  case h_1 => exact h
  case h_2 key s howner =>
    split
    case h_1 => exact h
    case h_2 bench s' report answer hread =>
      obtain ⟨changed, context, hpass⟩ := Scope.pass_of_withPlaceholder hread
      exact h.refreshed (getElem?_of_owner? howner) hpass.classpath_eq bench report

theorem Accounted.acquireIndex (h : w.Accounted D) (entries : List ClasspathEntry) :
    (w.acquireIndex entries).1.snapshots.Accounts
        ((w.acquireIndex entries).2 :: heldBy w.scopes) ∧
      IsIndexed D (w.acquireIndex entries).2 := by
  have haccounts := h.accounts.acquire
    (SnapshotStore.keyFor (entries.map ClasspathEntry.toJson))
    (fun store => (store, ClasspathIndex.build w.disk entries)) fun _ => h.accounts
  rw [ite_self] at haccounts
  have hhandle := h.accounts.handle_acquire
    (SnapshotStore.keyFor (entries.map ClasspathEntry.toJson))
    (ClasspathIndex.build w.disk entries)
  rw [Workspace.acquireIndex]
  refine ⟨?_, ?_⟩
  · dsimp only
    split <;> exact haccounts
  · rcases hhandle with hheld | ⟨-, hbuilt⟩
    · exact h.indexed _ hheld
    · dsimp only
      rw [hbuilt]
      exact ⟨w.disk, h.here, rfl, rfl⟩

theorem Accounted.installClasspath (h : w.Accounted D) (hs : w.scopes[key]? = some s)
    (project : Path) (resolved : ResolvedClasspath) (fromCache : Bool) :
    (w.installClasspath key project s resolved fromCache).Accounted D := by
  obtain ⟨haccounts, hindexed⟩ := h.acquireIndex resolved.entries
  obtain ⟨log, events, hinstalled⟩ := w.installClasspath_spec key project s resolved fromCache
  have hnew : (w.acquireIndex resolved.entries).1.snapshots.Accounts
      ([(w.acquireIndex resolved.entries).2] ++ heldBy w.scopes) := haccounts
  have hexchanged := h.exchange hs hnew (by simpa using hindexed)
    (heldBy_insert_perm w.scopes key
      (s.setClasspath (w.acquireIndex resolved.entries).2 resolved.runtimeVersion))
  rw [hinstalled]
  exact hexchanged.aside _ _ _ _ _

theorem Accounted.storeClasspath (h : w.Accounted D) (project : Path)
    (resolved : ResolvedClasspath) : (w.storeClasspath project resolved).Accounted D := by
  rw [Workspace.storeClasspath]
  split
  case h_1 => exact h
  case h_2 cache hcache =>
    have hmerged := h.stays cache hcache w.disk project resolved (some w.projects) h.here
    generalize cache.mergeProject w.disk w.root project resolved (some w.projects) = merged at *
    obtain ⟨disk, failure⟩ := merged
    exact ⟨hmerged, h.stays, h.accounts, h.indexed⟩

theorem Accounted.work [Compiler κ] (h : w.Accounted D) (hwork : w.WorkStep w') :
    w'.Accounted D := by
  cases hwork with
  | track action => exact h.track _
  | refresh hs asked => exact h.refreshScope hs asked
  | ask resolver => exact h.aside _ _ _ _ _
  | store project resolved => exact h.storeClasspath project resolved
  | install hs project resolved fromCache => exact h.installClasspath hs project resolved fromCache
  | note events => exact h.aside _ _ _ _ _
  | queue jobs => exact h.aside _ _ _ _ _

theorem Accounted.change [Compiler κ] (h : w.Accounted D) (hstep : w.Step w') :
    w'.Accounted D := by
  cases hstep with
  | work hwork => exact h.work hwork
  | add found => exact h.keep (heldBy_addAll w.disk found)
  | evict project => exact h.evict project
  | divide found => exact h.keep (.of_eq (heldBy_map _ fun _ s => s.classpath_setExcluded _))
  | instruct compiler => exact h.aside _ _ _ _ _

theorem Accounted.steps [Compiler κ] (h : w.Accounted D) (hsteps : w.Steps w') :
    w'.Accounted D := by
  induction hsteps with
  | refl => exact h
  | tail _ hstep ih => exact ih.change hstep

theorem Accounted.step [Compiler κ] [Resolver ρ] (h : w.Accounted D) (action : Action κ ρ)
    (houtside : ∀ change, action = .outside change → ∀ d, D d → D (d.perform change)) :
    (w.step action).Accounted D := by
  cases action with
  | outside change =>
      exact ⟨houtside change rfl w.disk h.here, h.stays, h.accounts, h.indexed⟩
  | _ => exact h.steps (w.steps_step _ nofun)

theorem Accounted.perform [Compiler κ] [Resolver ρ] (h : w.Accounted D)
    (operation : Operation κ ρ)
    (houtside : ∀ change, operation = .act (.outside change) → ∀ d, D d → D (d.perform change)) :
    (w.perform operation).Accounted D := by
  cases operation with
  | act action => exact h.step action fun change heq => houtside change (congrArg _ heq)
  | track action => exact h.track _
  | resolveClasspath project => exact h.steps (w.works_resolveClasspath project).steps
  | resolveAll => exact h.steps (w.works_resolveEach w.projects).steps
  | resolveAllInBackground => exact h.steps (.single (.work (.queue w _)))
  | scheduleCompile project => exact h.steps (.single (.work (.queue w _)))
  | releaseClasspath project => exact h.releaseClasspath project
  | evict project => exact h.evict project
  | withPlaceholder p position token read => exact h.withPlaceholder p position token read

theorem Accounted.performAll [Compiler κ] [Resolver ρ] (h : w.Accounted D)
    (operations : List (Operation κ ρ))
    (houtside : ∀ change, .act (.outside change) ∈ operations → ∀ d, D d → D (d.perform change)) :
    (w.performAll operations).Accounted D := by
  induction operations generalizing w with
  | nil => exact h
  | cons operation rest ih =>
      have hperformed := h.perform operation fun change heq =>
        houtside change (heq ▸ List.mem_cons_self)
      exact ih hperformed fun change hmem => houtside change (List.mem_cons_of_mem _ hmem)

theorem accounted_openAt {disk : Disk} {env : Environment} {config : Config} {compiler : κ}
    {resolver : ρ} {root : Path} (h : openAt disk env config compiler resolver root = .ok w)
    (here : D w.disk) (stays : ∀ cache, w.cache = some cache → ∀ d project resolved projects, D d →
      D (cache.mergeProject d w.root project resolved projects).1) : w.Accounted D := by
  obtain ⟨root, cache, log, rfl⟩ := openAt_spec h
  have hnothing : heldBy ∅ = [] := by simp [heldBy]
  exact ⟨here, stays, hnothing ▸ SnapshotStore.accounts_empty, by simp [hnothing]⟩

/-! ### Counting -/

/-- The projects whose scopes hold a handle of a key. -/
def holders (w : Workspace κ ρ) (key : Fingerprint) : List (List Component × Scope) :=
  w.scopes.toList.filter fun entry => entry.2.classpath.any fun handle => handle.key = key

theorem count_heldBy (w : Workspace κ ρ) (key : Fingerprint) :
    SnapshotHandle.count key (heldBy w.scopes) = (w.holders key).length := by
  rw [SnapshotHandle.count, heldBy, holders, List.countP_filterMap, ← List.countP_eq_length_filter]
  refine List.countP_congr fun entry _ => ?_
  cases entry.2.classpath <;> simp

/-- Whatever is asked of a workspace, its store counts for every key the scopes that hold a handle
of it, and has no other key. -/
theorem handleCount_performAll [Compiler κ] [Resolver ρ] {disk : Disk} {env : Environment}
    {config : Config} {compiler : κ} {resolver : ρ} {root : Path}
    (h : openAt disk env config compiler resolver root = .ok w)
    (operations : List (Operation κ ρ)) (key : Fingerprint) :
    (w.performAll operations).snapshots.handleCount key =
        ((w.performAll operations).holders key).length ∧
      ((w.performAll operations).snapshots.contains key = true ↔
        (w.performAll operations).holders key ≠ []) := by
  have hopened : w.Accounted fun _ => True :=
    accounted_openAt h trivial fun _ _ _ _ _ _ _ => trivial
  have haccounts := (hopened.performAll operations fun _ _ _ _ => trivial).accounts
  have hcount := count_heldBy (w.performAll operations) key
  refine ⟨(haccounts.handleCount_eq key).trans hcount, haccounts.contains_iff.trans ?_⟩
  rw [hcount, List.length_pos_iff]

/-! Two projects whose classpaths have the same two directories, though in different orders. Both
directories have a class of the same name. -/

def classDirs : List ClasspathEntry := [⟨.classDir, ⟨"/a"⟩⟩, ⟨.classDir, ⟨"/b"⟩⟩]

def sharingDisk : Disk where
  nodes := .ofList [(["ws"], .dir), (["ws", "app"], .dir), (["ws", "lib"], .dir),
    (["ws", "app", "build.gradle"], .file ⟨[]⟩ 0), (["ws", "lib", "build.gradle"], .file ⟨[]⟩ 0),
    (["a"], .dir), (["a", "X.class"], .file ⟨[]⟩ 0), (["b"], .dir),
    (["b", "X.class"], .file ⟨[]⟩ 0)] Place.order
  cwd := []

def sharingStart : Except OpenError (Workspace Toy.CompilerState Toy.ResolverState) :=
  openAt sharingDisk {} {} {}
    (({ fallback := { entries := classDirs } } : Toy.ResolverState).script sharingDisk ⟨"/ws/lib"⟩
      (.ok { entries := classDirs.reverse })) ⟨"/ws"⟩

def sharedKey : Fingerprint := SnapshotStore.keyFor (classDirs.map ClasspathEntry.toJson)

theorem handleCount_performAll_sharing :
    ∃ w, sharingStart = .ok w ∧
      (w.performAll [.act .discover, .resolveAll]).snapshots.handleCount sharedKey = 2 ∧
      (w.performAll [.act .discover, .resolveAll]).snapshots.contains sharedKey = true := by
  have hruns : (sharingStart.toOption.any fun w =>
      ((w.performAll [.act .discover, .resolveAll]).holders sharedKey).length = 2) = true := by
    decide +kernel
  obtain ⟨w, hstart, htwo⟩ := exists_opened hruns
  obtain ⟨hcount, hcontains⟩ :=
    handleCount_performAll hstart [.act .discover, .resolveAll] sharedKey
  refine ⟨w, hstart, hcount.trans htwo, hcontains.mpr ?_⟩
  apply List.ne_nil_of_length_pos
  omega

end Workbench.Workspace
