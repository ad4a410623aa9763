import Workbench.Proofs.Classpath.Index
import Workbench.Proofs.Workspace.Stored

/-!
The order of a classpath. A project gets the index of its own classpath, unless some scope still
holds one with the same key; the key knows the entries but not their order. So what the project
sees is right just if the classpath that was indexed has every class in the same entry first.
-/

namespace Workbench.Workspace

variable {κ ρ : Type} {w : Workspace κ ρ} {D : Disk → Prop}

/-- The disks that storing classpaths can lead to. -/
inductive Reaches (w : Workspace κ ρ) : Disk → Prop where
  | here : w.Reaches w.disk
  | stored {d : Disk} {cache : ClasspathCache} (hcache : w.cache = some cache) (h : w.Reaches d)
      (project : Path) (resolved : ResolvedClasspath) (projects : Option (List Path)) :
      w.Reaches (cache.mergeProject d w.root project resolved projects).1

theorem scopes_installClasspath (w : Workspace κ ρ) (key : List Component) (project : Path)
    (s : Scope) (resolved : ResolvedClasspath) (fromCache : Bool) :
    (w.installClasspath key project s resolved fromCache).scopes[key]? =
      some (s.setClasspath (w.acquireIndex resolved.entries).2 resolved.runtimeVersion) := by
  rw [scopes_installClasspath_eq]
  exact Std.ExtTreeMap.getElem?_insert_self

variable [Resolver ρ]

/-- The classpath of a project itself: the stored one, if it can be trusted, and else what the
resolver answers. -/
def ownClasspath (w : Workspace κ ρ) (project : Path) : Except ResolveError ResolvedClasspath :=
  let project := w.disk.normalize project
  match w.storedClasspath? project with
  | some resolved => .ok resolved
  | none => (Resolver.resolve w.resolver w.disk project).2

/-- If the classpath of a project can be resolved, its scope holds an index then, and compiles with
it, that answers for the project's own entries. -/
def RespectsOrder (w : Workspace κ ρ) (project : Path) : Prop :=
  ∀ stored, (w.resolveClasspath project).2 = .ok stored →
    ∃ own s handle, w.ownClasspath project = .ok own ∧
      (w.resolveClasspath project).1.scopes[w.resolvedKey project]? = some s ∧
      s.classpath = some handle ∧ s.environment.classpath = handle.snapshot.value ∧
      handle.snapshot.value.Respects w.disk own.entries

/-- An index that a scope holds for the entries of a project has every class in the same entry
first as the project's own classpath. -/
def SharesOrder (w : Workspace κ ρ) (project : Path) : Prop :=
  ∀ own, w.resolvedKey project ∈ w.scopes → w.ownClasspath project = .ok own →
    ∀ handle ∈ heldBy w.scopes,
      handle.key = SnapshotStore.keyFor (own.entries.map ClasspathEntry.toJson) →
      ∀ name, handle.snapshot.value.entries.find? (ClasspathEntry.has w.disk name) =
        own.entries.find? (ClasspathEntry.has w.disk name)

theorem of_resolveClasspath {project : Path} {stored : Bool}
    (h : (w.resolveClasspath project).2 = .ok stored) :
    w.resolvedKey project ∈ w.scopes ∧ ∃ own, w.ownClasspath project = .ok own := by
  have hresolution := w.resolution project
  generalize w.resolveClasspath project = result at *
  rw [Std.ExtTreeMap.mem_iff_isSome_getElem?]
  simp only [ownClasspath]
  cases hresolution with
  | unknown => contradiction
  | failed => contradiction
  | stored hs hstored =>
      rw [hs, hstored]
      exact ⟨rfl, _, rfl⟩
  | anew hs hstored hanswer =>
      rw [hs, hstored, hanswer]
      exact ⟨rfl, _, rfl⟩

theorem ResolvesAnew.ownClasspath_eq {c : ClasspathCache} {q : Path} {resolved : ResolvedClasspath}
    (h : w.ResolvesAnew c q resolved) : w.ownClasspath q = .ok resolved := by
  have hresolution := w.resolution q
  have hasked := h.asked
  have hanswer := h.answer
  generalize w.resolveClasspath q = result at *
  cases hresolution with
  | unknown => contradiction
  | failed => contradiction
  | stored => cases hasked
  | anew _ hstored => rw [ownClasspath, hstored, hanswer]

/-- A registered project with a classpath gets it: its scope takes a handle from the store, for an
index that would be built on the disk as it then is. -/
theorem resolveClasspath_spec (h : w.Accounted D) {project : Path} {s : Scope}
    {own : ResolvedClasspath} (hs : w.scopes[w.resolvedKey project]? = some s)
    (hown : w.ownClasspath project = .ok own) :
    ∃ d stored, D d ∧ (w.resolveClasspath project).2 = .ok stored ∧
      (w.resolveClasspath project).1.scopes[w.resolvedKey project]? = some (s.setClasspath
        (w.snapshots.acquire (SnapshotStore.keyFor (own.entries.map ClasspathEntry.toJson))
          fun store => (store, .build d own.entries)).handle own.runtimeVersion) := by
  have hresolution := w.resolution project
  generalize w.resolveClasspath project = result at *
  simp only [ownClasspath] at hown
  cases hresolution with
  | unknown hnone =>
      rw [hnone] at hs
      contradiction
  | failed _ hstored hanswer =>
      rw [hstored, hanswer] at hown
      contradiction
  | stored hscope hstored =>
      cases hs.symm.trans hscope
      rw [hstored] at hown
      cases hown
      exact ⟨w.disk, true, h.here, rfl, scopes_installClasspath w _ _ s own true⟩
  | @anew _ resolver _ hscope hstored hanswer =>
      cases hs.symm.trans hscope
      rw [hstored, hanswer] at hown
      cases hown
      have hasked := h.aside w.bench resolver w.events w.history w.jobs
      have hwritten := hasked.storeClasspath (w.disk.normalize project) own
      obtain ⟨disk, log, heq⟩ := ({ w with resolver } : Workspace κ ρ).storeClasspath_spec
        (w.disk.normalize project) own
      rw [heq] at hwritten ⊢
      exact ⟨disk, false, hwritten.here, rfl, scopes_installClasspath _ _ _ s own false⟩

omit [Resolver ρ] in
theorem IsIndexed.respects_iff {handle : SnapshotHandle ClasspathIndex} {disk : Disk}
    {own : List ClasspathEntry} (h : IsIndexed D handle)
    (hindexed : ∀ d, D d → ∀ e ∈ handle.snapshot.value.entries, ∀ name,
      e.has d name = e.has disk name)
    (hown : ∀ d, D d → ∀ e ∈ own, ∀ name, e.has d name = e.has disk name) :
    handle.snapshot.value.Respects disk own ↔
      ∀ name, handle.snapshot.value.entries.find? (ClasspathEntry.has disk name) =
        own.find? (ClasspathEntry.has disk name) := by
  obtain ⟨d, hd, hvalue, -⟩ := h
  generalize handle.snapshot.value = index at hvalue hindexed ⊢
  rw [hvalue] at hindexed ⊢
  have hindexed : ∀ e ∈ index.entries, ∀ name, e.has d name = e.has disk name := hindexed d hd
  rw [← ClasspathIndex.respects_congr (hown d hd), ClasspathIndex.respects_build_iff]
  refine forall_congr' fun name => ?_
  rw [ClasspathIndex.find?_has_congr hindexed, ClasspathIndex.find?_has_congr (hown d hd)]
  rfl

/-- The entries that the index of a project may come from: those of its own classpath, and those of
the indexes that scopes hold. -/
def Concerns (w : Workspace κ ρ) (project : Path) (e : ClasspathEntry) : Prop :=
  (∃ own, w.ownClasspath project = .ok own ∧ e ∈ own.entries) ∨
    ∃ handle ∈ heldBy w.scopes, e ∈ handle.snapshot.value.entries

/-- Where the entries have the same classes on all disks, a project gets an index for its own order
just if it shares that order with the scopes that hold an index of its entries. -/
theorem Accounted.respectsOrder_iff (h : w.Accounted D) {project : Path}
    (halike : ∀ d, D d → ∀ e, w.Concerns project e → ∀ name, e.has d name = e.has w.disk name) :
    w.RespectsOrder project ↔ w.SharesOrder project := by
  have hheld {handle : SnapshotHandle ClasspathIndex} (hhandle : handle ∈ heldBy w.scopes)
      (d : Disk) (hd : D d) (e : ClasspathEntry) (he : e ∈ handle.snapshot.value.entries) :
      ∀ name, e.has d name = e.has w.disk name :=
    halike d hd e (.inr ⟨handle, hhandle, he⟩)
  have hown {own : ResolvedClasspath} (hresolved : w.ownClasspath project = .ok own) (d : Disk)
      (hd : D d) (e : ClasspathEntry) (he : e ∈ own.entries) :
      ∀ name, e.has d name = e.has w.disk name :=
    halike d hd e (.inl ⟨own, hresolved, he⟩)
  constructor
  · intro hrespects own hmem hresolved handle hhandle hkey
    obtain ⟨s, hs⟩ := Option.isSome_iff_exists.mp (Std.ExtTreeMap.mem_iff_isSome_getElem?.mp hmem)
    obtain ⟨d, stored, -, hok, hscope⟩ := resolveClasspath_spec h hs hresolved
    obtain ⟨own', s', handle', hresolved', hs', hhandle', -, hindex⟩ := hrespects stored hok
    cases hresolved.symm.trans hresolved'
    cases hscope.symm.trans hs'
    cases hhandle'
    have hacquired := h.accounts.handle_acquire
      (SnapshotStore.keyFor (own.entries.map ClasspathEntry.toJson))
      (ClasspathIndex.build d own.entries)
    rcases hacquired with hshared | ⟨hnobody, -⟩
    · have hsame := h.accounts.snapshot_eq hhandle hshared
        (hkey.trans (SnapshotStore.key_acquire _ _ _).symm)
      apply ((h.indexed handle hhandle).respects_iff (hheld hhandle) (hown hresolved)).mp
      rw [hsame]
      exact hindex
    · exact absurd hkey (hnobody handle hhandle)
  · intro hshares stored hok
    obtain ⟨hmem, own, hresolved⟩ := of_resolveClasspath hok
    obtain ⟨s, hs⟩ := Option.isSome_iff_exists.mp (Std.ExtTreeMap.mem_iff_isSome_getElem?.mp hmem)
    obtain ⟨d, -, hd, -, hscope⟩ := resolveClasspath_spec h hs hresolved
    refine ⟨own, _, _, hresolved, hscope, rfl, rfl, ?_⟩
    have hacquired := h.accounts.handle_acquire
      (SnapshotStore.keyFor (own.entries.map ClasspathEntry.toJson))
      (ClasspathIndex.build d own.entries)
    rcases hacquired with hshared | ⟨-, hbuilt⟩
    · exact ((h.indexed _ hshared).respects_iff (hheld hshared) (hown hresolved)).mpr
        (hshares own hmem hresolved _ hshared (SnapshotStore.key_acquire _ _ _))
    · rw [hbuilt]
      exact (ClasspathIndex.respects_congr (hown hresolved d hd)).mp
        (ClasspathIndex.respects_build d _)

/-- Over every run of a workspace that leaves the disk alone, but for storing classpaths, resolving
the classpath of a project gives it an index for its own order just if no scope holds an index of the
same entries in which another entry comes first. What is stored leaves the classes in the entries
that this is about. -/
theorem respectsOrder_performAll_iff [Compiler κ] {disk : Disk} {env : Environment}
    {config : Config} {compiler : κ} {resolver : ρ} {root : Path}
    (h : openAt disk env config compiler resolver root = .ok w)
    (operations : List (Operation κ ρ)) (hinside : ∀ change, .act (.outside change) ∉ operations)
    (project : Path)
    (halike : ∀ d, w.Reaches d → ∀ e, (w.performAll operations).Concerns project e →
      ∀ name, e.has d name = e.has w.disk name) :
    (w.performAll operations).RespectsOrder project ↔
      (w.performAll operations).SharesOrder project := by
  have hopened : w.Accounted w.Reaches := accounted_openAt h .here
    fun cache hcache d project resolved projects hd => .stored hcache hd project resolved projects
  have haccounted := hopened.performAll operations fun change hmem =>
    absurd hmem (hinside change)
  apply haccounted.respectsOrder_iff
  intro d hd e he name
  rw [halike d hd e he, halike _ haccounted.here e he]

omit [Resolver ρ] in
/-- A scope that gets a classpath gets a handle that some scope holds already, or one to an index of
the entries of the classpath. -/
theorem Accounted.entries_installClasspath (h : w.Accounted D) {key : List Component} {s : Scope}
    (hs : w.scopes[key]? = some s) (project : Path) (resolved : ResolvedClasspath) (fromCache : Bool)
    {handle : SnapshotHandle ClasspathIndex}
    (hhandle : handle ∈
      heldBy (w.installClasspath key project s resolved fromCache).scopes) :
    handle ∈ heldBy w.scopes ∨ handle.snapshot.value.entries = resolved.entries := by
  rw [scopes_installClasspath_eq] at hhandle
  rcases List.mem_append.mp ((heldBy_insert_perm _ _ _).mem_iff.mp hhandle) with hnew | hkept
  · obtain rfl := Option.some.inj (Option.mem_toList.mp hnew)
    have hacquired := h.accounts.handle_acquire
      (SnapshotStore.keyFor (resolved.entries.map ClasspathEntry.toJson))
      (ClasspathIndex.build w.disk resolved.entries)
    rcases hacquired with hshared | ⟨-, hbuilt⟩
    · exact .inl hshared
    · refine .inr ?_
      rw [Workspace.acquireIndex]
      dsimp only
      rw [hbuilt]
      rfl
  · exact .inl ((heldBy_perm_of_getElem? hs).mem_iff.mpr (List.mem_append_right _ hkept))

/-- No scope holds an index of other entries after a project has been resolved than before, but for
the project's own. -/
theorem Accounted.entries_resolveClasspath (h : w.Accounted D) (project : Path)
    {handle : SnapshotHandle ClasspathIndex}
    (hhandle : handle ∈ heldBy (w.resolveClasspath project).1.scopes) :
    handle ∈ heldBy w.scopes ∨ ∃ own, w.ownClasspath project = .ok own ∧
      handle.snapshot.value.entries = own.entries := by
  have hresolution := w.resolution project
  generalize w.resolveClasspath project = result at *
  rw [ownClasspath]
  cases hresolution with
  | unknown => exact .inl hhandle
  | failed => exact .inl hhandle
  | stored hs hstored =>
      rw [hstored]
      have hentries := h.entries_installClasspath hs _ _ _ hhandle
      exact hentries.imp_right fun hentries => ⟨_, rfl, hentries⟩
  | @anew s resolver own hs hstored hanswer =>
      rw [hstored, hanswer]
      have hwritten := (h.aside w.bench resolver w.events w.history w.jobs).storeClasspath
        (w.disk.normalize project) own
      have hsame := scopes_storeClasspath ({ w with resolver } : Workspace κ ρ)
        (w.disk.normalize project) own
      have hentries := hwritten.entries_installClasspath ((congrArg (·[_]?) hsame).trans hs) _ _ _
        hhandle
      rw [hsame] at hentries
      exact hentries.imp_right fun hentries => ⟨_, rfl, hentries⟩

/-! Two projects with two archives that have a class of the same name. Their workspace stores
classpaths in a directory that is made when the first of them is resolved. -/

def archives : List ClasspathEntry := [⟨.jar, ⟨"/a.jar"⟩⟩, ⟨.jar, ⟨"/b.jar"⟩⟩]

def archive : Content := .ofNames ["X.class"]

def archiveDisk : Disk where
  nodes := .ofList [(["ws"], .dir), (["ws", "app"], .dir), (["ws", "lib"], .dir),
    (["ws", "app", "build.gradle"], .file ⟨[]⟩ 0), (["ws", "lib", "build.gradle"], .file ⟨[]⟩ 0),
    (["a.jar"], .file archive 0), (["b.jar"], .file archive 0)] Place.order
  cwd := []

def archiveStart : Except OpenError (Workspace Toy.CompilerState Toy.ResolverState) :=
  openAt archiveDisk {}
    { classpath := { buildFileNames := ["build.gradle"], cacheDir := some ⟨"/cache"⟩ } } {}
    { fallback := { entries := archives } } ⟨"/ws"⟩

/-- The first project has been resolved. -/
def firstResolved (w : Workspace Toy.CompilerState Toy.ResolverState) :
    Workspace Toy.CompilerState Toy.ResolverState :=
  w.performAll [.act .discover, .resolveClasspath ⟨"/ws/app"⟩]

omit [Resolver ρ] in
/-- Storing classpaths leaves everything that is not named like a record. -/
theorem Reaches.node? {disk : Disk} (h : w.Reaches disk) {place : Place} {last : String}
    {node : Node} (hlast : last.toList.head? ≠ some 'c')
    (hnode : w.disk.node? (place ++ [last]) = some node) :
    disk.node? (place ++ [last]) = some node := by
  induction h with
  | here => exact hnode
  | stored _ _ project resolved projects ih =>
      exact ClasspathCache.node?_runMerge hlast ih ⟨project, resolved, projects⟩

theorem file?_of_steps {disk : Disk} {p : Path} {last : String} {content : Content} {modified : Int}
    (hp : p.isAbsolute) (hrefused : p.refusal? = none) (hsteps : p.steps = [.stay, .into last])
    (hlength : last.utf8ByteSize ≤ maxNameBytes)
    (hnode : disk.node? [last] = some (.file content modified)) :
    disk.file? p = some (content, modified) := by
  have hroot : disk.follow p [.stay, .stay] = .ok (.found []) := by
    refine (Disk.follow_of_isAbsolute hp).mpr ⟨hrefused, ?_⟩
    rw [Disk.chase_congr (Disk.advance_stay disk.node?_nil), Disk.chase_stay disk.node?_nil]
  have hentry : disk.entry p = .ok ([], last) :=
    Disk.entry_eq_ok.mpr ⟨[.stay], hsteps, hlength, hroot⟩
  have hlook := Disk.look_of_entry_node hentry hnode (Node.not_isLink_file _ _)
  exact Disk.file?_eq_some.mpr ⟨[last], hlook, hnode⟩

theorem has_archive {disk : Disk} (ha : disk.node? ["a.jar"] = some (.file archive 0))
    (hb : disk.node? ["b.jar"] = some (.file archive 0)) {e : ClasspathEntry} (he : e ∈ archives)
    (name : String) : e.has disk name = (archive.classFiles?.bind fun files =>
      files.find? fun file => ClassFile.binaryName? file = some name).isSome := by
  have hfiles : e.classFiles? disk = archive.classFiles? := by
    rcases List.mem_cons.mp he with rfl | he
    · simp only [ClasspathEntry.classFiles?, Option.bind_some,
        file?_of_steps (p := ⟨"/a.jar"⟩) (by decide) (by decide) (by decide) (by decide) ha]
    · obtain rfl := List.mem_singleton.mp he
      simp only [ClasspathEntry.classFiles?, Option.bind_some,
        file?_of_steps (p := ⟨"/b.jar"⟩) (by decide) (by decide) (by decide) (by decide) hb]
  rw [ClasspathEntry.has, ClasspathEntry.classFile?, hfiles]

/-- How the classpath of the first project is stored. -/
def mergeOfApp (w : Workspace Toy.CompilerState Toy.ResolverState) : ClasspathCache.Merge :=
  ⟨w.disk.normalize ⟨"/ws/app"⟩, { entries := archives }, some w.projects⟩

/-- What is stored of the first project does not keep the resolver from being asked for the second
one. -/
theorem resolves_archives :
    ∃ w c, archiveStart = .ok w ∧ w.disk.node? ["a.jar"] = some (.file archive 0) ∧
      w.disk.node? ["b.jar"] = some (.file archive 0) ∧
      (¬ w.disk.isDir ⟨"/cache"⟩ ∧ (firstResolved w).disk.isDir ⟨"/cache"⟩) ∧
      heldBy w.discover.1.scopes = [] ∧
      w.discover.1.ResolvesAnew c ⟨"/ws/app"⟩ { entries := archives } ∧
      (firstResolved w).resolvedKey ⟨"/ws/lib"⟩ ∈ (firstResolved w).scopes ∧
      (firstResolved w).storedClasspath? ((firstResolved w).disk.normalize ⟨"/ws/lib"⟩) = none ∧
      (Resolver.resolve (firstResolved w).resolver (firstResolved w).disk
        ((firstResolved w).disk.normalize ⟨"/ws/lib"⟩)).2 = .ok { entries := archives } := by
  have hruns : (archiveStart.toOption.any fun w => w.discover.1.cache.any fun c =>
      let v := w.discover.1
      let lock : Path := ⟨recordFilePath.text ++ ".lock"⟩
      let merged := c.mergeAt v.disk recordFilePath (mergeOfApp v)
      (w.disk.node? ["a.jar"] = some (.file archive 0) ∧
        w.disk.node? ["b.jar"] = some (.file archive 0) ∧
        ¬ w.disk.isDir ⟨"/cache"⟩ ∧ merged.1.isDir ⟨"/cache"⟩ ∧ (heldBy v.scopes).isEmpty) ∧
      (v.disk.isDir v.root.normal ∧ c.recordPath v.disk v.root = recordFilePath ∧
        (v.disk.lock lock).1.lstat? recordFilePath = none ∧ merged.2 = none) ∧
      (v.resolvedKey ⟨"/ws/app"⟩ ∈ v.scopes ∧
        (Resolver.resolve v.resolver v.disk (v.disk.normalize ⟨"/ws/app"⟩)).2.toOption =
          some { entries := archives }) ∧
      ((merged.1.normalize (merged.1.normalize ⟨"/ws/lib"⟩)).components ∈ v.scopes ∧
        ((v.disk.lock lock).1.normalize (v.disk.normalize ⟨"/ws/app"⟩)).text ≠
          (merged.1.normalize (merged.1.normalize ⟨"/ws/lib"⟩)).text ∧
        (Resolver.resolve (Resolver.resolve v.resolver v.disk (v.disk.normalize ⟨"/ws/app"⟩)).1
          merged.1 (merged.1.normalize ⟨"/ws/lib"⟩)).2.toOption =
            some { entries := archives })) = true := by
    decide +kernel
  obtain ⟨w, hstart, hany⟩ := (Option.any_eq_true _ _).mp hruns
  obtain ⟨c, hcache, hfacts⟩ := (Option.any_eq_true _ _).mp hany
  obtain ⟨⟨ha, hb, hbefore, hafter, hnothing⟩, ⟨hroot, hpath, hfree, hdone⟩, ⟨hmem, hanswer⟩,
    hmem', hapart, hanswer'⟩ := of_decide_eq_true hfacts
  have hmerge := ClasspathCache.runMerge_eq_mergeAt hroot hpath (mergeOfApp w.discover.1)
  have htracks : c.Tracks w.discover.1.root w.discover.1.disk none := by
    refine ClasspathCache.tracks_start hroot ?_
    rw [ClasspathCache.lockPath, hpath]
    exact hfree
  have hanew : w.discover.1.ResolvesAnew c ⟨"/ws/app"⟩ { entries := archives } := by
    have hasked := resolveClasspath_of_storedClasspath?_eq_none hmem
      (storedClasspath?_of_load?_eq_none hcache htracks.loaded _) (eq_ok_of_toOption hanswer)
    rw [← hmerge, ClasspathCache.runMerge] at hdone
    exact ⟨hasked, eq_ok_of_toOption hanswer, hdone⟩
  have hcall := hanew.runMerge_eq hcache
  have hfirst : firstResolved w = (w.discover.1.resolveClasspath ⟨"/ws/app"⟩).1 := rfl
  have hdisk : (w.discover.1.resolveClasspath ⟨"/ws/app"⟩).1.disk =
      (c.mergeAt w.discover.1.disk recordFilePath (mergeOfApp w.discover.1)).1 := by
    rw [← hmerge, mergeOfApp, hcall]
  obtain ⟨hroot', hcache', -⟩ := w.discover.1.resolveClasspath_store ⟨"/ws/app"⟩
  have hload := (htracks.merge hcall).loaded
  rw [ClasspathCache.lockPath, hpath, ← hroot'] at hload
  have hempty : heldBy w.discover.1.scopes = [] := List.isEmpty_iff.mp hnothing
  have hopened := eq_ok_of_toOption hstart
  refine ⟨w, c, hopened, ha, hb, ⟨hbefore, ?_⟩, hempty, hanew, ?_, ?_, ?_⟩
  · rw [hfirst, hdisk]
    exact hafter
  · rw [hfirst, resolvedKey, keyOf, hdisk]
    exact (w.discover.1.sameTerritories_resolveClasspath ⟨"/ws/app"⟩).mem_scopes hmem'
  · rw [hfirst]
    refine storedClasspath?_of_project?_eq_none (hcache'.trans hcache) hload ?_
    rw [ClasspathRecord.project?, ClasspathCache.projects_merged, hdisk,
      Std.ExtTreeMap.getElem?_insert, if_neg]
    · rfl
    · rw [Std.LawfulEqCmp.compare_eq_iff_eq]
      exact hapart
  · rw [hfirst, hanew.resolver_eq, hdisk]
    exact eq_ok_of_toOption hanswer'

theorem respectsOrder_performAll_iff_again :
    ∃ w, archiveStart = .ok w ∧
      (¬ w.disk.isDir ⟨"/cache"⟩ ∧ (firstResolved w).disk.isDir ⟨"/cache"⟩) ∧
      (∀ d, w.Reaches d → ∀ e, (firstResolved w).Concerns ⟨"/ws/lib"⟩ e →
        ∀ name, e.has d name = e.has w.disk name) ∧
      ((firstResolved w).resolveClasspath ⟨"/ws/lib"⟩).2 = .ok false ∧
      (firstResolved w).SharesOrder ⟨"/ws/lib"⟩ ∧ (firstResolved w).RespectsOrder ⟨"/ws/lib"⟩ := by
  obtain ⟨w, c, hstart, ha, hb, hcache, hnothing, hanew, hmem, hunstored, hanswer⟩ :=
    resolves_archives
  have hown : (firstResolved w).ownClasspath ⟨"/ws/lib"⟩ = .ok { entries := archives } := by
    rw [ownClasspath, hunstored, hanswer]
  have hheld : ∀ handle ∈ heldBy (firstResolved w).scopes,
      handle.snapshot.value.entries = archives := by
    intro handle hhandle
    have haccounted : w.discover.1.Accounted fun _ => True :=
      (accounted_openAt hstart trivial fun _ _ _ _ _ _ _ => trivial).steps (w.steps_findProjects true)
    rcases haccounted.entries_resolveClasspath ⟨"/ws/app"⟩ hhandle with hbefore | ⟨own, hfirst, heq⟩
    · rw [hnothing] at hbefore
      exact absurd hbefore List.not_mem_nil
    · cases hfirst.symm.trans hanew.ownClasspath_eq
      exact heq
  have halike : ∀ d, w.Reaches d → ∀ e, (firstResolved w).Concerns ⟨"/ws/lib"⟩ e →
      ∀ name, e.has d name = e.has w.disk name := by
    intro d hd e he name
    have hmem : e ∈ archives := by
      rcases he with ⟨own, hresolved, he⟩ | ⟨handle, hhandle, he⟩
      · cases hresolved.symm.trans hown
        exact he
      · exact hheld handle hhandle ▸ he
    have ha' : d.node? ([] ++ ["a.jar"]) = some (.file archive 0) := hd.node? (by decide) ha
    have hb' : d.node? ([] ++ ["b.jar"]) = some (.file archive 0) := hd.node? (by decide) hb
    rw [has_archive ha hb hmem, has_archive ha' hb' hmem]
  have hshares : (firstResolved w).SharesOrder ⟨"/ws/lib"⟩ := by
    intro own hregistered hresolved handle hhandle hkey name
    cases hresolved.symm.trans hown
    rw [hheld handle hhandle]
  exact ⟨w, hstart, hcache, halike,
    resolveClasspath_of_storedClasspath?_eq_none hmem hunstored hanswer, hshares,
    (respectsOrder_performAll_iff hstart _ (by simp) _ halike).mpr hshares⟩

/-! The two projects of `sharingStart`: the classpath of the second one has the directories in the
other order. -/

theorem not_respectsOrder_second :
    ∃ w, sharingStart = .ok w ∧ ¬ (firstResolved w).RespectsOrder ⟨"/ws/lib"⟩ := by
  have hruns : (sharingStart.toOption.any fun w =>
      ((firstResolved w).resolveClasspath ⟨"/ws/lib"⟩).2.toOption = some false ∧
      ((firstResolved w).ownClasspath ⟨"/ws/lib"⟩).toOption =
        some { entries := classDirs.reverse } ∧
      ((firstResolved w).resolveClasspath ⟨"/ws/lib"⟩).1.scopes[(firstResolved w).resolvedKey
          ⟨"/ws/lib"⟩]?.any fun s => s.classpath.any fun handle =>
        handle.snapshot.value.lookup? "X" = some ⟨0, "X.class"⟩ ∧
        handle.snapshot.value.entries[0]? ≠
          classDirs.reverse.find? (ClasspathEntry.has (firstResolved w).disk "X")) = true := by
    decide +kernel
  obtain ⟨w, hstart, hok, hown, hscope⟩ := exists_opened hruns
  refine ⟨w, hstart, fun hrespects => ?_⟩
  generalize firstResolved w = w' at hok hown hscope hrespects
  obtain ⟨own, s, handle, hown', hs, hhandle, -, hindex⟩ :=
    hrespects false (eq_ok_of_toOption hok)
  cases hown'.symm.trans (eq_ok_of_toOption hown)
  rw [hs, Option.any_some, hhandle, Option.any_some, decide_eq_true_eq] at hscope
  obtain ⟨hlookup, hdiffers⟩ := hscope
  exact hdiffers (hindex.getElem?_entry "X" ⟨0, "X.class"⟩ hlookup)

end Workbench.Workspace
