import Workbench.Proofs.Classpath.History
import Workbench.Proofs.Classpath.Keeping
import Workbench.Proofs.Workspace.Roots

/-!
Resolving a project that was resolved before. The classpath that the resolver found out is stored,
and resolving other projects leaves it stored. So as long as the disk stays as it is otherwise, the
project gets the same classpath again without the resolver, in the same workspace or in another one
that stores in the same place.
-/

namespace Workbench.Workspace

variable {κ ρ : Type} {w w' w'' w₁ : Workspace κ ρ} {p q : Path} {c c' : ClasspathCache}
  {resolved : ResolvedClasspath} {base : Disk} {place : Place} {name : String}
  {stored : ProjectRecord}

/-! ### Where classpaths are stored -/

/-- Two workspaces on one disk store the classpaths of one root in the same directory, with the
stamps of the same build files. -/
structure SharesStore (w w' : Workspace κ ρ) : Prop where
  disk_eq : w'.disk = w.disk
  root_eq : w.disk.normalize w'.root = w.disk.normalize w.root
  cache : ∃ c c', w.cache = some c ∧ w'.cache = some c' ∧ c'.dir = c.dir ∧
    c'.buildFileNames = c.buildFileNames

/-- The stored classpaths of a workspace have the given for a project. -/
def Stores (w : Workspace κ ρ) (buildFileNames : List String) (base : Disk) (place : Place)
    (name : String) (p : Path) (stored : ProjectRecord) : Prop :=
  ∃ c, w.cache = some c ∧ c.buildFileNames = buildFileNames ∧
    c.Keeps w.disk w.root base place name p stored

theorem Stores.of_sharesStore {names : List String} (h : w.Stores names base place name p stored)
    (hshares : w.SharesStore w') : w'.Stores names base place name p stored := by
  obtain ⟨c, hcache, hnames, hkeeps⟩ := h
  obtain ⟨c₀, c', hcache₀, hcache', hdir, hsame⟩ := hshares.cache
  cases hcache.symm.trans hcache₀
  refine ⟨c', hcache', hsame.trans hnames, ?_⟩
  rw [hshares.disk_eq]
  exact hkeeps.of_sameRecord hdir hshares.root_eq

/-- Installing a classpath changes neither the disk nor the place of the stored classpaths. -/
theorem installClasspath_keeps (w : Workspace κ ρ) (key : List Component) (project : Path)
    (s : Scope) (resolved : ResolvedClasspath) (fromCache : Bool) :
    let installed := w.installClasspath key project s resolved fromCache
    installed.disk = w.disk ∧ installed.root = w.root ∧ installed.cache = w.cache ∧
      installed.resolver = w.resolver := by
  obtain ⟨log, events, hinstalled⟩ := w.installClasspath_spec key project s resolved fromCache
  rw [hinstalled]
  exact ⟨rfl, rfl, rfl, rfl⟩

theorem disk_storeClasspath (hcache : w.cache = some c) (project : Path)
    (resolved : ResolvedClasspath) : (w.storeClasspath project resolved).disk =
      (c.runMerge w.disk w.root ⟨project, resolved, some w.projects⟩).1 := by
  rw [ClasspathCache.runMerge]
  simp only [storeClasspath, hcache]
  generalize c.mergeProject w.disk w.root project resolved (some w.projects) = outcome
  obtain ⟨disk, failure⟩ := outcome
  rfl

theorem disk_storeClasspath_none (hcache : w.cache = none) (project : Path)
    (resolved : ResolvedClasspath) : (w.storeClasspath project resolved).disk = w.disk := by
  simp only [storeClasspath, hcache]

variable [Resolver ρ]

/-- Resolving a classpath changes the disk only by storing it. -/
theorem resolveClasspath_store (w : Workspace κ ρ) (q : Path) :
    (w.resolveClasspath q).1.root = w.root ∧ (w.resolveClasspath q).1.cache = w.cache ∧
      ((w.resolveClasspath q).1.disk = w.disk ∨
        ∃ c resolved, w.cache = some c ∧ (w.resolveClasspath q).1.disk =
          (c.runMerge w.disk w.root ⟨w.disk.normalize q, resolved, some w.projects⟩).1) := by
  have hresolution := w.resolution q
  generalize w.resolveClasspath q = result at *
  cases hresolution with
  | unknown => exact ⟨rfl, rfl, .inl rfl⟩
  | failed => exact ⟨rfl, rfl, .inl rfl⟩
  | @stored s own =>
      obtain ⟨hdisk, hroot, hcache, -⟩ :=
        w.installClasspath_keeps (w.resolvedKey q) (w.disk.normalize q) s own true
      exact ⟨hroot, hcache, .inl hdisk⟩
  | @anew s resolver own =>
      obtain ⟨hdisk, hroot, hcache, -⟩ := installClasspath_keeps
        (({ w with resolver } : Workspace κ ρ).storeClasspath (w.disk.normalize q) own)
        (w.resolvedKey q) (w.disk.normalize q) s own false
      obtain ⟨disk, log, heq⟩ := ({ w with resolver } : Workspace κ ρ).storeClasspath_spec
        (w.disk.normalize q) own
      refine ⟨hroot.trans (by rw [heq]), hcache.trans (by rw [heq]), ?_⟩
      dsimp only
      rw [hdisk]
      rcases Option.eq_none_or_eq_some w.cache with hplace | ⟨c, hplace⟩
      · exact .inl (disk_storeClasspath_none (w := { w with resolver }) hplace _ _)
      · exact .inr ⟨c, own, hplace, disk_storeClasspath (w := { w with resolver }) hplace _ _⟩

/-! ### Other projects -/

/-- What a workspace can be followed by: other projects are resolved, and work goes on in workspaces
that store in the same place. -/
inductive Later (p : Path) (w : Workspace κ ρ) : Workspace κ ρ → Prop where
  | here : Later p w w
  | resolve {w' : Workspace κ ρ} (h : Later p w w') (other : Path)
      (hother : w'.resolvedKey other ≠ p.components) : Later p w (w'.resolveClasspath other).1
  | reopen {w' w'' : Workspace κ ρ} (h : Later p w w') (hshares : w'.SharesStore w'') :
      Later p w w''

theorem Stores.resolveClasspath {names : List String}
    (h : w.Stores names base place name p stored) {other : Path}
    (hother : w.resolvedKey other ≠ p.components) :
    (w.resolveClasspath other).1.Stores names base place name p stored := by
  obtain ⟨c, hcache, hnames, hkeeps⟩ := h
  obtain ⟨hroot, hsame, hdisk⟩ := w.resolveClasspath_store other
  refine ⟨c, hsame.trans hcache, hnames, ?_⟩
  rw [hroot]
  rcases hdisk with hdisk | ⟨c', resolved, hcache', hdisk⟩
  · rw [hdisk]
    exact hkeeps
  · cases hcache.symm.trans hcache'
    rw [hdisk]
    exact hkeeps.merge fun heq => hother (congrArg Path.components heq)

theorem Stores.later {names : List String} (h : w.Stores names base place name p stored)
    (hlater : Later p w w') : w'.Stores names base place name p stored := by
  induction hlater with
  | here => exact h
  | resolve _ other hother ih => exact ih.resolveClasspath hother
  | reopen _ hshares ih => exact ih.of_sharesStore hshares

/-! ### The same project again -/

/-- A workspace that has a cache can store the classpath of a project there and find it again on
another disk. -/
structure HasStore (w : Workspace κ ρ) (c : ClasspathCache) (p : Path) (d : Disk) : Prop where
  cache_eq : w.cache = some c
  findable : c.Findable w.disk w.root p d

/-- The classpath of a project is found out by the resolver, and its answer is written. -/
structure ResolvesAnew (w : Workspace κ ρ) (c : ClasspathCache) (q : Path)
    (resolved : ResolvedClasspath) : Prop where
  asked : (w.resolveClasspath q).2 = .ok false
  answer : (Resolver.resolve w.resolver w.disk (w.disk.normalize q)).2 = .ok resolved
  written : (c.mergeProject w.disk w.root (w.disk.normalize q) resolved (some w.projects)).2 = none

/-- The classpath of a project is taken from the store and installed; the resolver is not asked. -/
structure TakesStored (w : Workspace κ ρ) (q : Path) (own : ResolvedClasspath) : Prop where
  answer : (w.resolveClasspath q).2 = .ok true
  resolver_eq : (w.resolveClasspath q).1.resolver = w.resolver
  installed : ∃ s, w.scopes[w.resolvedKey q]? = some s ∧ (w.resolveClasspath q).1 =
    w.installClasspath (w.resolvedKey q) (w.disk.normalize q) s own true

theorem takesStored_of_storedClasspath? {own : ResolvedClasspath}
    (hmem : w.resolvedKey q ∈ w.scopes)
    (hstored : w.storedClasspath? (w.disk.normalize q) = some own) : w.TakesStored q own := by
  obtain ⟨s, hs⟩ := Option.isSome_iff_exists.mp (Std.ExtTreeMap.mem_iff_isSome_getElem?.mp hmem)
  have hresolved : w.resolveClasspath q =
      (w.installClasspath (w.resolvedKey q) (w.disk.normalize q) s own true, .ok true) := by
    rw [resolvedKey] at hs ⊢
    simp only [resolveClasspath, hs, hstored]
  obtain ⟨-, -, -, hresolver⟩ :=
    w.installClasspath_keeps (w.resolvedKey q) (w.disk.normalize q) s own true
  refine ⟨?_, ?_, s, hs, ?_⟩
  · rw [hresolved]
  · rw [hresolved]
    exact hresolver
  · rw [hresolved]

/-- The workspace once its resolver has been asked for a project. -/
def asked (w : Workspace κ ρ) (q : Path) : Workspace κ ρ :=
  { w with resolver := (Resolver.resolve w.resolver w.disk (w.disk.normalize q)).1 }

/-- A classpath that is resolved anew is stored and then installed. -/
theorem ResolvesAnew.exists_installed (h : w.ResolvesAnew c q resolved) :
    ∃ s, (w.resolveClasspath q).1 =
      ((w.asked q).storeClasspath (w.disk.normalize q) resolved).installClasspath
        (w.resolvedKey q) (w.disk.normalize q) s resolved false := by
  unfold Workspace.asked
  have hresolution := w.resolution q
  have hasked := h.asked
  have hanswer := h.answer
  generalize w.resolveClasspath q = result at *
  cases hresolution with
  | unknown => contradiction
  | failed => contradiction
  | stored => cases hasked
  | @anew s resolver own _ _ hown =>
      rw [hown] at hanswer ⊢
      cases hanswer
      exact ⟨s, rfl⟩

omit [Resolver ρ] in
theorem storedClasspath?_of_load?_eq_none (hcache : w.cache = some c)
    (hnone : c.load? w.disk w.root = none) (project : Path) :
    w.storedClasspath? project = none := by
  simp [storedClasspath?, hcache, hnone]

omit [Resolver ρ] in
/-- A record that does not have the project is of no use. -/
theorem storedClasspath?_of_project?_eq_none {record : ClasspathRecord} {project : Path}
    (hcache : w.cache = some c) (hloaded : c.load? w.disk w.root = some record)
    (hnone : record.project? (w.disk.normalize project) = none) :
    w.storedClasspath? project = none := by
  simp [storedClasspath?, hcache, hloaded, ClasspathCache.isValid, hnone]

/-- A registered project with nothing stored gets what the resolver answers. -/
theorem resolveClasspath_of_storedClasspath?_eq_none (hregistered : w.resolvedKey q ∈ w.scopes)
    (hnone : w.storedClasspath? (w.disk.normalize q) = none)
    (hanswer : (Resolver.resolve w.resolver w.disk (w.disk.normalize q)).2 = .ok resolved) :
    (w.resolveClasspath q).2 = .ok false := by
  have hresolution := w.resolution q
  generalize w.resolveClasspath q = result at *
  cases hresolution with
  | unknown hunknown =>
      rw [Std.ExtTreeMap.mem_iff_isSome_getElem?, hunknown] at hregistered
      exact absurd hregistered Bool.false_ne_true
  | stored _ hstored => cases hnone.symm.trans hstored
  | failed _ _ hfailed =>
      rw [hfailed] at hanswer
      cases hanswer
  | anew => rfl

theorem ResolvesAnew.runMerge_eq (h : w.ResolvesAnew c q resolved) (hcache : w.cache = some c) :
    c.runMerge w.disk w.root ⟨w.disk.normalize q, resolved, some w.projects⟩ =
      ((w.resolveClasspath q).1.disk, none) := by
  obtain ⟨s, hinstalled⟩ := h.exists_installed
  have hdisk : (w.resolveClasspath q).1.disk =
      (c.runMerge w.disk w.root ⟨w.disk.normalize q, resolved, some w.projects⟩).1 := by
    rw [hinstalled]
    exact (installClasspath_keeps _ _ _ _ _ _).1.trans
      (disk_storeClasspath (w := w.asked q) hcache _ _)
  rw [hdisk]
  exact ClasspathCache.eq_mk_of_done h.written

theorem ResolvesAnew.resolver_eq (h : w.ResolvesAnew c q resolved) :
    (w.resolveClasspath q).1.resolver =
      (Resolver.resolve w.resolver w.disk (w.disk.normalize q)).1 := by
  obtain ⟨s, hinstalled⟩ := h.exists_installed
  obtain ⟨disk, log, hstored⟩ := (w.asked q).storeClasspath_spec (w.disk.normalize q) resolved
  rw [hinstalled, (installClasspath_keeps _ _ _ _ _ _).2.2.2, hstored, Workspace.asked]

/-- An answer of the resolver that was written is stored. -/
theorem ResolvesAnew.stores (h : w.ResolvesAnew c q resolved)
    (hstore : w.HasStore c (w.disk.normalize q) (w.resolveClasspath q).1.disk)
    (hself : (w.resolveClasspath q).1.disk.normalize (w.disk.normalize q) = w.disk.normalize q) :
    ∃ base place name, (w.resolveClasspath q).1.Stores c.buildFileNames base place name
      (w.disk.normalize q) ⟨base.projectStamps (w.disk.normalize q) c.buildFileNames,
        resolved.entries, resolved.runtimeVersion⟩ := by
  obtain ⟨hroot, hcache, -⟩ := w.resolveClasspath_store q
  obtain ⟨base, place, name, hkeeps⟩ :=
    ClasspathCache.exists_keeps hstore.findable (h.runMerge_eq hstore.cache_eq) hself
  refine ⟨base, place, name, c, hcache.trans hstore.cache_eq, rfl, ?_⟩
  rw [hroot]
  exact hkeeps

/-- A classpath that was resolved anew is taken from the store later, whatever other projects are
resolved between, for any sample of its entries. When it was stored, the path of the project was
normal still, its build files were others than the record, and its entries were there; nothing else
changes on the disk. -/
theorem ResolvesAnew.takesStored_later {q' : Path} (h : w.ResolvesAnew c q resolved)
    (hp : w.disk.normalize q = p) (hlast : (w.resolveClasspath q).1 = w₁)
    (hstore : w.HasStore c p w₁.disk) (hself : w₁.disk.normalize p = p)
    (hapart : ∀ file ∈ c.buildFileNames,
      w₁.disk.look (p.child file) ≠ w₁.disk.look (c.recordPath w₁.disk w₁.root))
    (hexist : ∀ e ∈ resolved.entries, e.existsOn w₁.disk)
    (hlater : Later p w₁ w') (hcache : w'.cache = some c')
    (hsample : ∀ size entries, c'.sample size entries ⊆ entries)
    (hregistered : p.components ∈ w'.scopes) (hnamed : w₁.disk.normalize q' = p) :
    w'.TakesStored q' resolved := by
  subst hp hlast
  obtain ⟨base, place, name, hstores⟩ := h.stores hstore hself
  obtain ⟨c₂, hcache₂, hnames, hkeeps⟩ := hstores.later hlater
  obtain ⟨c₁, hcache₁, -, hkeeps₁⟩ := hstores
  cases hcache.symm.trans hcache₂
  cases hcache₁.symm.trans ((w.resolveClasspath_store q).2.1.trans hstore.cache_eq)
  have hself' := (hkeeps₁.normalize_eq hkeeps (w.disk.normalize q)).trans hself
  have hnamed' := (hkeeps₁.normalize_eq hkeeps q').trans hnamed
  obtain ⟨record, hloaded, hproject⟩ := hkeeps.exists_load?
  have hvalid : c'.isValid w'.disk record (w.disk.normalize q) := by
    refine hkeeps.isValid hproject hself' (by rw [hnames]) (fun file hfile => ?_) fun e he => ?_
    · exact hkeeps₁.look_ne hkeeps (hapart file (hnames ▸ hfile))
    · exact hkeeps₁.existsOn hkeeps (hexist e (hsample _ _ he))
  refine takesStored_of_storedClasspath? ?_ ?_
  · rw [resolvedKey, keyOf, hnamed', hself']
    exact hregistered
  · rw [hnamed', storedClasspath?, hcache]
    simp only [Option.bind_eq_bind, Option.bind_some, hloaded, hvalid, if_true, hproject,
      Option.map_some]
    rfl

/-! Two projects are resolved, and then the first one again in a new session. At first a link stands
where the record is written. -/

def answered : ResolvedClasspath := ⟨[⟨.jar, ⟨"/b.jar"⟩⟩, ⟨.classDir, ⟨"/a"⟩⟩], some "4.0"⟩

def recordFile : String := "classpath-0c65a812b078db67.json"

def recordFilePath : Path := ⟨"/cache/classpath-0c65a812b078db67.json"⟩

def linkedDisk : Disk where
  nodes := .ofList [(["ws"], .dir), (["ws", "app"], .dir), (["ws", "lib"], .dir),
    (["ws", "app", "build.gradle"], .file ⟨[]⟩ 0), (["ws", "lib", "build.gradle"], .file ⟨[]⟩ 0),
    (["a"], .dir), (["b.jar"], .file ⟨[]⟩ 0), (["cache"], .dir),
    (["cache", recordFile], .link "/record.json")] Place.order
  cwd := []

def storingStart : Except OpenError (Workspace Toy.CompilerState Toy.ResolverState) :=
  openAt linkedDisk {}
    { classpath := { buildFileNames := ["build.gradle"], cacheDir := some ⟨"/cache"⟩ } } {}
    { fallback := answered } ⟨"/ws"⟩

def resolvedApp (w : Workspace Toy.CompilerState Toy.ResolverState) :
    Workspace Toy.CompilerState Toy.ResolverState :=
  (w.discover.1.resolveClasspath ⟨"/ws/app"⟩).1

def resolvedBoth (w : Workspace Toy.CompilerState Toy.ResolverState) :
    Workspace Toy.CompilerState Toy.ResolverState :=
  ((resolvedApp w).resolveClasspath ⟨"/ws/lib"⟩).1

/-- A new session with a resolver that knows nothing, which looks for all entries. -/
def newSession (w : Workspace Toy.CompilerState Toy.ResolverState) (c : ClasspathCache) :
    Workspace Toy.CompilerState Toy.ResolverState :=
  { w with
    resolver := {}
    snapshots := ∅
    cache := some { c with sampleSize := 9, sample := fun _ entries => entries.reverse } }

/-- The outcome of storing the classpath of the first project. -/
def storedApp (w : Workspace Toy.CompilerState Toy.ResolverState) (c : ClasspathCache) :
    Disk × Option CacheError :=
  c.mergeAt w.disk recordFilePath ⟨w.disk.normalize ⟨"/ws/app"⟩, answered, some w.projects⟩

def heldApp (w : Workspace Toy.CompilerState Toy.ResolverState) : Disk :=
  (w.disk.lock ⟨recordFilePath.text ++ ".lock"⟩).1

theorem takesStored_later_newSession :
    ∃ w c, storingStart = .ok w ∧
      w.discover.1.disk.lstat? (c.recordPath w.discover.1.disk w.discover.1.root) =
        some (.link "/record.json") ∧
      w.discover.1.HasStore c ⟨"/ws/app"⟩ (resolvedApp w).disk ∧
      w.discover.1.ResolvesAnew c ⟨"/ws/app"⟩ answered ∧
      Later ⟨"/ws/app"⟩ (resolvedApp w) (newSession (resolvedBoth w) c) ∧
      (newSession (resolvedBoth w) c).TakesStored ⟨"/ws/app"⟩ answered := by
  have hruns : (storingStart.toOption.any fun w => w.discover.1.cache.any fun c =>
      let v := w.discover.1
      let d := (storedApp v c).1
      ((v.disk.isDir v.root.normal ∧ c.recordPath v.disk v.root = recordFilePath ∧
          v.disk.bytes? recordFilePath = none ∧
          v.disk.lstat? recordFilePath = some (.link "/record.json")) ∧
        v.disk.normalize ⟨"/ws/app"⟩ = ⟨"/ws/app"⟩ ∧
        v.resolvedKey ⟨"/ws/app"⟩ ∈ v.scopes ∧
        (Resolver.resolve v.resolver v.disk (v.disk.normalize ⟨"/ws/app"⟩)).2.toOption =
          some answered ∧
        (storedApp v c).2 = none) ∧
      (∀ d' ∈ [heldApp v, d], d'.normalize v.root = v.disk.normalize v.root ∧
        d'.normalize ⟨"/ws/app"⟩ = ⟨"/ws/app"⟩) ∧
      ((heldApp v).entry recordFilePath).toOption = some (["cache"], recordFile) ∧
      (((heldApp v).drop ["cache", recordFile]).entry recordFilePath).toOption =
        some (["cache"], recordFile) ∧
      (d.file? ⟨recordFilePath.text ++ ".lock"⟩).isSome ∧
      (∀ file ∈ c.buildFileNames,
        d.file? ((Path.mk "/ws/app").child file) =
            (heldApp v).file? ((Path.mk "/ws/app").child file) ∧
          d.look ((Path.mk "/ws/app").child file) ≠ d.look recordFilePath) ∧
      (∀ e ∈ answered.entries, e.existsOn d) ∧
      (d.normalize (d.normalize ⟨"/ws/lib"⟩)).components ≠ (Path.mk "/ws/app").components) =
        true := by
    decide +kernel
  obtain ⟨w, hstart, hany⟩ := (Option.any_eq_true _ _).mp hruns
  obtain ⟨c, hcache, hfacts⟩ := (Option.any_eq_true _ _).mp hany
  obtain ⟨⟨⟨hroot, hpath, hnone, hlink⟩, hp, hmem, hanswer, hdone⟩, hplaces, hentry, hbare, hlock,
    hfiles, hexist, hother⟩ := of_decide_eq_true hfacts
  have hmerge := ClasspathCache.runMerge_eq_mergeAt hroot hpath
    ⟨w.discover.1.disk.normalize ⟨"/ws/app"⟩, answered, some w.discover.1.projects⟩
  have hanew : w.discover.1.ResolvesAnew c ⟨"/ws/app"⟩ answered := by
    have hload : c.load? w.discover.1.disk w.discover.1.root = none := by
      rw [ClasspathCache.load?, hpath, hnone, Option.bind_none]
    have hasked := resolveClasspath_of_storedClasspath?_eq_none hmem
      (storedClasspath?_of_load?_eq_none hcache hload _) (eq_ok_of_toOption hanswer)
    rw [storedApp, ← hmerge, ClasspathCache.runMerge] at hdone
    exact ⟨hasked, eq_ok_of_toOption hanswer, hdone⟩
  have hdisk : (resolvedApp w).disk = (storedApp w.discover.1 c).1 := by
    rw [storedApp, ← hmerge, hanew.runMerge_eq hcache, resolvedApp]
  have hroot' : (resolvedApp w).root = w.discover.1.root :=
    (w.discover.1.resolveClasspath_store ⟨"/ws/app"⟩).1
  have hlockPath : c.lockPath w.discover.1.disk w.discover.1.root =
      ⟨recordFilePath.text ++ ".lock"⟩ := by
    rw [ClasspathCache.lockPath, hpath]
  have hpath' {d : Disk} (hd : d ∈ [heldApp w.discover.1, (storedApp w.discover.1 c).1]) :
      c.recordPath d w.discover.1.root = recordFilePath :=
    (ClasspathCache.recordPath_congr (hplaces d hd).1).trans hpath
  have hself : (resolvedApp w).disk.normalize ⟨"/ws/app"⟩ = ⟨"/ws/app"⟩ := by
    rw [hdisk]
    exact (hplaces _ (by simp)).2
  have hstore : w.discover.1.HasStore c ⟨"/ws/app"⟩ (resolvedApp w).disk := by
    refine ⟨hcache, ?_⟩
    constructor
    case held =>
      rw [hlockPath, hpath]
      exact hpath' (by simp [heldApp])
    case after =>
      rw [hdisk, hpath]
      exact hpath' (by simp)
    case way =>
      rw [hlockPath, hpath]
      exact Disk.not_goesThroughEntry_of_drop (eq_ok_of_toOption hentry) (eq_ok_of_toOption hbare)
    case replaced =>
      intro _ _
      rw [hlockPath, hdisk]
      exact ⟨Disk.hasFile_iff.mpr hlock, (hplaces _ (by simp [heldApp])).2,
        fun file hfile => (hfiles file hfile).1⟩
  have hapart : ∀ file ∈ c.buildFileNames,
      (resolvedApp w).disk.look ((Path.mk "/ws/app").child file) ≠
        (resolvedApp w).disk.look (c.recordPath (resolvedApp w).disk (resolvedApp w).root) := by
    rw [hroot', hdisk, hpath' (by simp)]
    exact fun file hfile => (hfiles file hfile).2
  have hexist' : ∀ e ∈ answered.entries, e.existsOn (resolvedApp w).disk := by
    rw [hdisk]
    exact hexist
  have hkept : (resolvedBoth w).cache = some c :=
    ((resolvedApp w).resolveClasspath_store ⟨"/ws/lib"⟩).2.1.trans
      ((w.discover.1.resolveClasspath_store ⟨"/ws/app"⟩).2.1.trans hcache)
  have hother' : (resolvedApp w).resolvedKey ⟨"/ws/lib"⟩ ≠ (Path.mk "/ws/app").components := by
    rw [resolvedKey, keyOf, hdisk]
    exact hother
  have hlater : Later ⟨"/ws/app"⟩ (resolvedApp w) (newSession (resolvedBoth w) c) :=
    (Later.here.resolve ⟨"/ws/lib"⟩ hother').reopen ⟨rfl, rfl, c, _, hkept, rfl, rfl, rfl⟩
  have hregistered : (Path.mk "/ws/app").components ∈ (newSession (resolvedBoth w) c).scopes := by
    rw [resolvedKey, keyOf, hp, hp] at hmem
    exact ((w.discover.1.sameTerritories_resolveClasspath ⟨"/ws/app"⟩).trans
      ((resolvedApp w).sameTerritories_resolveClasspath ⟨"/ws/lib"⟩)).mem_scopes hmem
  exact ⟨w, c, eq_ok_of_toOption hstart, hpath ▸ hlink, hstore, hanew, hlater,
    hanew.takesStored_later hp rfl hstore hself hapart hexist' hlater rfl
      (fun size entries => List.reverse_subset.mpr (List.Subset.refl _)) hregistered hself⟩

end Workbench.Workspace
