import Workbench.Proofs.Disk.Ancestors
import Workbench.Proofs.Disk.Walk
import Workbench.Scope.Admission

/-!
Which sources a full compile takes. In a file tree a walk from a normal root meets every regular
file below it once, but for those in directories that are passed over, and in the order of their
paths. If there are too many, the first are taken in the order that puts the directories of open
sources in front. The open sources come on top, also those that the walk does not meet.
-/

namespace Workbench

/-! ### Directories of paths -/

namespace Path

variable {p q : Path}

theorem components_dropLast (p : Path) :
    (ofComponents p.components.dropLast).components = p.components.dropLast := by
  obtain ⟨cs, hcs, hcases⟩ := p.components_eq
  have hinit : ∀ c ∈ cs.dropLast, IsInner c := fun c hc => hcs c (List.dropLast_subset cs hc)
  rcases List.eq_nil_or_concat cs with rfl | ⟨init, last, rfl⟩
  · rcases hcases with ⟨heq, -⟩ | ⟨heq | heq, -⟩ <;> rw [heq] <;> decide
  · rw [List.concat_eq_append, List.dropLast_concat] at hinit
    rw [List.concat_eq_append] at hcases
    rcases hcases with ⟨heq, -⟩ | ⟨heq | heq, -⟩ <;> rw [heq]
    · rw [← List.cons_append, List.dropLast_concat, components_root hinit]
    · rw [← List.cons_append, List.dropLast_concat, components_current hinit]
    · rw [List.dropLast_concat, components_inner hinit]

/-- A path that ends in a name has a parent. -/
theorem parent?_of_fileName? {name : String} (h : p.fileName? = some name) :
    p.parent? = some (ofComponents p.components.dropLast) := by
  obtain ⟨c, hlast, hname⟩ := Option.bind_eq_some_iff.mp h
  rw [parent?, hlast]
  cases c <;> first | rfl | contradiction

end Path

namespace CompileConfig

theorem fileName?_of_isSourceFile {c : CompileConfig} {p : Path} (h : c.isSourceFile p) :
    ∃ name, p.fileName? = some name := by
  cases hextension : p.extension? with
  | none => simp [isSourceFile, hextension] at h
  | some extension =>
      obtain ⟨name, hname, -⟩ := Option.bind_eq_some_iff.mp hextension
      exact ⟨name, hname⟩

end CompileConfig

/-! ### Regular files -/

/-- Directories that a walk through sources does not enter: hidden ones and those that build tools
write. -/
def IsPassedOver (name : String) : Prop := name.toList.head? = some '.' ∨ name ∈ outputDirs

theorem entersDir_iff {name : String} : entersDir name ↔ ¬ IsPassedOver name := by
  simp [entersDir, IsPassedOver]

namespace Disk

variable {d : Disk} {root p : Path}

/-- A regular file at or below a path, outside of directories that are passed over. The path may go
over links, but it is none. -/
def IsRegularFile (d : Disk) (root p : Path) : Prop :=
  ∃ top way content modified, d.resolve root = .ok top ∧
    d.node? (top ++ way) = some (.file content modified) ∧ p = root.below way ∧
    (∀ dir ∈ way.dropLast, ¬ IsPassedOver dir) ∧
    (way = [] → ∀ target, d.lstat? root ≠ some (.link target))

theorem of_filePath {node : Node} {q : Path}
    (h : (match node with
      | .file _ _ => some q
      | _ => none) = some p) :
    ∃ content modified, node = .file content modified ∧ p = q := by
  cases node with
  | file content modified => exact ⟨content, modified, rfl, (Option.some.inj h).symm⟩
  | dir => contradiction
  | link target => contradiction

section Below

variable {top : Place} (htree : d.IsTree) (hself : d.normalize root = root)
  (hresolve : d.resolve root = .ok top)

include htree hself hresolve

/-- What a walk from a normal path meets has the names on the way to it attached to the path. -/
theorem mem_regularFiles_walk : (p ∈ (d.walk top entersDir).filterMap fun (place, node) =>
      match node with
      | .file _ _ => some (d.normalize ((place.drop top.length).foldl Path.child root))
      | _ => none) ↔
    ∃ way content modified, way ≠ [] ∧ d.node? (top ++ way) = some (.file content modified) ∧
      p = root.below way ∧ ∀ dir ∈ way.dropLast, ¬ IsPassedOver dir := by
  rw [List.mem_filterMap]
  constructor
  · rintro ⟨⟨place, node⟩, hentry, hp⟩
    obtain ⟨way, name, rfl, hway, hfile, -⟩ := mem_walk.mp hentry
    obtain ⟨content, modified, rfl, rfl⟩ := of_filePath hp
    rw [List.append_assoc] at hfile
    refine ⟨way ++ [name], content, modified, by simp, hfile, ?_, fun dir hdir => ?_⟩
    · rw [List.append_assoc, List.drop_left]
      exact htree.normalize_below hself hresolve hfile (Node.not_isLink_file _ _)
    · rw [List.dropLast_concat] at hdir
      exact entersDir_iff.mp ((descends_iff.mp hway).1 dir hdir)
  · rintro ⟨way, content, modified, hne, hfile, rfl, hway⟩
    obtain ⟨init, name, rfl⟩ := (List.eq_nil_or_concat way).resolve_left hne
    rw [List.concat_eq_append] at hfile hway ⊢
    rw [List.dropLast_concat] at hway
    have hbelow := htree.normalize_below hself hresolve hfile (Node.not_isLink_file _ _)
    rw [← List.append_assoc] at hfile
    have hdown : d.Descends entersDir top init :=
      htree.descends hfile fun dir hdir => entersDir_iff.mpr (hway dir hdir)
    refine ⟨_, mem_walk.mpr ⟨init, name, rfl, hdown, hfile, by simp⟩, ?_⟩
    dsimp only
    rw [List.append_assoc, List.drop_left, hbelow]

end Below

/-- If the path leads to no file by itself, the regular files are those below it. -/
theorem isRegularFile_iff_below {top : Place} (hresolve : d.resolve root = .ok top)
    (hnot : ∀ content modified, d.node? top = some (.file content modified) →
      ∃ target, d.lstat? root = some (.link target)) :
    d.IsRegularFile root p ↔
      ∃ way content modified, way ≠ [] ∧ d.node? (top ++ way) = some (.file content modified) ∧
        p = root.below way ∧ ∀ dir ∈ way.dropLast, ¬ IsPassedOver dir := by
  constructor
  · rintro ⟨top', way, content, modified, hresolve', hfile, hp, hway, hlink⟩
    cases hresolve.symm.trans hresolve'
    refine ⟨way, content, modified, fun hnil => ?_, hfile, hp, hway⟩
    rw [hnil, List.append_nil] at hfile
    obtain ⟨target, hlstat⟩ := hnot content modified hfile
    exact hlink hnil target hlstat
  · rintro ⟨way, content, modified, hne, hfile, hp, hway⟩
    exact ⟨top, way, content, modified, hresolve, hfile, hp, hway, fun hnil => absurd hnil hne⟩

theorem mem_regularFiles (htree : d.IsTree) (hself : d.normalize root = root) :
    p ∈ d.regularFiles root ↔ d.IsRegularFile root p := by
  rw [regularFiles]
  cases hresolve : d.resolve root with
  | error e =>
      refine iff_of_false List.not_mem_nil ?_
      rintro ⟨top, way, content, modified, htop, -⟩
      cases hresolve.symm.trans htop
  | ok top =>
      have hthere := lstat?_of_look (resolve_eq_ok.mp hresolve)
      have hbelow (hnot : ∀ content modified, d.node? top = some (.file content modified) →
          ∃ target, d.lstat? root = some (.link target)) :=
        (mem_regularFiles_walk htree hself hresolve).trans
          (isRegularFile_iff_below (p := p) hresolve hnot).symm
      cases hlstat : d.lstat? root with
      | none =>
          obtain hnode | ⟨target, hlink⟩ := hthere
          case inr => cases hlstat.symm.trans hlink
          refine iff_of_false List.not_mem_nil fun hfile => ?_
          obtain ⟨way, content, modified, hne, hfile, -⟩ :=
            (isRegularFile_iff_below hresolve fun _ _ hfile => by
              cases hlstat.symm.trans (hnode.trans hfile)).mp hfile
          cases hlstat.symm.trans (hnode.trans (htree.isDir_of_append hne hfile))
      | some node =>
          obtain hnode | ⟨target, hlink⟩ := hthere
          case inr =>
            cases hlstat.symm.trans hlink
            exact hbelow fun _ _ _ => ⟨target, hlstat⟩
          cases node with
          | link target => exact hbelow fun _ _ _ => ⟨target, hlstat⟩
          | dir =>
              refine hbelow fun _ _ hfile => ?_
              cases hlstat.symm.trans (hnode.trans hfile)
          | file content modified =>
              have hplain : Path.ofComponents root.components = root :=
                hself ▸ htree.isPlain_normalize root
              rw [hlstat] at hnode
              change p ∈ [d.normalize root] ↔ _
              rw [hself, List.mem_singleton]
              constructor
              · rintro rfl
                refine ⟨top, [], content, modified, hresolve, ?_, ?_, by simp, ?_⟩
                · rw [List.append_nil, ← hnode]
                · rw [Path.below, List.map_nil, List.append_nil, hplain]
                · rintro - target hlink
                  cases hlstat.symm.trans hlink
              · -- Nothing stands below a file.
                rintro ⟨top', way, content', modified', hresolve', hfile, rfl, -⟩
                cases hresolve.symm.trans hresolve'
                have hway : way = [] := by
                  refine Decidable.of_not_not fun hne => ?_
                  cases hnode.trans (htree.isDir_of_append hne hfile)
                rw [hway, Path.below, List.map_nil, List.append_nil, hplain]

theorem IsTree.components_below (htree : d.IsTree) (hself : d.normalize root = root) {top : Place}
    {way : List String} {node : Node} (hnode : d.node? (top ++ way) = some node) :
    (root.below way).components = root.components ++ way.map .name := by
  have hspelt := root.areSpelt_normalComponents
  rw [htree.normalComponents_of_normalize hself] at hspelt
  refine (hspelt.append_names fun name hname => ?_).components
  exact htree.isName hnode name (List.mem_append_right top hname)

theorem IsRegularFile.isPlain (htree : d.IsTree) (hself : d.normalize root = root)
    (h : d.IsRegularFile root p) : p.IsPlain := by
  obtain ⟨top, way, content, modified, -, hfile, rfl, -⟩ := h
  rw [Path.IsPlain, htree.components_below hself hfile, Path.below]

theorem pairwise_regularFiles (htree : d.IsTree) (hself : d.normalize root = root) :
    (d.regularFiles root).Pairwise fun p q => Path.order p q = .lt := by
  rw [regularFiles]
  split
  case h_1 => exact List.pairwise_singleton _ _
  case h_2 top node hnot hresolve hlstat =>
    refine List.pairwise_filterMap.mpr ((d.pairwise_walk top entersDir).imp_of_mem ?_)
    rintro ⟨place, node⟩ ⟨place', node'⟩ hentry hother hlt p hp q hq
    obtain ⟨way, name, rfl, -, hfile, -⟩ := mem_walk.mp hentry
    obtain ⟨way', name', rfl, -, hfile', -⟩ := mem_walk.mp hother
    obtain ⟨content, modified, rfl, rfl⟩ := of_filePath hp
    obtain ⟨content', modified', rfl, rfl⟩ := of_filePath hq
    rw [List.append_assoc] at hfile hfile'
    rw [List.append_assoc, List.append_assoc, compare_append_left] at hlt
    rw [List.append_assoc, List.drop_left, List.append_assoc, List.drop_left,
      htree.normalize_below hself hresolve hfile (Node.not_isLink_file _ _),
      htree.normalize_below hself hresolve hfile' (Node.not_isLink_file _ _),
      Path.order, htree.components_below hself hfile, htree.components_below hself hfile',
      compare_append_left, Path.compare_names]
    exact hlt
  case h_3 => exact List.Pairwise.nil

end Disk

/-! ### Sources -/

namespace Territory

variable {t : Territory} {c : CompileConfig} {d : Disk} {documents : List Path} {p q : Path}

/-- A source file at or below the root, and outside of the projects nested there. -/
def IsOwnSource (t : Territory) (c : CompileConfig) (p : Path) : Prop :=
  t.root.isWithin p ∧ (∀ nested ∈ t.excluded, ¬ nested.isWithin p) ∧ c.isSourceFile p

def IsDiskSource (t : Territory) (c : CompileConfig) (d : Disk) (p : Path) : Prop :=
  d.IsRegularFile t.root p ∧ t.IsOwnSource c p

def IsOpenSource (t : Territory) (c : CompileConfig) (d : Disk) (documents : List Path)
    (p : Path) : Prop :=
  (∃ document ∈ documents, d.normalize document = p) ∧ t.IsOwnSource c p

/-- A path stands in the directory of an open source. -/
def IsNear (t : Territory) (c : CompileConfig) (d : Disk) (documents : List Path) (p : Path) :
    Prop :=
  ∃ source, t.IsOpenSource c d documents source ∧
    source.components.dropLast = p.components.dropLast

/-- The order in which sources are taken: those near open sources first, and then by their paths. -/
def Precedes (t : Territory) (c : CompileConfig) (d : Disk) (documents : List Path)
    (p q : Path) : Prop :=
  (t.IsNear c d documents p ∧ ¬ t.IsNear c d documents q) ∨
    ((t.IsNear c d documents p ↔ t.IsNear c d documents q) ∧ Path.order p q = .lt)

theorem ownsSource_iff : t.ownsSource c p ↔ t.IsOwnSource c p := by
  simp [ownsSource, owns, isNested, IsOwnSource, and_assoc]

theorem mem_openSources :
    p ∈ t.openSources c d documents ↔ t.IsOpenSource c d documents p := by
  rw [openSources, List.mem_filter, List.mem_map, ownsSource_iff, IsOpenSource]

theorem mem_sourcesOnDisk (htree : d.IsTree) (hself : d.normalize t.root = t.root) :
    p ∈ t.sourcesOnDisk c d ↔ t.IsDiskSource c d p := by
  rw [sourcesOnDisk, List.mem_filter, ownsSource_iff, IsDiskSource,
    Disk.mem_regularFiles htree hself]

theorem pairwise_sourcesOnDisk (htree : d.IsTree) (hself : d.normalize t.root = t.root) :
    (t.sourcesOnDisk c d).Pairwise fun p q => Path.order p q = .lt :=
  (Disk.pairwise_regularFiles htree hself).filter _

theorem isPlain_of_isOpenSource (htree : d.IsTree) (h : t.IsOpenSource c d documents p) :
    p.IsPlain := by
  obtain ⟨⟨document, -, rfl⟩, -⟩ := h
  exact htree.isPlain_normalize document

/-! ### The order in which sources are taken -/

theorem sharesDir_iff {sources : List Path} (hsources : ∀ source ∈ sources, c.isSourceFile source)
    (hp : c.isSourceFile p) :
    sharesDir sources p ↔
      ∃ source ∈ sources, source.components.dropLast = p.components.dropLast := by
  have hparent {p : Path} (hp : c.isSourceFile p) :
      p.parent? = some (Path.ofComponents p.components.dropLast) := by
    obtain ⟨name, hname⟩ := CompileConfig.fileName?_of_isSourceFile hp
    exact Path.parent?_of_fileName? hname
  rw [sharesDir, hparent hp, Option.any_some, List.any_eq_true]
  refine exists_congr fun source => and_congr_right fun hsource => ?_
  rw [hparent (hsources source hsource), Option.any_some, Path.same, beq_iff_eq,
    Path.components_dropLast, Path.components_dropLast, eq_comm]

theorem preferDirs_perm (sources paths : List Path) : (preferDirs sources paths).Perm paths :=
  List.filter_append_perm _ _

theorem pairwise_preferDirs (htree : d.IsTree) (hself : d.normalize t.root = t.root) :
    (preferDirs (t.openSources c d documents) (t.sourcesOnDisk c d)).Pairwise
      (t.Precedes c d documents) := by
  have hnear : ∀ p ∈ t.sourcesOnDisk c d,
      (sharesDir (t.openSources c d documents) p ↔ t.IsNear c d documents p) := by
    intro p hp
    obtain ⟨-, -, -, hsource⟩ := (mem_sourcesOnDisk htree hself).mp hp
    have hopen : ∀ source ∈ t.openSources c d documents, c.isSourceFile source :=
      fun source hsource => (mem_openSources.mp hsource).2.2.2
    simp only [sharesDir_iff hopen hsource, IsNear, mem_openSources]
  have hsorted := pairwise_sourcesOnDisk (c := c) htree hself
  rw [preferDirs, List.pairwise_append]
  refine ⟨(hsorted.filter _).imp_of_mem fun hp hq hlt => ?_,
    (hsorted.filter _).imp_of_mem fun hp hq hlt => ?_, fun p hp q hq => ?_⟩
  all_goals
    rw [List.mem_filter] at hp hq
    have hp' := hnear _ hp.1
    have hq' := hnear _ hq.1
  · exact .inr ⟨iff_of_true (hp'.mp hp.2) (hq'.mp hq.2), hlt⟩
  · refine .inr ⟨iff_of_false ?_ ?_, hlt⟩
    · exact mt hp'.mpr (by simpa using hp.2)
    · exact mt hq'.mpr (by simpa using hq.2)
  · exact .inl ⟨hp'.mp hp.2, mt hq'.mpr (by simpa using hq.2)⟩

/-! ### Admitted sources -/

/-- What a full compile takes: all open sources, and of those on the disk the first ones, as many as
are configured. -/
structure Admits (t : Territory) (c : CompileConfig) (d : Disk) (documents admitted : List Path) :
    Prop where
  sorted : admitted.Pairwise fun p q => Path.order p q = .lt
  exists_found : ∃ found : List Path, (∀ p, p ∈ found ↔ t.IsDiskSource c d p) ∧
    found.Pairwise (t.Precedes c d documents) ∧
    ∀ p, p ∈ admitted ↔ p ∈ found.take c.maxCompileFiles ∨ t.IsOpenSource c d documents p

/-- The sources that are kept are the first ones in the order in which sources are taken, also if
the disk has no more than that. -/
theorem mem_keptSources : p ∈ t.keptSources c d documents ↔
    p ∈ (preferDirs (t.openSources c d documents) (t.sourcesOnDisk c d)).take
      c.maxCompileFiles := by
  have hperm := preferDirs_perm (t.openSources c d documents) (t.sourcesOnDisk c d)
  unfold keptSources
  split
  case isTrue => rfl
  case isFalse hfits =>
    rw [isOversized, decide_eq_true_eq, Nat.not_lt, ← hperm.length_eq] at hfits
    rw [List.take_of_length_le hfits, hperm.mem_iff]

theorem admits_admittedSources (t : Territory) (c : CompileConfig) (d : Disk)
    (documents : List Path) (htree : d.IsTree) (hself : d.normalize t.root = t.root) :
    t.Admits c d documents (t.admittedSources c d documents) := by
  have hperm := preferDirs_perm (t.openSources c d documents) (t.sourcesOnDisk c d)
  have hfound : ∀ p, p ∈ preferDirs (t.openSources c d documents) (t.sourcesOnDisk c d) ↔
      t.IsDiskSource c d p :=
    fun p => hperm.mem_iff.trans (mem_sourcesOnDisk htree hself)
  have hplain : ∀ p ∈ t.keptSources c d documents ++ t.openSources c d documents, p.IsPlain := by
    intro p hp
    rcases List.mem_append.mp hp with hkept | hopen
    · have hdisk := (hfound p).mp (List.mem_of_mem_take (mem_keptSources.mp hkept))
      exact hdisk.1.isPlain htree hself
    · exact isPlain_of_isOpenSource htree (mem_openSources.mp hopen)
  refine ⟨pairwise_sortUnique _, _, hfound, pairwise_preferDirs htree hself, fun p => ?_⟩
  rw [admittedSources, Path.sortUnique,
    mem_sortUnique fun p hp q hq => (hplain p hp).eq_of_order (hplain q hq), List.mem_append,
    mem_keptSources, mem_openSources]

/-! A project with more sources than are taken. Two of them are near an open one, one belongs to a
nested project and one is only a link; an open one stands in a directory that is passed over. -/

def crowdedTree : Disk where
  nodes := .ofList
    [(["ws"], .dir), (["ws", "a"], .dir), (["ws", "a", "A1.java"], .file ⟨[]⟩ 0),
      (["ws", "a", "A2.java"], .file ⟨[]⟩ 0), (["ws", "a", "Link.java"], .link "A1.java"),
      (["ws", "b"], .dir), (["ws", "b", "B1.java"], .file ⟨[]⟩ 0),
      (["ws", "b", "B2.java"], .file ⟨[]⟩ 0), (["ws", "out"], .dir),
      (["ws", "out", "Made.java"], .file ⟨[]⟩ 0), (["ws", "sub"], .dir),
      (["ws", "sub", "Sub.java"], .file ⟨[]⟩ 0)]
    Place.order
  cwd := []

def crowdedTerritory : Territory := ⟨⟨"/ws"⟩, [⟨"/ws/sub"⟩]⟩

def crowdedDocuments : List Path := [⟨"/ws/out/Made.java"⟩, ⟨"/ws/b/./B2.java"⟩]

theorem admits_admittedSources_crowded :
    crowdedTree.IsTree ∧ crowdedTree.normalize crowdedTerritory.root = crowdedTerritory.root ∧
      crowdedTerritory.Admits { maxCompileFiles := 3 } crowdedTree crowdedDocuments
        [⟨"/ws/a/A1.java"⟩, ⟨"/ws/b/B1.java"⟩, ⟨"/ws/b/B2.java"⟩, ⟨"/ws/out/Made.java"⟩] := by
  have htree : crowdedTree.IsTree := by decide +kernel
  have hself : crowdedTree.normalize crowdedTerritory.root = crowdedTerritory.root := by
    decide +kernel
  have hadmitted : crowdedTerritory.admittedSources { maxCompileFiles := 3 } crowdedTree
      crowdedDocuments =
        [⟨"/ws/a/A1.java"⟩, ⟨"/ws/b/B1.java"⟩, ⟨"/ws/b/B2.java"⟩, ⟨"/ws/out/Made.java"⟩] := by
    decide +kernel
  refine ⟨htree, hself, ?_⟩
  rw [← hadmitted]
  exact admits_admittedSources _ _ _ _ htree hself

end Territory

end Workbench
