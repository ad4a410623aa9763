import Workbench.Disk.Outside
import Workbench.Proofs.Disk.Ancestors
import Workbench.Proofs.Disk.Plain

/-!
Normal paths of what is deleted. On a disk without links the normal path of an entry is the path of
its place, and it stays so when the entry is deleted, for its directory is still located. This fails
for relative paths of which nothing can be located: the empty path, to which the working directory
itself is normalized, is located nowhere, nor is a single name once its entry is gone, nor a way
that begins with a name to which the path from the root is too long.
-/

namespace Workbench

namespace Path

variable {p : Path}

/-- What the pieces of a relative path may hold, the components of its lexical normal form may. -/
theorem not_mem_normalComponents (hrelative : p.isAbsolute = false) {character : Char}
    (hcharacter : character ≠ '/') (h : character ∉ p.text.toList) :
    ∀ c ∈ p.normalComponents, character ∉ c.text.toList := by
  intro c hc hmem
  rw [← p.intercalate_pieces, mem_intercalate_iff hcharacter] at h
  exact h ⟨_, (sublist_normalComponents hrelative).subset (List.mem_map_of_mem hc), hmem⟩

end Path

namespace Disk

variable {d : Disk} {p : Path} {place : Place} {node : Node} {names : List String} {ups : Nat}

/-! ### Look-ups in trees -/

namespace IsTree

variable (h : d.IsTree)

include h

/-- Going up from a directory leads to directories. -/
theorem advance_ups (hdir : d.node? place = some .dir) (ups : Nat) (rest : List Step) :
    d.node? (Place.along place (List.replicate ups .parent)) = some .dir ∧
      d.advance place (List.replicate ups .up ++ rest) =
        d.advance (Place.along place (List.replicate ups .parent)) rest := by
  induction ups generalizing place with
  | zero => exact ⟨hdir, rfl⟩
  | succ ups ih =>
      rw [List.replicate_succ, List.replicate_succ, List.cons_append, advance_up hdir]
      exact ih (h.dir_dropLast hdir)

end IsTree

/-! ### Deleting -/

theorem nodes_prune (d : Disk) (place : Place) :
    (d.prune place).nodes = d.nodes.filter fun other _ => !place.isPrefixOf other := by
  rw [prune]
  split <;> rfl

theorem getElem?_nodes_prune {other : Place} : (d.prune place).nodes[other]? = some node ↔
    d.nodes[other]? = some node ∧ ¬ place <+: other := by
  rw [nodes_prune, Std.ExtTreeMap.getElem?_filter', Option.filter_eq_some_iff,
    Bool.not_eq_true', ← Bool.not_eq_true, List.isPrefixOf_iff_prefix]

theorem node?_prune_of_inside (hne : place ≠ []) {other : Place} (h : place <+: other) :
    (d.prune place).node? other = none := by
  have hother : other ≠ [] := by
    rintro rfl
    exact hne (List.prefix_nil.mp h)
  rw [node?_of_ne_nil _ hother, Option.eq_none_iff_forall_ne_some]
  exact fun node hnode => (getElem?_nodes_prune.mp hnode).2 h

theorem node?_prune_of_outside {other : Place} (hnode : d.node? other = some node)
    (h : ¬ place <+: other) : (d.prune place).node? other = some node := by
  by_cases hother : other = []
  · subst hother
    exact hnode
  · rw [node?_of_ne_nil _ hother] at hnode ⊢
    exact getElem?_nodes_prune.mpr ⟨hnode, h⟩

theorem prune_of_outside (h : ¬ place <+: d.cwd) :
    (d.prune place).cwd = d.cwd ∧ (d.prune place).removed = d.removed := by
  rw [prune, if_neg (mt List.isPrefixOf_iff_prefix.mp h)]
  exact ⟨rfl, rfl⟩

/-- When a directory is removed, a working directory in it is, too. -/
theorem prune_of_inside (h : place <+: d.cwd) :
    (d.prune place).cwd = place.dropLast ∧ (d.prune place).removed ≠ 0 := by
  have hlength := h.length_le
  rw [prune, if_pos (List.isPrefixOf_iff_prefix.mpr h)]
  refine ⟨rfl, ?_⟩
  change d.removed + (d.cwd.length + 1 - place.length) ≠ 0
  omega

theorem LinkFree.prune (hd : d.LinkFree) (place : Place) : (d.prune place).LinkFree :=
  fun other node hnode => hd other node (getElem?_nodes_prune.mp hnode).1

theorem not_prefix_dropLast (hne : place ≠ []) : ¬ place <+: place.dropLast := by
  intro h
  have hlength := h.length_le
  rw [List.length_dropLast] at hlength
  have hpos := List.length_pos_iff.mpr hne
  omega

theorem IsTree.isDir_of_prefix (h : d.IsTree) (hdir : d.node? place = some .dir) {init : Place}
    (hinit : init <+: place) : d.node? init = some .dir := by
  obtain ⟨way, rfl⟩ := hinit
  cases way with
  | nil => rwa [List.append_nil] at hdir
  | cons first rest => exact h.isDir_of_append (List.cons_ne_nil first rest) hdir

theorem IsTree.prune (h : d.IsTree) (hne : place ≠ []) : (d.prune place).IsTree where
  entry other node hnode := by
    obtain ⟨hbefore, hnot⟩ := getElem?_nodes_prune.mp hnode
    obtain ⟨hdir, hname⟩ := h.entry other node hbefore
    refine ⟨node?_prune_of_outside hdir fun hinside => hnot ?_, hname⟩
    exact hinside.trans (List.dropLast_prefix other)
  cwd := by
    by_cases hinside : place <+: d.cwd
    · rw [(prune_of_inside hinside).1]
      refine node?_prune_of_outside ?_ (not_prefix_dropLast hne)
      exact h.isDir_of_prefix h.cwd ((List.dropLast_prefix place).trans hinside)
    · rw [(prune_of_outside hinside).1]
      exact node?_prune_of_outside h.cwd hinside

/-- On a tree nothing stands below a file, so only the file is removed with it. -/
theorem IsTree.drop_eq_prune (h : d.IsTree) {content : Content} {modified : Int}
    (hfile : d.node? place = some (.file content modified)) : d.drop place = d.prune place := by
  have hbelow {other : Place} {node : Node} (hnode : d.node? other = some node)
      (hinside : place <+: other) : other = place := by
    obtain ⟨way, rfl⟩ := hinside
    cases way with
    | nil => exact List.append_nil place
    | cons first rest =>
        cases (h.isDir_of_append (List.cons_ne_nil first rest) hnode).symm.trans hfile
  have hcwd : ¬ place <+: d.cwd := by
    intro hinside
    have heq := hbelow h.cwd hinside
    cases (heq ▸ h.cwd).symm.trans hfile
  have hne : place ≠ [] := by
    rintro rfl
    cases hfile
  have hnodes : d.nodes.erase place = (d.prune place).nodes := by
    refine Std.ExtTreeMap.ext_getElem? fun other => Option.ext fun node => ?_
    rw [getElem?_nodes_prune, Std.ExtTreeMap.getElem?_erase]
    by_cases heq : place = other
    · rw [if_pos (heq ▸ Std.ReflCmp.compare_self)]
      simp [heq]
    · rw [if_neg (mt Std.LawfulEqCmp.eq_of_compare heq)]
      refine (and_iff_left_of_imp fun hnode hinside => heq ?_).symm
      have hother : other ≠ [] := by
        rintro rfl
        exact hne (List.prefix_nil.mp hinside)
      exact (hbelow ((d.node?_of_ne_nil hother).trans hnode) hinside).symm
  rw [drop, hnodes, Disk.prune, if_neg (mt List.isPrefixOf_iff_prefix.mp hcwd)]

/-- What deletes the entry at a place: a file is removed, or a directory with all that is in it. -/
inductive Deletes (d : Disk) (place : Place) : OutsideAction → Prop where
  | file {q : Path} {dir : Place} {name : String} {content : Content} {modified : Int}
      (hentry : d.entry q = .ok (dir, name)) (hplace : place = dir ++ [name])
      (hfile : d.node? place = some (.file content modified)) : d.Deletes place (.removeFile q)
  | dir {q : Path} {dir : Place} {name : String}
      (hentry : d.entry (.ofComponents q.components) = .ok (dir, name))
      (hplace : place = dir ++ [name]) (hdir : d.node? place = some .dir) :
      d.Deletes place (.removeDir q)

/-- Deleting an entry takes away what stands at its place and below. -/
theorem Deletes.perform_eq {action : OutsideAction} (h : d.IsTree) (hdeletes : d.Deletes place action) :
    d.perform action = d.prune place := by
  cases hdeletes with
  | @file q dir name content modified hentry hplace hfile =>
      subst hplace
      have hremoved : d.removeFile q = .ok (d.drop (dir ++ [name])) := by
        rw [removeFile, hentry]
        simp only [hfile]
      change d.orKeep (d.removeFile q) = _
      rw [hremoved, orKeep, h.drop_eq_prune hfile]
  | @dir q dir name hentry hplace hdir =>
      subst hplace
      unfold perform
      dsimp only
      rw [hentry]

/-! ### Normal paths of existing and of deleted entries -/

/-- A path that is not located is left as it is if there is no ancestor to look for. -/
theorem normalize_of_lost (hlost : ∃ e, d.locate p.normal = .error e)
    (hlength : p.normalComponents.length < 2) : d.normalize p = p.normal := by
  rcases d.exists_anchors p.normalComponents with ⟨found, top, rest, hanchors⟩ | ⟨-, hnone⟩
  case inr => exact normalize_of_anchor?_eq_none (hnone [])
  have hrest : rest ≠ [] := by
    rintro rfl
    have hsplit := hanchors.split
    rw [List.map_nil, List.append_nil] at hsplit
    rw [Path.normal, hsplit] at hlost
    obtain ⟨e, hlost⟩ := hlost
    cases hlost.symm.trans hanchors.located
  have hsplit := congrArg List.length hanchors.split
  rw [List.length_append, List.length_map] at hsplit
  have hfound := List.length_pos_iff.mpr hanchors.ancestor_ne_nil
  have hbehind := List.length_pos_iff.mpr hrest
  omega

/-- A path whose first name is not located is left as it is. -/
theorem normalize_of_first_lost {first : String}
    (hcs : p.normalComponents = (first :: names).map .name)
    (hlost : ∃ e, d.locate (.ofComponents [.name first]) = .error e) : d.normalize p = p.normal := by
  rcases d.exists_anchors p.normalComponents with ⟨found, top, rest, hanchors⟩ | ⟨-, hnone⟩
  case inr => exact normalize_of_anchor?_eq_none (hnone [])
  obtain ⟨e, hlost⟩ := hlost
  have hspelt := p.areSpelt_normalComponents
  have hsplit := hanchors.split
  rw [hsplit] at hspelt
  rw [hcs, List.map_cons] at hsplit
  rcases List.append_eq_cons_iff.mp hsplit.symm with ⟨hnil, -⟩ | ⟨behind, rfl, hnames⟩
  · exact absurd hnil hanchors.ancestor_ne_nil
  · obtain ⟨init, others, -, rfl, -⟩ := List.map_eq_append_iff.mp hnames
    have hlocated : d.locate (.ofComponents ([.name first] ++ init.map .name)) = .ok top :=
      hanchors.located
    have hspelt : Path.AreSpelt ([.name first] ++ init.map .name) := hspelt.of_append
    by_cases hne : init = []
    · rw [hne, List.map_nil, List.append_nil] at hlocated
      cases hlost.symm.trans hlocated
    · obtain ⟨middle, hmiddle, -⟩ := exists_locate hspelt (List.cons_ne_nil _ _) hne hlocated
      cases hlost.symm.trans hmiddle

/-- On a disk without links a path is normalized lexically if there is anything of it. -/
theorem LinkFree.normalize_of_anchors (hlinks : d.LinkFree) {found : List Component} {top : Place}
    {rest : List String} (h : d.Anchors p.normalComponents found top rest) :
    d.normalize p = .absolute (Place.along (origin d.cwd p) p.normalComponents) := by
  have hspelt := p.areSpelt_normalComponents
  have habsolute := p.isAbsolute_normal
  rw [h.split] at hspelt
  rw [Path.normal, h.split, hspelt.isAbsolute_append h.ancestor_ne_nil] at habsolute
  have hchase := chase_of_locate h.located
  rw [chase_steps hspelt.of_append h.ancestor_ne_nil, origin, habsolute] at hchase
  have htop : top = Place.along (origin d.cwd p) found := hlinks.chase hchase
  rw [h.normalize_eq rfl, h.split, Place.along_append, Place.along_names, htop]

/-- An absolute path that leads to a place on one disk without links has the path of that place for
its normal form on all of them. -/
theorem LinkFree.normalize_of_resolve {d' : Disk} (hlinks : d.LinkFree) (hlinks' : d'.LinkFree)
    (habsolute : p.isAbsolute = true) (hp : d.resolve p = .ok place) :
    d'.normalize p = .absolute place := by
  obtain ⟨names, hnames, heq, hnormal⟩ := hlinks'.normalize_of_isAbsolute habsolute
  have hplace := hlinks.eq_along ((resolve_iff (.inl habsolute)).mp hp).2
  rw [origin, if_pos habsolute, heq, Place.along_root_names, List.nil_append] at hplace
  rw [hnormal, hplace]

/-- The lexical normal form of a relative path is not empty, and if it begins with a name, the path
from the root to that name in the working directory is short enough. -/
def FirstFits (d : Disk) (p : Path) : Prop :=
  ∃ first rest, p.normalComponents = first :: rest ∧
    ∀ name, first = .name name → Place.fits (d.cwd ++ [name])

/-- A name in the working directory is located just if its path is short enough. -/
theorem IsTree.locate_name (h : d.IsTree) (hremoved : d.removed = 0) {name : String}
    (hname : Path.IsName name) (hcut : '\x00' ∉ name.toList)
    (hnode : d.node? (d.cwd ++ [name]) = some node) (hlink : ¬ node.IsLink) :
    d.locate (.ofComponents [.name name]) = .ok (d.cwd ++ [name]) ↔
      Place.fits (d.cwd ++ [name]) := by
  have hinner : ∀ c ∈ [Component.name name], Path.IsInner c := List.forall_mem_singleton.mpr hname
  have hsteps : (Path.ofComponents [.name name]).steps = [.into name] :=
    Path.steps_inner hinner (List.cons_ne_nil _ _)
  have hrelative : (Path.ofComponents [.name name]).isAbsolute = false := by
    rw [Path.ofComponents_inner hinner, Path.isAbsolute_inner hinner]
  have hflaw : (Path.ofComponents [.name name]).flaw? = none := by
    rw [Path.AreSpelt.flaw?_eq_none_iff (.inl hinner) (List.cons_ne_nil _ _)]
    exact List.forall_mem_singleton.mpr hcut
  have hadvance : d.advance d.cwd [.into name] = .ok (.found (d.cwd ++ [name])) :=
    h.advance_names hnode hlink
  rw [locate_iff, hsteps, origin, if_neg (by simp [hrelative]), way_of_found hadvance,
    entered_into_node hnode hlink, entered_nil]
  simp [hremoved, hflaw, chase_of_found hadvance]

theorem entered_ups (d : Disk) (place : Place) (ups : Nat) :
    d.entered place (List.replicate ups .up) = [] := by
  induction ups generalizing place with
  | zero => rfl
  | succ ups ih => exact ih place.dropLast

/-- Going up from the working directory is no matter of the length of paths. -/
theorem IsTree.locate_ups (h : d.IsTree) (hremoved : d.removed = 0) (hups : ups ≠ 0) :
    d.locate (.ofComponents (List.replicate ups .parent)) =
      .ok (Place.along d.cwd (List.replicate ups .parent)) := by
  have hne : List.replicate ups Component.parent ≠ [] := by simpa using hups
  have hinner : ∀ c ∈ List.replicate ups Component.parent, Path.IsInner c := fun c hc => by
    rw [List.eq_of_mem_replicate hc]
    trivial
  have hup : Component.parent.step? = some .up := rfl
  have hsteps : (Path.ofComponents (List.replicate ups .parent)).steps =
      List.replicate ups .up := by
    rw [Path.steps_inner hinner hne, List.filterMap_replicate_of_some hup]
  have hrelative : (Path.ofComponents (List.replicate ups .parent)).isAbsolute = false := by
    rw [Path.ofComponents_inner hinner, Path.isAbsolute_inner hinner]
  have hflaw : (Path.ofComponents (List.replicate ups .parent)).flaw? = none := by
    rw [Path.AreSpelt.flaw?_eq_none_iff (.inl hinner) hne]
    intro c hc
    rw [List.eq_of_mem_replicate hc]
    decide
  have hadvance := (h.advance_ups h.cwd ups []).2
  rw [List.append_nil, advance_nil] at hadvance
  rw [locate_iff, hsteps, origin, if_neg (by simp [hrelative]), way_of_found hadvance, entered_ups]
  exact ⟨.inr hremoved, hflaw, chase_of_found hadvance, List.forall_mem_nil _⟩

/-- On a tree without links a relative path is normalized lexically, if the first of its names is
there or it goes up. -/
theorem IsTree.normalize_relative (h : d.IsTree) (hlinks : d.LinkFree) (hremoved : d.removed = 0)
    (hrelative : p.isAbsolute = false) (hcut : '\x00' ∉ p.text.toList) (hfits : d.FirstFits p)
    (hthere : ∀ first names, p.normalComponents = (first :: names).map .name →
      ∃ node, d.node? (d.cwd ++ [first]) = some node) :
    d.normalize p = .absolute (Place.along d.cwd p.normalComponents) := by
  have horigin : origin d.cwd p = d.cwd := if_neg (by simp [hrelative])
  rcases d.exists_anchors p.normalComponents with ⟨found, top, rest, hanchors⟩ | ⟨hlost, -⟩
  · rw [hlinks.normalize_of_anchors hanchors, horigin]
  · exfalso
    obtain ⟨ups, names, hnames, hcs⟩ := Path.normalComponents_of_relative hrelative
    obtain ⟨first, more, heq, hfirst⟩ := hfits
    cases ups with
    | succ ups =>
        obtain ⟨e, hmissing⟩ := hlost _ _ hcs
        cases hmissing.symm.trans (h.locate_ups hremoved (Nat.succ_ne_zero ups))
    | zero =>
        rw [List.replicate_zero, List.nil_append] at hcs
        cases names with
        | nil => cases heq.symm.trans hcs
        | cons name names =>
            cases heq.symm.trans hcs
            obtain ⟨node, hnode⟩ := hthere name names hcs
            have hlink : ¬ node.IsLink := hlinks.not_isLink hnode
            obtain ⟨e, hmissing⟩ := hlost [.name name] names hcs
            have hclean : '\x00' ∉ name.toList :=
              Path.not_mem_normalComponents hrelative (by decide) hcut (.name name)
                (hcs ▸ List.mem_cons_self)
            cases hmissing.symm.trans ((h.locate_name hremoved (hnames name List.mem_cons_self)
              hclean hnode hlink).mpr (hfirst name rfl))

/-- A relative path is left as it is if the path to its first name is too long, or there is none. -/
theorem normalize_of_not_firstFits (hrelative : p.isAbsolute = false) (h : ¬ d.FirstFits p) :
    d.normalize p = p.normal := by
  obtain ⟨ups, names, hnames, hcs⟩ := Path.normalComponents_of_relative hrelative
  cases ups with
  | succ ups => exact absurd ⟨.parent, _, hcs, nofun⟩ h
  | zero =>
      rw [List.replicate_zero, List.nil_append] at hcs
      cases names with
      | nil =>
          refine normalize_of_lost ?_ (by simp [hcs])
          rw [Path.normal, hcs]
          exact d.locate_nil
      | cons first names =>
          refine normalize_of_first_lost hcs ?_
          cases hlocate : d.locate (.ofComponents [.name first]) with
          | error e => exact ⟨e, rfl⟩
          | ok place =>
              have hinner : ∀ c ∈ [Component.name first], Path.IsInner c :=
                List.forall_mem_singleton.mpr (hnames first List.mem_cons_self)
              have hsteps : (Path.ofComponents [.name first]).steps = [.into first] :=
                Path.steps_inner hinner (List.cons_ne_nil _ _)
              obtain ⟨-, -, -, hfits⟩ := locate_iff.mp hlocate
              rw [hsteps, origin, Path.ofComponents_inner hinner, Path.isAbsolute_inner hinner,
                if_neg Bool.false_ne_true] at hfits
              refine absurd ⟨_, _, hcs, ?_⟩ h
              rintro _ ⟨⟩
              exact hfits _ (d.entered_subset_way _ _ _ (d.mem_entered_into _ _ _))

section Existing

variable (htree : d.IsTree) (hlinks : d.LinkFree) (hp : d.resolve p = .ok place)

include htree hlinks hp

/-- A relative path that leads somewhere from the working directory stands where its lexical normal
form says. -/
theorem along_of_resolve (hrelative : p.isAbsolute = false) (hremoved : d.removed = 0) :
    place = Place.along d.cwd p.normalComponents ∧ '\x00' ∉ p.text.toList ∧
      ∃ node, d.node? place = some node := by
  obtain ⟨hrefused, hchase⟩ := (resolve_iff (.inr hremoved)).mp hp
  have horigin : origin d.cwd p = d.cwd := if_neg (by simp [hrelative])
  have hplace := hlinks.eq_along hchase
  rw [horigin] at hchase hplace
  have hreached := htree.reached htree.cwd Node.not_isLink_dir
  obtain ⟨node, hnode, -⟩ :=
    (reached_of_chase hreached (fun _ => Path.isName_of_mem_steps) hchase).exists_node
  exact ⟨hplace, (Path.flaw?_eq_none.mp (Path.refusal?_eq_none.mp hrefused).1).1, node, hnode⟩

/-- The normal path of what is there is the path of its place. -/
theorem normalize_of_resolve (hfound : p.isAbsolute = true ∨ d.removed = 0 ∧ d.FirstFits p) :
    d.normalize p = .absolute place := by
  cases habsolute : p.isAbsolute with
  | true => exact hlinks.normalize_of_resolve hlinks habsolute hp
  | false =>
      obtain ⟨hremoved, hfits⟩ := hfound.resolve_left (by simp [habsolute])
      obtain ⟨rfl, hcut, node, hnode⟩ := along_of_resolve htree hlinks hp habsolute hremoved
      refine htree.normalize_relative hlinks hremoved habsolute hcut hfits fun first names hcs => ?_
      rw [hcs, Place.along_names, List.append_cons] at hnode
      cases names with
      | nil =>
          rw [List.append_nil] at hnode
          exact ⟨node, hnode⟩
      | cons next names => exact ⟨_, htree.isDir_of_append (List.cons_ne_nil next names) hnode⟩

/-- What a relative path led to is not located by its lexical normal form once it is deleted. -/
theorem locate_normal_prune (hrelative : p.isAbsolute = false) (hremoved : d.removed = 0)
    (houtside : ¬ place <+: d.cwd) : ∃ e, (d.prune place).locate p.normal = .error e := by
  have hne : place ≠ [] := by
    rintro rfl
    exact houtside (List.nil_prefix)
  have hcwd := (prune_of_outside houtside).1
  have hplace := (along_of_resolve htree hlinks hp hrelative hremoved).1
  cases hlocate : (d.prune place).locate p.normal with
  | error e => exact ⟨e, rfl⟩
  | ok found =>
      have hfound := (hlinks.prune place).eq_along (chase_of_locate hlocate)
      rw [origin, Path.isAbsolute_normal, hrelative, if_neg Bool.false_ne_true,
        Path.normalComponents_normal, hcwd, ← hplace] at hfound
      obtain ⟨node, hnode, -⟩ := ((htree.prune hne).reached_of_locate hlocate).exists_node
      rw [hfound] at hnode
      cases (node?_prune_of_inside hne List.prefix_rfl).symm.trans hnode

/-- The normal path of what was deleted is still the path of its place, if its directory is found
on the way. -/
theorem normalize_prune (hfound : p.isAbsolute = true ∨ d.removed = 0 ∧ ¬ place <+: d.cwd ∧
      2 ≤ p.normalComponents.length ∧ d.FirstFits p) :
    (d.prune place).normalize p = .absolute place := by
  cases habsolute : p.isAbsolute with
  | true => exact hlinks.normalize_of_resolve (hlinks.prune place) habsolute hp
  | false =>
      obtain ⟨hremoved, houtside, hlength, hfits⟩ := hfound.resolve_left (by simp [habsolute])
      obtain ⟨hplace, hcut, node, hnode⟩ := along_of_resolve htree hlinks hp habsolute hremoved
      obtain ⟨hcwd, hsame⟩ := prune_of_outside houtside
      have hne : place ≠ [] := by
        rintro rfl
        exact houtside List.nil_prefix
      have hnormal := (htree.prune hne).normalize_relative (hlinks.prune place)
        (hsame.trans hremoved) habsolute hcut (by rwa [FirstFits, hcwd]) fun first names hcs => ?_
      · rw [hnormal, hcwd, ← hplace]
      · -- The first name stands in the working directory, above what was deleted.
        rw [hcs, Place.along_names] at hplace
        rw [hcs] at hlength
        have hbehind : names ≠ [] := by
          rintro rfl
          exact absurd hlength (by simp)
        rw [hplace, List.append_cons] at hnode
        refine ⟨.dir, ?_⟩
        rw [hcwd]
        refine node?_prune_of_outside (htree.isDir_of_append hbehind hnode) fun hinside => ?_
        have hshort := hinside.length_le
        rw [hplace] at hshort
        have hpos := List.length_pos_iff.mpr hbehind
        simp only [List.length_append, List.length_cons, List.length_nil] at hshort
        omega

/-- Otherwise a relative path is left as it is when its entry is deleted. -/
theorem normalize_prune_eq_normal (hrelative : p.isAbsolute = false)
    (hnot : ¬ (d.removed = 0 ∧ ¬ place <+: d.cwd ∧ 2 ≤ p.normalComponents.length ∧
      d.FirstFits p)) : (d.prune place).normalize p = p.normal := by
  by_cases hremoved : (d.prune place).removed = 0
  case neg => exact normalize_of_removed hremoved hrelative
  have houtside : ¬ place <+: d.cwd := fun hinside => (prune_of_inside hinside).2 hremoved
  obtain ⟨hcwd, hsame⟩ := prune_of_outside houtside
  rw [hsame] at hremoved
  by_cases hlength : 2 ≤ p.normalComponents.length
  · refine normalize_of_not_firstFits hrelative fun hfits => hnot ⟨hremoved, houtside, hlength, ?_⟩
    rwa [FirstFits, hcwd] at hfits
  · exact normalize_of_lost (locate_normal_prune htree hlinks hp hrelative hremoved houtside)
      (Nat.lt_of_not_le hlength)

end Existing

/-- Only an absolute path, or one that is not left as it is, has an absolute normal form. -/
theorem isAbsolute_or_of_normalize {found : Prop} (h : d.normalize p = .absolute names)
    (hnot : p.isAbsolute = false → ¬ found → d.normalize p = p.normal) :
    p.isAbsolute = true ∨ found := by
  by_contra hneither
  obtain ⟨hrelative, hlost⟩ := not_or.mp hneither
  have hrelative : p.isAbsolute = false := Bool.eq_false_iff.mpr hrelative
  have habsolute := Path.isAbsolute_absolute names
  rw [← h, hnot hrelative hlost, Path.isAbsolute_normal, hrelative] at habsolute
  contradiction

/-- On a tree without links, the normal path of what exists is the path of its place, just if the path
is absolute, or its lexical normal form is not empty and does not begin with a name that is too far
from the root. When it is deleted the normal path remains, just if the path is absolute or the
lexical normal form has, besides, more than one component. For relative paths the working directory
has to be there, also after the deletion. -/
theorem normalize_deleted_iff (htree : d.IsTree) (hlinks : d.LinkFree)
    (hp : d.resolve p = .ok place) :
    (d.normalize p = .absolute place ↔
        p.isAbsolute = true ∨ d.removed = 0 ∧ d.FirstFits p) ∧
      ∀ action, d.Deletes place action →
        ((d.perform action).normalize p = .absolute place ↔ p.isAbsolute = true ∨
          d.removed = 0 ∧ ¬ place <+: d.cwd ∧ 2 ≤ p.normalComponents.length ∧
            d.FirstFits p) := by
  constructor
  · refine ⟨fun hnormal => isAbsolute_or_of_normalize hnormal fun hrelative hlost => ?_,
      normalize_of_resolve htree hlinks hp⟩
    by_cases hremoved : d.removed = 0
    · exact normalize_of_not_firstFits hrelative fun hfits => hlost ⟨hremoved, hfits⟩
    · exact normalize_of_removed hremoved hrelative
  · intro action hdeletes
    rw [hdeletes.perform_eq htree]
    exact ⟨fun hnormal => isAbsolute_or_of_normalize hnormal
      (normalize_prune_eq_normal htree hlinks hp), normalize_prune htree hlinks hp⟩

/-! A file is named from another directory, on a way around, and then deleted. -/

def besideTree : Disk where
  nodes := .ofList
    [(["ws"], .dir), (["ws", "app"], .dir), (["ws", "app", "src"], .dir), (["ws", "lib"], .dir),
      (["ws", "lib", "A.groovy"], .file ⟨[]⟩ 0), (["ws", "app", "B.groovy"], .file ⟨[]⟩ 0)]
    Place.order
  cwd := ["ws", "app"]

theorem normalize_deleted_iff_beside :
    besideTree.IsTree ∧ besideTree.LinkFree ∧
      besideTree.resolve ⟨"src/..//../lib/./A.groovy"⟩ = .ok ["ws", "lib", "A.groovy"] ∧
      besideTree.Deletes ["ws", "lib", "A.groovy"] (.removeFile ⟨"/ws/lib/A.groovy"⟩) ∧
      besideTree.normalize ⟨"src/..//../lib/./A.groovy"⟩ = .absolute ["ws", "lib", "A.groovy"] ∧
      (besideTree.perform (.removeFile ⟨"/ws/lib/A.groovy"⟩)).normalize
        ⟨"src/..//../lib/./A.groovy"⟩ = .absolute ["ws", "lib", "A.groovy"] := by
  have htree : besideTree.IsTree := by decide +kernel
  have hlinks : besideTree.LinkFree := by decide +kernel
  have hp : besideTree.resolve ⟨"src/..//../lib/./A.groovy"⟩ = .ok ["ws", "lib", "A.groovy"] := by
    decide +kernel
  have hentry : besideTree.entry ⟨"/ws/lib/A.groovy"⟩ = .ok (["ws", "lib"], "A.groovy") := by
    decide +kernel
  have hdeletes : besideTree.Deletes ["ws", "lib", "A.groovy"] (.removeFile ⟨"/ws/lib/A.groovy"⟩) :=
    .file hentry rfl (by decide +kernel : besideTree.node? _ = some (.file ⟨[]⟩ 0))
  have hcomponents : (Path.mk "src/..//../lib/./A.groovy").normalComponents =
      [.parent, .name "lib", .name "A.groovy"] := by decide +kernel
  have hfits : besideTree.FirstFits ⟨"src/..//../lib/./A.groovy"⟩ := ⟨_, _, hcomponents, nofun⟩
  obtain ⟨hbefore, hafter⟩ := normalize_deleted_iff htree hlinks hp
  refine ⟨htree, hlinks, hp, hdeletes, hbefore.mpr (.inr ⟨rfl, hfits⟩),
    (hafter _ hdeletes).mpr (.inr ⟨rfl, by decide, ?_, hfits⟩)⟩
  simp [hcomponents]

/-- A path of a single name is no longer found once its entry is deleted. -/
theorem not_normalize_deleted_single :
    ¬ ∀ (d : Disk) (p : Path) (place : Place), d.IsTree → d.LinkFree → d.resolve p = .ok place →
      d.normalize p = .absolute place ∧ ∀ action, d.Deletes place action →
        (d.perform action).normalize p = .absolute place := by
  have htree : besideTree.IsTree := by decide +kernel
  have hlinks : besideTree.LinkFree := by decide +kernel
  have hp : besideTree.resolve ⟨"B.groovy"⟩ = .ok ["ws", "app", "B.groovy"] := by decide +kernel
  have hentry : besideTree.entry ⟨"B.groovy"⟩ = .ok (["ws", "app"], "B.groovy") := by
    decide +kernel
  have hlost : (besideTree.perform (.removeFile ⟨"B.groovy"⟩)).normalize ⟨"B.groovy"⟩ =
      ⟨"B.groovy"⟩ := by decide +kernel
  intro h
  have hkept := (h besideTree ⟨"B.groovy"⟩ _ htree hlinks hp).2 (.removeFile ⟨"B.groovy"⟩)
    (.file hentry rfl (by decide +kernel : besideTree.node? _ = some (.file ⟨[]⟩ 0)))
  rw [hlost] at hkept
  exact absurd hkept (by decide)

/-- The working directory has the empty path for its normal path. -/
example : besideTree.normalize ⟨"."⟩ = ⟨""⟩ := by decide +kernel

end Disk

end Workbench
