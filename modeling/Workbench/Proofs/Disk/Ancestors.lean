import Workbench.Proofs.Disk.Child
import Workbench.Proofs.Disk.Tree

/-!
Ancestors of paths. The way of a path in its plain spelling begins with the ways of its ancestors,
so each of them is located if the path is, and a directory keeps its normal form where directories
and links are kept.
-/

namespace Workbench

namespace Path

variable {cs ds : List Component}

/-! ### Components of plain spellings -/

/-- Whether components are a root with inner ones behind it, or inner ones only. -/
def AreSpelt (cs : List Component) : Prop :=
  (∀ c ∈ cs, IsInner c) ∨ ∃ inner, cs = .root :: inner ∧ ∀ c ∈ inner, IsInner c

theorem areSpelt_normalComponents (p : Path) : AreSpelt p.normalComponents := by
  cases hp : p.isAbsolute with
  | true =>
      obtain ⟨names, hnames, heq⟩ := normalComponents_of_isAbsolute hp
      exact .inr ⟨_, heq, isInner_names hnames⟩
  | false => exact .inl (isInner_normalComponents hp)

namespace AreSpelt

theorem of_append (h : AreSpelt (cs ++ ds)) : AreSpelt cs := by
  rcases h with hinner | ⟨inner, heq, hinner⟩
  · exact .inl fun c hc => hinner c (List.mem_append_left ds hc)
  · cases cs with
    | nil => exact .inl (List.forall_mem_nil _)
    | cons first rest =>
        obtain ⟨rfl, rfl⟩ := List.cons.inj heq
        exact .inr ⟨rest, rfl, fun c hc => hinner c (List.mem_append_left ds hc)⟩

theorem isName (h : AreSpelt cs) {name : String} (hname : Component.name name ∈ cs) :
    IsName name := by
  rcases h with hinner | ⟨inner, rfl, hinner⟩
  · exact hinner _ hname
  · rcases List.mem_cons.mp hname with heq | hname
    · contradiction
    · exact hinner _ hname

theorem current_not_mem (h : AreSpelt cs) : .current ∉ cs := by
  intro hc
  rcases h with hinner | ⟨inner, rfl, hinner⟩
  · exact hinner _ hc
  · rcases List.mem_cons.mp hc with heq | hc
    · contradiction
    · exact hinner _ hc

theorem components (h : AreSpelt cs) : (ofComponents cs).components = cs := by
  rcases h with hinner | ⟨inner, rfl, hinner⟩
  · exact components_inner hinner
  · exact components_root hinner

theorem append_names (h : AreSpelt cs) {names : List String} (hnames : ∀ name ∈ names, IsName name) :
    AreSpelt (cs ++ names.map .name) := by
  rcases h with hinner | ⟨inner, rfl, hinner⟩
  · exact .inl (List.forall_mem_append.mpr ⟨hinner, isInner_names hnames⟩)
  · exact .inr ⟨inner ++ names.map .name, rfl,
      List.forall_mem_append.mpr ⟨hinner, isInner_names hnames⟩⟩

theorem isAbsolute_append (h : AreSpelt (cs ++ ds)) (hne : cs ≠ []) :
    (ofComponents (cs ++ ds)).isAbsolute = (ofComponents cs).isAbsolute := by
  cases cs with
  | nil => contradiction
  | cons first rest =>
      rw [Bool.eq_iff_iff, isAbsolute_iff, isAbsolute_iff, h.components, h.of_append.components]
      simp

theorem flaw?_eq_none_iff (h : AreSpelt cs) (hne : cs ≠ []) :
    (ofComponents cs).flaw? = none ↔ ∀ c ∈ cs, '\x00' ∉ c.text.toList := by
  have htext : (ofComponents cs).text ≠ "" := by
    intro hempty
    have hcomponents := h.components
    rw [show ofComponents cs = ⟨""⟩ from congrArg Path.mk hempty] at hcomponents
    exact hne hcomponents.symm
  rw [flaw?_eq_none, mem_ofComponents_iff (by decide), and_iff_left htext]
  simp

end AreSpelt

/-- A path with some names attached. -/
def below (p : Path) (names : List String) : Path :=
  ofComponents (p.components ++ names.map .name)

/-- A name in a directory is attached to the lexical normal form. -/
theorem normalComponents_child {p : Path} {name : String} (h : IsName name) :
    (p.child name).normalComponents = p.normalComponents ++ [.name name] := by
  rw [normalComponents, normalComponents, components_child h, isAbsolute_child h.2,
    List.foldl_append]
  have hstep (stack : List Component) : [Component.name name].foldl (normalStep p.isAbsolute) stack =
      .name name :: stack := rfl
  rw [hstep, List.reverse_cons]
  cases p.isAbsolute <;> rfl

theorem normalComponents_foldl_child {names : List String} (h : ∀ name ∈ names, IsName name)
    (p : Path) : (names.foldl child p).normalComponents =
      p.normalComponents ++ names.map .name := by
  induction names generalizing p with
  | nil => exact (List.append_nil _).symm
  | cons name rest ih =>
      obtain ⟨hname, hrest⟩ := List.forall_mem_cons.mp h
      rw [List.foldl_cons, ih hrest, normalComponents_child hname, List.append_assoc,
        List.map_cons, List.singleton_append]

end Path

namespace Disk

variable {d d' : Disk} {p : Path} {place other : Place} {cs : List Component} {names : List String}
  {links : Nat} {landing : Landing}

/-! ### Ways of ancestors -/

/-- The way of a path in its plain spelling is that of its components. -/
theorem advance_steps (d : Disk) (h : Path.AreSpelt cs) (hne : cs ≠ []) :
    d.advance (origin d.cwd (.ofComponents cs)) (Path.ofComponents cs).steps =
        d.advance (origin d.cwd (.ofComponents cs)) (cs.filterMap Component.step?) ∧
      d.entered (origin d.cwd (.ofComponents cs)) (Path.ofComponents cs).steps =
        d.entered (origin d.cwd (.ofComponents cs)) (cs.filterMap Component.step?) := by
  rcases h with hinner | ⟨inner, rfl, hinner⟩
  · rw [Path.steps_inner hinner hne]
    exact ⟨rfl, rfl⟩
  · have hroot : (Component.root :: inner).filterMap Component.step? =
        inner.filterMap Component.step? := rfl
    rw [hroot, origin, if_pos (by simp)]
    by_cases hnil : inner = []
    · have hsteps : (Path.ofComponents [.root]).steps = [.stay, .stay] := by decide
      rw [hnil, hsteps, advance_stay d.node?_nil, advance_stay d.node?_nil]
      exact ⟨rfl, rfl⟩
    · rw [Path.steps_root hinner hnil, advance_stay d.node?_nil]
      exact ⟨rfl, rfl⟩

theorem chase_steps (h : Path.AreSpelt cs) (hne : cs ≠ []) (links : Nat) :
    d.chase links (origin d.cwd (.ofComponents cs)) (Path.ofComponents cs).steps =
      d.chase links (origin d.cwd (.ofComponents cs)) (cs.filterMap Component.step?) :=
  chase_congr (d.advance_steps h hne).1 links

theorem way_steps (h : Path.AreSpelt cs) (hne : cs ≠ []) (links : Nat) :
    d.way links (origin d.cwd (.ofComponents cs)) (Path.ofComponents cs).steps =
      d.way links (origin d.cwd (.ofComponents cs)) (cs.filterMap Component.step?) := by
  obtain ⟨hadvance, hentered⟩ := d.advance_steps h hne
  exact way_congr hadvance (hentered.trans (List.nil_append _).symm)

section Behind

variable (h : Path.AreSpelt (cs ++ names.map .name)) (hne : cs ≠ [])

include h hne

theorem origin_append : origin d.cwd (.ofComponents (cs ++ names.map .name)) =
    origin d.cwd (.ofComponents cs) := by
  rw [origin, origin, h.isAbsolute_append hne]

theorem chase_names (links : Nat) :
    d.chase links (origin d.cwd (.ofComponents (cs ++ names.map .name)))
        (Path.ofComponents (cs ++ names.map .name)).steps =
      d.chase links (origin d.cwd (.ofComponents cs))
        (cs.filterMap Component.step? ++ names.map .into) := by
  rw [chase_steps h (by simp [hne]), origin_append h hne, List.filterMap_append,
    Component.filterMap_step?_names]

theorem way_names (links : Nat) :
    d.way links (origin d.cwd (.ofComponents (cs ++ names.map .name)))
        (Path.ofComponents (cs ++ names.map .name)).steps =
      d.way links (origin d.cwd (.ofComponents cs))
        (cs.filterMap Component.step? ++ names.map .into) := by
  rw [way_steps h (by simp [hne]), origin_append h hne, List.filterMap_append,
    Component.filterMap_step?_names]

variable (hnames : names ≠ [])

include hnames

/-- A path with names at its end is looked up from where the path without them leads. -/
theorem chase_names_split
    (hchase : d.chase links (origin d.cwd (.ofComponents (cs ++ names.map .name)))
      (Path.ofComponents (cs ++ names.map .name)).steps = .ok landing) :
    ∃ used left middle, links = used + left ∧
      d.chase used (origin d.cwd (.ofComponents cs)) (Path.ofComponents cs).steps =
        .ok (.found middle) ∧
      d.chase left middle (names.map .into) = .ok landing := by
  rw [chase_names h hne] at hchase
  obtain ⟨used, left, middle, hlinks, hfound, hbehind⟩ := chase_split hchase (by simpa using hnames)
  exact ⟨used, left, middle, hlinks, (chase_steps h.of_append hne used).trans hfound, hbehind⟩

theorem chase_names_append {used left : Nat}
    (hfound : d.chase used (origin d.cwd (.ofComponents cs)) (Path.ofComponents cs).steps =
      .ok (.found place))
    (hbehind : d.chase left place (names.map .into) = .ok landing) :
    d.chase (used + left) (origin d.cwd (.ofComponents (cs ++ names.map .name)))
        (Path.ofComponents (cs ++ names.map .name)).steps = .ok landing ∧
      d.way (used + left) (origin d.cwd (.ofComponents (cs ++ names.map .name)))
          (Path.ofComponents (cs ++ names.map .name)).steps =
        d.way used (origin d.cwd (.ofComponents cs)) (Path.ofComponents cs).steps ++
          d.way left place (names.map .into) := by
  have hsteps : names.map Step.into ≠ [] := by simpa using hnames
  rw [chase_names h hne, way_names h hne, way_steps h.of_append hne]
  rw [chase_steps h.of_append hne] at hfound
  exact ⟨chase_append hfound hbehind hsteps, way_append hfound hbehind hsteps⟩

/-- Where a path is located, its ancestors are. -/
theorem exists_locate (hlocate : d.locate (.ofComponents (cs ++ names.map .name)) = .ok place) :
    ∃ middle, d.locate (.ofComponents cs) = .ok middle ∧
      d.chase maxLinks middle (names.map .into) = .ok (.found place) := by
  obtain ⟨hstart, hflaw, hchase, hfits⟩ := locate_iff.mp hlocate
  obtain ⟨used, left, middle, hlinks, hfound, hbehind⟩ := chase_names_split h hne hnames hchase
  have hway := (chase_names_append h hne hnames hfound hbehind).2
  rw [hlinks, hway] at hfits
  rw [h.isAbsolute_append hne] at hstart
  rw [h.flaw?_eq_none_iff (by simp [hne])] at hflaw
  refine ⟨middle, locate_iff.mpr ⟨hstart, ?_, ?_, ?_⟩, chase_mono hbehind ?_⟩
  · exact (h.of_append.flaw?_eq_none_iff hne).mpr fun c hc => hflaw c (List.mem_append_left _ hc)
  · exact chase_mono hfound (by omega)
  · rw [way_mono hfound (by omega : used ≤ maxLinks)]
    exact fun entered hentered => hfits entered (List.mem_append_left _ hentered)
  · omega

end Behind

namespace Anchors

variable {found : List Component} {init rest : List String}
  (h : d.Anchors p.normalComponents found place rest)

include h

theorem areSpelt (hinit : init <+: rest) : Path.AreSpelt (found ++ init.map Component.name) := by
  obtain ⟨behind, rfl⟩ := hinit
  have hspelt := p.areSpelt_normalComponents
  rw [h.split, List.map_append, ← List.append_assoc] at hspelt
  exact hspelt.of_append

theorem isName (hinit : init <+: rest) : ∀ name ∈ init, Path.IsName name := fun _ hname =>
  (h.areSpelt hinit).isName (List.mem_append_right found (List.mem_map_of_mem hname))

theorem isName_append (hreached : d.Reached place) : ∀ name ∈ place ++ rest, Path.IsName name :=
  List.forall_mem_append.mpr ⟨hreached.isName, h.isName List.prefix_rfl⟩

end Anchors

/-! ### Normal forms of directories -/

/-- Directories on the way to a directory are at the same places where directories and links are
kept. -/
theorem Frame.locate_iff_of_dir (h : Frame d d') (hne : cs ≠ [])
    (hspelt : Path.AreSpelt (cs ++ names.map .name)) (hdir : d.node? place = some .dir)
    (hchase : d.chase maxLinks (origin d.cwd (.ofComponents (cs ++ names.map .name)))
      (Path.ofComponents (cs ++ names.map .name)).steps = .ok (.found place)) :
    d'.locate (.ofComponents cs) = .ok other ↔ d.locate (.ofComponents cs) = .ok other := by
  obtain ⟨middle, hmiddle, hfound⟩ : ∃ middle, d.node? middle = some .dir ∧
      d.chase maxLinks (origin d.cwd (.ofComponents cs)) (Path.ofComponents cs).steps =
        .ok (.found middle) := by
    cases names with
    | nil =>
        rw [List.map_nil, List.append_nil] at hchase
        exact ⟨place, hdir, hchase⟩
    | cons first rest =>
        obtain ⟨used, left, middle, hlinks, hfound, hbehind⟩ :=
          chase_names_split hspelt hne (List.cons_ne_nil first rest) hchase
        obtain ⟨progress, hadvance⟩ := exists_advance_of_chase hbehind
        exact ⟨middle, node?_of_advance hadvance, chase_mono hfound (by omega)⟩
  have hspares : Spares d d' (.found middle) := fun _ _ hfile => by
    cases hmiddle.symm.trans hfile
  rw [locate_iff, locate_iff, h.removed_eq, h.cwd_eq, hfound, h.chase hfound hspares,
    h.way hfound hspares]

/-- A directory keeps its normal form. -/
theorem Frame.normalize (h : Frame d d') (hdir : d.isDir p.normal) :
    d'.normalize p = d.normalize p := by
  by_cases hnowhere : d.removed ≠ 0 ∧ p.isAbsolute = false
  · rw [normalize_of_removed hnowhere.1 hnowhere.2,
      normalize_of_removed (h.removed_eq ▸ hnowhere.1) hnowhere.2]
  · rcases isDir_iff.mp hdir with hlook | ⟨place, hlook, hnode⟩
    · obtain ⟨hremoved, hrelative, -⟩ := of_follow_removed hlook
      exact absurd ⟨hremoved, p.isAbsolute_normal ▸ hrelative⟩ hnowhere
    · have hstart : p.normal.isAbsolute = true ∨ d.removed = 0 := by
        rw [Path.isAbsolute_normal]
        rcases not_and_or.mp hnowhere with hremoved | hrelative
        · exact .inr (not_not.mp hremoved)
        · exact .inl (by simpa using hrelative)
      rw [look_eq (refusal?_of_follow hlook) hstart] at hlook
      refine normalize_congr fun ancestor rest hsplit other => ?_
      by_cases hne : ancestor = []
      · obtain ⟨e, hlost⟩ := d.locate_nil
        obtain ⟨e', hlost'⟩ := d'.locate_nil
        rw [hne, hlost, hlost']
        exact iff_of_false nofun nofun
      · have hspelt := p.areSpelt_normalComponents
        rw [Path.normal, hsplit] at hlook
        rw [hsplit] at hspelt
        exact h.locate_iff_of_dir hne hspelt hnode hlook

/-! ### Normal forms of what stands below -/

/-- A path that is its own normal form is its own lexical normal form. -/
theorem IsTree.normalComponents_of_normalize (htree : d.IsTree) (hself : d.normalize p = p) :
    p.normalComponents = p.components := by
  rcases d.exists_anchors p.normalComponents with ⟨found, top, rest, hanchors⟩ | ⟨-, hnone⟩
  · have hnames := hanchors.isName_append (htree.reached_of_locate hanchors.located)
    rw [← hself, hanchors.normalize_eq rfl, Path.normalComponents_absolute hnames,
      Path.components_absolute hnames]
  · have hnormal := normalize_of_anchor?_eq_none (hnone [])
    rw [← Path.components_normal, ← hnormal, hself]

/-- If something that stands below a path is located by its names, so is the path, and what stands
below is where the names say. -/
theorem IsTree.of_locate_below (htree : d.IsTree) (hplain : p.IsPlain)
    (hp : d.resolve p = .ok place) {node : Node} (hnode : d.node? (place ++ names) = some node)
    (hlink : ¬ node.IsLink) (hspelt : Path.AreSpelt (p.components ++ names.map .name))
    (hlocate : d.locate (.ofComponents (p.components ++ names.map .name)) = .ok other) :
    d.locate p = .ok place ∧ other = place ++ names := by
  have hplace {middle : Place} (hmiddle : d.locate p = .ok middle) : middle = place := by
    obtain ⟨hstart, -, hchase, -⟩ := locate_iff.mp hmiddle
    cases ((resolve_iff hstart).mp hp).2.symm.trans hchase
    rfl
  cases names with
  | nil =>
      rw [List.map_nil, List.append_nil, hplain] at hlocate
      obtain rfl := hplace hlocate
      exact ⟨hlocate, (List.append_nil _).symm⟩
  | cons first rest =>
      have hne : p.components ≠ [] := by
        intro hnil
        rw [← hplain, hnil] at hp
        contradiction
      obtain ⟨middle, hmiddle, hchase⟩ :=
        exists_locate hspelt hne (List.cons_ne_nil first rest) hlocate
      rw [hplain] at hmiddle
      obtain rfl := hplace hmiddle
      cases (chase_of_found (htree.advance_names hnode hlink)).symm.trans hchase
      exact ⟨hmiddle, rfl⟩

/-- What stands below a normal path has the names on the way to it attached to the path for its
normal form. -/
theorem IsTree.normalize_below (htree : d.IsTree) (hself : d.normalize p = p)
    (hp : d.resolve p = .ok place) {node : Node} (hnode : d.node? (place ++ names) = some node)
    (hlink : ¬ node.IsLink) :
    d.normalize (names.foldl Path.child p) = p.below names := by
  have hnames : ∀ name ∈ names, Path.IsName name := fun name hname =>
    htree.isName hnode name (List.mem_append_right place hname)
  have hcomponents := htree.normalComponents_of_normalize hself
  have hplain : p.IsPlain := hself ▸ htree.isPlain_normalize p
  have hbelow := Path.normalComponents_foldl_child hnames p
  rw [hcomponents] at hbelow
  rcases d.exists_anchors (names.foldl Path.child p).normalComponents with
    ⟨found, top, rest, hanchors⟩ | ⟨-, hnone⟩
  · have hreached := htree.reached_of_locate hanchors.located
    have hsplit := hanchors.split
    rw [hbelow] at hsplit
    rw [hanchors.normalize_eq rfl, Path.below]
    rcases List.append_eq_append_iff.mp hsplit with ⟨behind, rfl, hrest⟩ | ⟨behind, hfound, hrest⟩
    · -- The path itself is located, and what stands below it goes on from its place.
      obtain ⟨init, others, rfl, rfl, hothers⟩ := List.map_eq_append_iff.mp hrest
      obtain rfl := (List.map_inj_right fun _ _ => Component.name.inj).mp hothers
      obtain ⟨between, hbetween, hnot⟩ : ∃ between, d.node? (place ++ init) = some between ∧
          ¬ between.IsLink := by
        rw [← List.append_assoc] at hnode
        by_cases hne : others = []
        · rw [hne, List.append_nil] at hnode
          exact ⟨node, hnode, hlink⟩
        · exact ⟨.dir, htree.isDir_of_append hne hnode, Node.not_isLink_dir⟩
      have hspelt := hanchors.areSpelt List.nil_prefix
      rw [List.map_nil, List.append_nil] at hspelt
      obtain ⟨hlocated, rfl⟩ :=
        htree.of_locate_below hplain hp hbetween hnot hspelt hanchors.located
      have hnormal : d.normalize p = .absolute place :=
        normalize_of_locate (by rwa [Path.normal, hcomponents, hplain])
      have hbefore : ∀ name ∈ place, Path.IsName name := fun name hname =>
        hreached.isName name (List.mem_append_left init hname)
      rw [hself] at hnormal
      rw [hnormal, Path.components_absolute hbefore, List.cons_append, ← List.map_append,
        ← Path.absolute_eq, List.append_assoc]
    · -- The path and what stands below it have the same longest ancestor.
      obtain ⟨init, others, rfl, rfl, hothers⟩ := List.map_eq_append_iff.mp hrest
      obtain rfl := (List.map_inj_right fun _ _ => Component.name.inj).mp hothers
      have hself' : d.Anchors p.normalComponents found top init :=
        ⟨hcomponents.trans hfound, hanchors.located, fun shorter hshorter =>
          hanchors.lost shorter (hshorter.trans (List.prefix_append init _))⟩
      rw [hself'.normalize_eq rfl] at hself
      have hbefore := hself'.isName_append hreached
      rw [← hself, Path.components_absolute hbefore, List.cons_append, ← List.map_append,
        ← Path.absolute_eq, List.append_assoc]
  · rw [normalize_of_anchor?_eq_none (hnone []), Path.normal, hbelow, Path.below]

end Disk

end Workbench
