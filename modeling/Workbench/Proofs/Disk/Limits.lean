import Workbench.Proofs.Disk.Ancestors

/-!
Normal forms of normal forms, and the limit of links. A normal form is the place of the longest
ancestor that is located and the names behind it. Looked up again these names are not located
either, unless there is a link among them that the disk refused to follow only because there were
too many links on the whole way: from the place of the ancestor there are fewer.
-/

namespace Workbench.Disk

variable {d : Disk} {p : Path} {place other : Place} {found : List Component}
  {init rest : List String}

/-! ### More links -/

/-- Where a look-up ends it ends with any number of links, or the number is too small. -/
theorem chase_eq_or_tooManyLinks {links : Nat} {steps : List Step} {landing : Landing}
    (h : d.chase links place steps = .ok landing) (others : Nat) :
    d.chase others place steps = .ok landing ∨
      d.chase others place steps = .error .tooManyLinks := by
  induction links using Nat.strongRecOn generalizing others place steps with
  | ind links ih =>
      obtain ⟨end_, hadvance, rfl⟩ | ⟨free, hadvance, rfl⟩ |
        ⟨fewer, dir, target, left, rfl, hadvance, hbehind⟩ := of_chase h
      · exact .inl (chase_of_found hadvance)
      · exact .inl (chase_of_vacant hadvance)
      · cases others with
        | zero =>
            right
            rw [chase.eq_def]
            simp only [hadvance]
        | succ others =>
            rw [chase_of_detour hadvance]
            exact ih fewer (Nat.lt_succ_self fewer) hbehind others

/-- Where a look-up fails, nothing is located. -/
theorem locate_of_chase_error (hstart : p.isAbsolute = true ∨ d.removed = 0)
    (hflaw : p.flaw? = none) {e : DiskError}
    (h : d.chase maxLinks (origin d.cwd p) p.steps = .error e) : d.locate p = .error e := by
  rw [locate, if_neg (by rcases hstart with habsolute | hremoved <;> simp [*]), hflaw, h]

/-! ### Looking up the normal form -/

/-- From a reached place one gets where one gets by its names and some more, and enters the places
on the way to it before. -/
theorem Reached.chase_names (h : d.Reached place) (hinit : ∀ name ∈ init, Path.IsName name)
    (hne : init ≠ []) (links : Nat) :
    d.chase links [] (Path.absolute (place ++ init)).steps =
        d.chase links place (init.map .into) ∧
      d.way links [] (Path.absolute (place ++ init)).steps =
        d.entered [] (place.map .into) ++ d.way links place (init.map .into) := by
  have hplace := h.advance_append (d.advance_nil place)
  rw [List.append_nil] at hplace
  have hsteps : init.map Step.into ≠ [] := by simpa using hne
  have hadvance : d.advance [] (Path.absolute (place ++ init)).steps =
      d.advance place (init.map .into) := by
    rw [Path.absolute_eq, Path.steps_names (List.forall_mem_append.mpr ⟨h.isName, hinit⟩),
      if_neg (by simp [hne]), List.map_append, advance_stay d.node?_nil,
      d.advance_append [] _ hsteps, hplace]
  have hentered : d.entered [] (Path.absolute (place ++ init)).steps =
      d.entered [] (place.map .into) ++ d.entered place (init.map .into) := by
    rw [Path.absolute_eq, Path.steps_names (List.forall_mem_append.mpr ⟨h.isName, hinit⟩),
      if_neg (by simp [hne]), List.map_append, entered_stay, entered_append_of_found hplace]
  exact ⟨chase_congr hadvance links, way_congr hadvance hentered⟩

/-- A path that leads somewhere, but over more links than are followed. -/
def Exceeds (d : Disk) (q : Path) : Prop :=
  (∃ links place, d.chase links (origin d.cwd q) q.steps = .ok (.found place)) ∧
    d.locate q = .error .tooManyLinks

/-- From the place of the longest ancestor that is found, some of the names behind it lead
elsewhere. -/
def Overruns (d : Disk) (p : Path) : Prop :=
  ∃ found place rest, d.Anchors p.normalComponents found place rest ∧
    ∃ init other, init <+: rest ∧ d.locate (.absolute (place ++ init)) = .ok other ∧
      other ≠ place ++ init

namespace Anchors

variable (h : d.Anchors p.normalComponents found place rest)

include h

theorem flaw?_append (hfound : (Path.ofComponents found).flaw? = none)
    (hbehind : (Path.absolute (place ++ init)).flaw? = none) (hinit : init <+: rest) :
    (Path.ofComponents (found ++ init.map .name)).flaw? = none := by
  have hspelt := h.areSpelt hinit
  have hcut := (Path.flaw?_eq_none.mp hbehind).1
  rw [Path.absolute_eq, Path.mem_ofComponents_iff (by decide)] at hcut
  rw [hspelt.of_append.flaw?_eq_none_iff h.ancestor_ne_nil] at hfound
  rw [hspelt.flaw?_eq_none_iff (by simp [h.ancestor_ne_nil])]
  refine List.forall_mem_append.mpr ⟨hfound, fun c hc hchar => hcut ⟨c, ?_, hchar⟩⟩
  rw [List.map_append]
  exact List.mem_cons_of_mem _ (List.mem_append_right _ hc)

/-- A path with names on it that are located behind its longest ancestor has too many links on its
way. -/
theorem exceeds (hreached : d.Reached place) (hinit : init <+: rest) (hne : init ≠ [])
    (hlocate : d.locate (.absolute (place ++ init)) = .ok other) :
    d.Exceeds (.ofComponents (found ++ init.map .name)) := by
  have hspelt := h.areSpelt hinit
  obtain ⟨hstart, hflaw, hfound, hfits⟩ := locate_iff.mp h.located
  obtain ⟨-, hflawBehind, hbehind, hfitsBehind⟩ := locate_iff.mp hlocate
  obtain ⟨hchase, hway⟩ := hreached.chase_names (h.isName hinit) hne maxLinks
  rw [origin, if_pos (Path.isAbsolute_absolute _)] at hbehind hfitsBehind
  rw [hchase] at hbehind
  rw [hway] at hfitsBehind
  obtain ⟨hleads, hwhole⟩ := chase_names_append hspelt h.ancestor_ne_nil hne hfound hbehind
  rw [← hspelt.isAbsolute_append h.ancestor_ne_nil] at hstart
  have hflawWhole := h.flaw?_append hflaw hflawBehind hinit
  refine ⟨⟨_, other, hleads⟩, ?_⟩
  rcases chase_eq_or_tooManyLinks hleads maxLinks with heq | heq
  · -- The way fits because its two parts do, so the path would be located.
    rw [way_mono heq (Nat.le_add_right maxLinks maxLinks)] at hwhole
    obtain ⟨e, hlost⟩ := h.lost init hinit hne
    have hlocated : d.locate (.ofComponents (found ++ init.map .name)) = .ok other := by
      refine locate_iff.mpr ⟨hstart, hflawWhole, heq, fun entered hentered => ?_⟩
      rw [hwhole] at hentered
      rcases List.mem_append.mp hentered with hentered | hentered
      · exact hfits entered hentered
      · exact hfitsBehind entered (List.mem_append_right _ hentered)
    cases hlost.symm.trans hlocated
  · exact locate_of_chase_error hstart hflawWhole heq

/-- The normal form remains just if no names behind the ancestor lead elsewhere from its place. -/
theorem normalize_twice_iff (hreached : d.Reached place) :
    d.normalize (d.normalize p) = d.normalize p ↔ ∀ init, init <+: rest → ∀ other,
      d.locate (.absolute (place ++ init)) = .ok other → other = place ++ init := by
  rw [h.normalize_eq rfl, normalize_absolute_iff (h.isName_append hreached)]
  constructor
  · exact fun hall init hinit => hall _ ((List.prefix_append_right_inj place).mpr hinit)
  · intro hbehind names hbegin other hother
    rcases List.prefix_or_prefix_of_prefix hbegin (List.prefix_append place rest) with
      hbefore | ⟨init, rfl⟩
    · exact (hreached.of_prefix hbefore).eq_of_locate hother
    · exact hbehind init ((List.prefix_append_right_inj place).mp hbegin) other hother

end Anchors

theorem Overruns.exceeds (htree : d.IsTree) (h : d.Overruns p) :
    ∃ cs, cs <+: p.normalComponents ∧ d.Exceeds (.ofComponents cs) := by
  obtain ⟨found, place, rest, hanchors, init, other, hinit, hlocate, hother⟩ := h
  have hreached := htree.reached_of_locate hanchors.located
  have hne : init ≠ [] := by
    rintro rfl
    rw [List.append_nil] at hlocate hother
    exact hother (hreached.eq_of_locate hlocate)
  refine ⟨found ++ init.map Component.name, ?_, hanchors.exceeds hreached hinit hne hlocate⟩
  rw [hanchors.split]
  exact (List.prefix_append_right_inj found).mpr (hinit.map Component.name)

/-- Normal forms have no `.`, and those of absolute paths are absolute and have no `..`. Paths with
one lexical normal form have one normal form. The normal form of a normal form is that form, unless
some ancestor of the path leads somewhere, but over too many links, so that it is taken for missing
until it is looked up from the place of the ancestor before it. -/
theorem normalize_normalize_iff (h : d.IsTree) (p : Path) :
    (d.normalize (d.normalize p) = d.normalize p ↔ ¬ d.Overruns p) ∧
      (d.Overruns p → ∃ cs, cs <+: p.normalComponents ∧ d.Exceeds (.ofComponents cs)) ∧
      Component.current ∉ (d.normalize p).components ∧
      (p.isAbsolute = true → (d.normalize p).isAbsolute = true ∧
        Component.parent ∉ (d.normalize p).components) ∧
      ∀ q : Path, q.normal = p.normal → d.normalize q = d.normalize p := by
  refine ⟨?_, Overruns.exceeds h, ?_, fun hp => ?_, fun q hq => ?_⟩
  · rcases d.exists_anchors p.normalComponents with ⟨found, place, rest, hanchors⟩ | ⟨-, hnone⟩
    · have hreached := h.reached_of_locate hanchors.located
      constructor
      · rintro hsame ⟨found', place', rest', hanchors', init, other, hinit, hlocate, hother⟩
        have hreached' := h.reached_of_locate hanchors'.located
        exact hother ((hanchors'.normalize_twice_iff hreached').mp hsame init hinit _ hlocate)
      · intro hnot
        refine (hanchors.normalize_twice_iff hreached).mpr fun init hinit other hlocate => ?_
        by_contra hother
        exact hnot ⟨found, place, rest, hanchors, init, other, hinit, hlocate, hother⟩
    · refine iff_of_true ?_ ?_
      · rw [normalize_of_anchor?_eq_none (hnone []), normalize_of_anchor?_eq_none,
          Path.normal_normal]
        rw [Path.normalComponents_normal, hnone]
      · rintro ⟨found, place, rest, hanchors, -⟩
        cases (hnone []).symm.trans (hanchors.anchor?_eq [])
  · rcases d.exists_anchors p.normalComponents with ⟨found, place, rest, hanchors⟩ | ⟨-, hnone⟩
    · have hreached := h.reached_of_locate hanchors.located
      rw [hanchors.normalize_eq rfl, Path.components_absolute (hanchors.isName_append hreached)]
      simp
    · rw [normalize_of_anchor?_eq_none (hnone []), Path.components_normal]
      exact p.areSpelt_normalComponents.current_not_mem
  · obtain ⟨names, hnames, heq⟩ := d.exists_names_normalize hp
    rw [heq, Path.components_absolute hnames]
    exact ⟨Path.isAbsolute_absolute names, by simp⟩
  · rw [normalize, normalize, Path.normalComponents_eq_iff.mpr hq, hq]

/-! Links that go twice over the one before, from a link to its own directory on, so that a way of
two names may go over 47 links; and links to nothing and in a circle. -/

def linkedTree : Disk where
  nodes := .ofList
    [(["here"], .link "."), (["two"], .link "here/here"), (["four"], .link "two/two"),
      (["eight"], .link "four/four"), (["sixteen"], .link "eight/eight"),
      (["first"], .link "eight/last"), (["last"], .file ⟨[]⟩ 0),
      (["lost"], .link "nowhere/else"), (["circle"], .link "here/circle")]
    Place.order
  cwd := []

theorem normalize_normalize_iff_linked :
    linkedTree.IsTree ∧ ¬ linkedTree.Overruns ⟨"here/circle/./lost"⟩ ∧
      linkedTree.Overruns ⟨"/sixteen/first"⟩ ∧
        ∃ cs, cs <+: (Path.mk "/sixteen/first").normalComponents ∧
          linkedTree.Exceeds (.ofComponents cs) := by
  have htree : linkedTree.IsTree := by decide +kernel
  have hsame : linkedTree.normalize (linkedTree.normalize ⟨"here/circle/./lost"⟩) =
      linkedTree.normalize ⟨"here/circle/./lost"⟩ := by decide +kernel
  have hother : linkedTree.normalize (linkedTree.normalize ⟨"/sixteen/first"⟩) ≠
      linkedTree.normalize ⟨"/sixteen/first"⟩ := by decide +kernel
  have hcircle := (normalize_normalize_iff htree ⟨"here/circle/./lost"⟩).1.mp hsame
  have hwinding : linkedTree.Overruns ⟨"/sixteen/first"⟩ :=
    not_not.mp (mt (normalize_normalize_iff htree ⟨"/sixteen/first"⟩).1.mpr hother)
  exact ⟨htree, hcircle, hwinding, (normalize_normalize_iff htree ⟨"/sixteen/first"⟩).2.1 hwinding⟩

/-- With 47 links on its way a file is taken for missing, and with 16 it is found. -/
theorem not_normalize_normalize : ¬ ∀ (d : Disk) (p : Path), d.IsTree →
    d.normalize (d.normalize p) = d.normalize p := by
  intro h
  have htree : linkedTree.IsTree := by decide +kernel
  have hfirst : linkedTree.normalize ⟨"/sixteen/first"⟩ = ⟨"/first"⟩ := by decide +kernel
  have hsecond : linkedTree.normalize ⟨"/first"⟩ = ⟨"/last"⟩ := by decide +kernel
  have hsame := h linkedTree ⟨"/sixteen/first"⟩ htree
  rw [hfirst, hsecond] at hsame
  exact absurd hsame (by decide)

end Workbench.Disk
