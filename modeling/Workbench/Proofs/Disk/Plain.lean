import Workbench.Proofs.Disk.Child
import Workbench.Proofs.Disk.Normal

/-!
Disks without symbolic links. On such a disk the way of a look-up is the one that is written: a path
leads where its components say, and so does its lexical normal form. An absolute path has the same
normal form whatever of it is there.
-/

namespace Workbench

/-- Where a step goes from a place, if nothing there is a link. -/
def Step.goes (place : Place) : Step → Place
  | .stay => place
  | .up => place.dropLast
  | .into name => place ++ [name]

/-- Where components lead from a place, if nothing on the way is a link. -/
def Place.along (place : Place) (cs : List Component) : Place :=
  (cs.filterMap Component.step?).foldl Step.goes place

namespace Place

variable {place : Place}

theorem along_append (place : Place) (cs ds : List Component) :
    along place (cs ++ ds) = along (along place cs) ds := by
  rw [along, List.filterMap_append, List.foldl_append]
  rfl

theorem along_names (place : Place) (names : List String) :
    along place (names.map .name) = place ++ names := by
  induction names generalizing place with
  | nil => exact (List.append_nil place).symm
  | cons name rest ih =>
      rw [List.map_cons, ← List.singleton_append, along_append, ih]
      exact List.append_assoc place [name] rest

theorem along_root_names (place : Place) (names : List String) :
    along place (.root :: names.map .name) = place ++ names := along_names place names

theorem foldl_goes_moves (place : Place) (steps : List Step) :
    (Disk.moves steps).foldl Step.goes place = steps.foldl Step.goes place := by
  induction steps generalizing place with
  | nil => rfl
  | cons step rest ih => cases step <;> exact ih _

theorem foldl_goes_steps (place : Place) (p : Path) :
    p.steps.foldl Step.goes place = along place p.components := by
  rw [← foldl_goes_moves, Disk.moves_steps]
  rfl

/-- A step of the lexical normal form leads where the component says. At the root, where an absolute
path begins, `..` leads nowhere else. -/
theorem along_normalStep {isAbsolute : Bool} {stack : List Component}
    (habsolute : isAbsolute = true → place = [] ∧ ∀ c ∈ stack, ∃ name, c = .name name)
    (c : Component) : along place (Path.normalStep isAbsolute stack c).reverse =
      along place (stack.reverse ++ [c]) := by
  cases c with
  | root => exact (along_append place stack.reverse [.root]).symm
  | current => exact (along_append place stack.reverse [.current]).symm
  | name text => rw [Path.normalStep, List.reverse_cons]
  | parent =>
      simp only [Path.normalStep]
      split
      case h_1 last rest =>
        rw [List.reverse_cons, List.append_assoc, along_append place rest.reverse]
        exact List.dropLast_concat.symm
      case h_2 hnot =>
        split
        case isTrue hroot =>
          obtain ⟨rfl, hnames⟩ := habsolute hroot
          cases stack with
          | nil => rfl
          | cons first rest =>
              obtain ⟨name, rfl⟩ := hnames first List.mem_cons_self
              exact absurd rfl (hnot name rest)
        case isFalse => rw [List.reverse_cons]

theorem along_foldl_normalStep {isAbsolute : Bool} {stack cs : List Component}
    (habsolute : isAbsolute = true → place = [] ∧ ∀ c ∈ stack, ∃ name, c = .name name) :
    along place (cs.foldl (Path.normalStep isAbsolute) stack).reverse =
      along place (stack.reverse ++ cs) := by
  induction cs generalizing stack with
  | nil => simp
  | cons c rest ih =>
      have hstack : isAbsolute = true → place = [] ∧
          ∀ c' ∈ Path.normalStep isAbsolute stack c, ∃ name, c' = .name name := by
        intro hroot
        obtain ⟨hplace, hnames⟩ := habsolute hroot
        refine ⟨hplace, fun c' hc' => ?_⟩
        cases c with
        | root => exact hnames c' hc'
        | current => exact hnames c' hc'
        | name text =>
            rcases List.mem_cons.mp hc' with rfl | hc'
            · exact ⟨text, rfl⟩
            · exact hnames c' hc'
        | parent =>
            simp only [Path.normalStep] at hc'
            split at hc'
            · exact hnames c' (List.mem_cons_of_mem _ hc')
            · rw [if_pos hroot] at hc'
              exact hnames c' hc'
      rw [List.foldl_cons, ih hstack, List.append_cons, along_append, along_append place,
        along_normalStep habsolute]

/-- The lexical normal form leads where the path does. -/
theorem along_normalComponents {p : Path} (habsolute : p.isAbsolute = true → place = []) :
    along place p.normalComponents = along place p.components := by
  have hfold : along place (p.components.foldl (Path.normalStep p.isAbsolute) []).reverse =
      along place p.components :=
    along_foldl_normalStep fun hroot => ⟨habsolute hroot, List.forall_mem_nil _⟩
  rw [Path.normalComponents]
  split
  · exact hfold
  · exact hfold

end Place

namespace Disk

/-- No entry of the disk is a symbolic link. -/
def LinkFree (d : Disk) : Prop :=
  ∀ (place : Place) (node : Node), d.nodes[place]? = some node → ¬ node.IsLink

instance (d : Disk) : Decidable d.LinkFree :=
  decidable_of_iff (∀ entry ∈ d.nodes.toList, ¬ entry.2.IsLink)
    ⟨fun h place node hnode =>
      h (place, node) (Std.ExtTreeMap.mem_toList_iff_getElem?_eq_some.mpr hnode),
      fun h _ hentry => h _ _ (Std.ExtTreeMap.mem_toList_iff_getElem?_eq_some.mp hentry)⟩

variable {d : Disk} {p : Path} {place : Place}

namespace LinkFree

variable (hd : d.LinkFree)

include hd

theorem not_isLink {node : Node} (hnode : d.node? place = some node) : ¬ node.IsLink := by
  by_cases hplace : place = []
  · subst hplace
    cases hnode
    exact Node.not_isLink_dir
  · rw [node?_of_ne_nil _ hplace] at hnode
    exact hd _ _ hnode

/-- Without links a look-up goes where its steps say. -/
theorem advance {steps : List Step} {progress : Progress}
    (h : d.advance place steps = .ok progress) :
    progress = .found (steps.foldl Step.goes place) ∨
      progress = .vacant (steps.foldl Step.goes place) := by
  induction steps generalizing place with
  | nil =>
      cases h
      exact .inl rfl
  | cons step rest ih =>
      have hdir := node?_of_advance h
      cases step with
      | stay =>
          rw [advance_stay hdir] at h
          exact ih h
      | up =>
          rw [advance_up hdir] at h
          exact ih h
      | into name =>
          obtain ⟨-, -, ⟨-, rfl, rfl⟩ | ⟨target, hlink, -⟩ | ⟨node, -, -, hbehind⟩⟩ :=
            advance_into_iff.mp h
          · exact .inr rfl
          · exact absurd ⟨target, rfl⟩ (hd.not_isLink hlink)
          · exact ih hbehind

theorem chase {links : Nat} {steps : List Step} {found : Place}
    (h : d.chase links place steps = .ok (.found found)) :
    found = steps.foldl Step.goes place := by
  obtain ⟨_, hadvance, heq⟩ | ⟨_, -, heq⟩ | ⟨_, dir, target, rest, -, hadvance, -⟩ := of_chase h
  · cases heq
    rcases hd.advance hadvance with heq | heq
    · cases heq
      rfl
    · contradiction
  · contradiction
  · rcases hd.advance hadvance with heq | heq <;> contradiction

/-- A path leads where its lexical normal form does: an absolute one from the root, and a relative
one from the working directory. -/
theorem eq_along {links : Nat}
    (h : d.chase links (origin d.cwd p) p.steps = .ok (.found place)) :
    place = Place.along (origin d.cwd p) p.normalComponents := by
  have habsolute : p.isAbsolute = true → origin d.cwd p = [] := fun hroot => if_pos hroot
  rw [Place.along_normalComponents habsolute, ← Place.foldl_goes_steps]
  exact hd.chase h

/-- What is located of a path that goes from name to name is where it says. -/
theorem locate_names {names : List String} (hnames : ∀ name ∈ names, Path.IsName name)
    (h : d.locate (.absolute names) = .ok place) : place = names := by
  have hplace := hd.eq_along (chase_of_locate h)
  rwa [origin, if_pos (Path.isAbsolute_absolute names), Path.normalComponents_absolute hnames,
    Place.along_root_names, List.nil_append] at hplace

/-- The normal form of an absolute path is the lexical one, whatever of the path is there. -/
theorem normalize_of_isAbsolute (hp : p.isAbsolute) :
    ∃ names : List String, (∀ name ∈ names, Path.IsName name) ∧
      p.normalComponents = .root :: names.map .name ∧ d.normalize p = .absolute names := by
  obtain ⟨names, hnames, heq⟩ := Path.normalComponents_of_isAbsolute hp
  refine ⟨names, hnames, heq, ?_⟩
  have hanchor : d.anchor? (Component.root :: names.map Component.name).reverse [] =
      some (.absolute (names ++ [])) := by
    refine (anchor?_eq_self_iff hnames (List.forall_mem_nil _)).mpr fun init hinit place hplace => ?_
    exact hd.locate_names (fun name hname => hnames name (hinit.subset hname)) hplace
  rw [Disk.normalize, heq, hanchor, Option.getD_some, List.append_nil]

theorem normalize (hp : p.IsNormal) : (d.normalize p).components = p.components := by
  obtain ⟨names, hnames, heq, hnormal⟩ := hd.normalize_of_isAbsolute hp.1
  rw [hnormal, Path.components_absolute hnames, ← heq, hp.2]

end LinkFree

end Disk

end Workbench
