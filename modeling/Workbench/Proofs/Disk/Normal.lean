import Mathlib.Data.List.Induction
import Workbench.Proofs.Disk.Way
import Workbench.Proofs.Path.Lexical

/-!
Paths that are their own normal forms. What a look-up reaches from the root stands where its names
say, so a path is its own normal form just if whatever of it is there is where it says. Such a path
is its own normal form also on a disk with less on it.
-/

namespace Workbench

namespace Path

theorem ofPiece_of_isName {name : String} (h : IsName name) : Step.ofPiece name = .into name := by
  obtain ⟨hempty, hpoint, hup⟩ := h.stepName
  rw [Step.ofPiece]
  · exact hempty
  · exact hpoint
  · exact hup

theorem map_ofPiece {names : List String} (h : ∀ name ∈ names, IsName name) :
    names.map Step.ofPiece = names.map Step.into :=
  List.map_congr_left fun name hname => ofPiece_of_isName (h name hname)

theorem isInner_names {names : List String} (h : ∀ name ∈ names, IsName name) :
    ∀ c ∈ names.map Component.name, IsInner c := by
  intro c hc
  obtain ⟨name, hname, rfl⟩ := List.mem_map.mp hc
  exact h name hname

/-- The way of a path that goes from name to name. -/
theorem steps_names {names : List String} (h : ∀ name ∈ names, IsName name) :
    (ofComponents (.root :: names.map .name)).steps =
      .stay :: if names = [] then [.stay] else names.map .into := by
  rw [steps, ofComponents, pieces_separator_append, List.map_cons]
  cases names with
  | nil => rfl
  | cons first rest =>
      rw [pieces_texts (isInner_names h) (by simp), List.map_map]
      have hmap : ((first :: rest).map Component.name).map (Step.ofPiece ∘ Component.text) =
          (first :: rest).map Step.into := by
        rw [List.map_map]
        exact map_ofPiece h
      rw [hmap, if_neg (by simp)]
      rfl

theorem absolute_eq (names : List String) :
    absolute names = ofComponents (.root :: names.map .name) := by
  rw [absolute, ofComponents, List.map_map]
  simp [Function.comp_def, Component.text]

theorem isName_of_mem_steps {p : Path} {name : String} (h : Step.into name ∈ p.steps) :
    IsName name := by
  obtain ⟨piece, hpiece, heq⟩ := List.mem_map.mp h
  have hseparator := not_mem_of_mem_pieces hpiece
  rw [Step.ofPiece.eq_def] at heq
  split at heq
  case h_1 => cases heq
  case h_2 => cases heq
  case h_3 => cases heq
  case h_4 hempty hpoint hup =>
    cases heq
    exact isName_iff.mpr ⟨⟨hempty, hpoint, hup⟩, hseparator⟩

theorem components_absolute {names : List String} (h : ∀ name ∈ names, IsName name) :
    (absolute names).components = .root :: names.map .name := by
  rw [absolute_eq, components_root (isInner_names h)]

theorem absolute_injective {names others : List String} (h : ∀ name ∈ names, IsName name)
    (hothers : ∀ name ∈ others, IsName name) (heq : absolute names = absolute others) :
    names = others := by
  have hcomponents := congrArg components heq
  rw [components_absolute h, components_absolute hothers, List.cons.injEq] at hcomponents
  exact (List.map_inj_right fun _ _ => Component.name.inj).mp hcomponents.2

theorem isAbsolute_absolute (names : List String) : (absolute names).isAbsolute :=
  isAbsolute_separator_append _

/-- A path from name to name is its own lexical normal form. -/
theorem normalComponents_absolute {names : List String} (h : ∀ name ∈ names, IsName name) :
    (absolute names).normalComponents = .root :: names.map .name := by
  rw [normalComponents, isAbsolute_absolute, components_absolute h, if_pos rfl, List.foldl_cons]
  change Component.root :: ((names.map Component.name).foldl (normalStep true) []).reverse = _
  rw [foldl_normalStep_names, List.append_nil, List.reverse_reverse]

end Path

namespace Disk

variable {d d' : Disk} {p : Path} {place found init : Place} {names rest : List String}
  {steps : List Step}

/-! ### Reached places -/

theorem locate_root (d : Disk) : d.locate (Path.ofComponents [.root]) = .ok [] := by
  have hsteps : (Path.ofComponents [.root]).steps = [.stay, .stay] := by decide
  have hadvance : d.advance [] [.stay, .stay] = .ok (.found []) := by
    rw [advance_stay rfl, advance_stay rfl, advance_nil]
  rw [locate_iff, hsteps, origin, if_pos (by decide), way_of_found hadvance]
  exact ⟨.inl (by decide), by decide, chase_of_found hadvance, List.forall_mem_nil _⟩

/-- The places that a look-up reaches from the root: from directory to directory by names. -/
inductive Reached (d : Disk) : Place → Prop where
  | root : Reached d []
  | into {place : Place} {name : String} {node : Node} (h : Reached d place)
      (hdir : d.node? place = some .dir) (hname : Path.IsName name)
      (hlength : name.utf8ByteSize ≤ maxNameBytes)
      (hnode : d.node? (place ++ [name]) = some node) (hlink : ¬ node.IsLink) :
      Reached d (place ++ [name])

namespace Reached

theorem dropLast (h : d.Reached place) : d.Reached place.dropLast := by
  cases h with
  | root => exact .root
  | into h => rwa [List.dropLast_concat]

theorem of_prefix (h : d.Reached place) (hinit : init <+: place) : d.Reached init := by
  induction h with
  | root =>
      rw [List.prefix_nil.mp hinit]
      exact .root
  | into h hdir hname hlength hnode hlink ih =>
      rcases List.prefix_concat_iff.mp hinit with rfl | hinit
      · exact .into h hdir hname hlength hnode hlink
      · exact ih hinit

theorem isName (h : d.Reached place) : ∀ name ∈ place, Path.IsName name := by
  induction h with
  | root => simp
  | into _ _ hname _ _ _ ih =>
      intro other hother
      rcases List.mem_append.mp hother with hbefore | hlast
      · exact ih other hbefore
      · exact List.mem_singleton.mp hlast ▸ hname

/-- Without links, a reached place is reached again by its names. -/
theorem advance_append (h : d.Reached place) {progress : Progress}
    (hbehind : d.advance place steps = .ok progress) :
    d.advance [] (place.map .into ++ steps) = .ok progress := by
  induction h generalizing steps with
  | root => exact hbehind
  | into _ hdir _ hlength hnode hlink ih =>
      rw [List.map_append, List.append_assoc]
      exact ih (advance_into_iff.mpr ⟨hdir, hlength, .inr (.inr ⟨_, hnode, hlink, hbehind⟩)⟩)

/-- The path that goes by the names of a reached place leads there, if it leads anywhere. -/
theorem eq_of_locate (h : d.Reached place) (hlocate : d.locate (.absolute place) = .ok found) :
    found = place := by
  have hadvance := h.advance_append (d.advance_nil place)
  rw [List.append_nil] at hadvance
  have hchase := chase_of_locate hlocate
  rw [origin, if_pos (Path.isAbsolute_absolute _), Path.absolute_eq,
    Path.steps_names h.isName] at hchase
  have hsteps : d.advance []
      (.stay :: if place = [] then [.stay] else place.map .into) = .ok (.found place) := by
    rw [advance_stay d.node?_nil]
    split
    case isTrue hnil =>
      rw [hnil, advance_stay d.node?_nil, advance_nil]
    case isFalse => exact hadvance
  cases (chase_of_found hsteps).symm.trans hchase
  rfl

end Reached

/-- Wherever one gets from a reached place by names is reached. -/
theorem reached_of_advance (h : d.Reached place)
    (hnames : ∀ name, .into name ∈ steps → Path.IsName name) {progress : Progress}
    (hadvance : d.advance place steps = .ok progress) :
    (∀ found, progress = .found found → d.Reached found) ∧
      ∀ dir target left, progress = .detour dir target left →
        d.Reached dir ∧ ∀ name, .into name ∈ left → Path.IsName name := by
  induction steps generalizing place with
  | nil =>
      cases hadvance
      refine ⟨?_, by simp⟩
      rintro _ ⟨⟩
      exact h
  | cons step rest ih =>
      have hdir := node?_of_advance hadvance
      have hrest : ∀ name, .into name ∈ rest → Path.IsName name :=
        fun name hname => hnames name (List.mem_cons_of_mem _ hname)
      cases step with
      | stay =>
          rw [advance_stay hdir] at hadvance
          exact ih h hrest hadvance
      | up =>
          rw [advance_up hdir] at hadvance
          exact ih h.dropLast hrest hadvance
      | into name =>
          obtain ⟨-, hlength, ⟨-, -, rfl⟩ | ⟨target, -, rfl⟩ | ⟨node, hnode, hlink, hbehind⟩⟩ :=
            advance_into_iff.mp hadvance
          · simp
          · refine ⟨by simp, ?_⟩
            rintro _ _ _ ⟨⟩
            exact ⟨h, hrest⟩
          · exact ih (.into h hdir (hnames name List.mem_cons_self) hlength hnode hlink) hrest hbehind

theorem reached_of_chase {links : Nat} (h : d.Reached place)
    (hnames : ∀ name, .into name ∈ steps → Path.IsName name)
    (hchase : d.chase links place steps = .ok (.found found)) : d.Reached found := by
  induction links using Nat.strongRecOn generalizing place steps with
  | ind links ih =>
      obtain ⟨_, hadvance, heq⟩ | ⟨_, -, heq⟩ | ⟨fewer, dir, target, left, rfl, hadvance, hbehind⟩ :=
        of_chase hchase
      · cases heq
        exact (reached_of_advance h hnames hadvance).1 _ rfl
      · cases heq
      · obtain ⟨hdir, hleft⟩ := (reached_of_advance h hnames hadvance).2 _ _ _ rfl
        have horigin : d.Reached (origin dir ⟨target⟩) := by
          rw [origin]
          split
          · exact .root
          · exact hdir
        refine ih fewer (Nat.lt_succ_self fewer) horigin (fun name hname => ?_) hbehind
        rcases List.mem_append.mp hname with htarget | hbefore
        · exact Path.isName_of_mem_steps htarget
        · exact hleft name hbefore

theorem reached_of_locate (hp : p.isAbsolute) (h : d.locate p = .ok place) : d.Reached place := by
  have hchase := chase_of_locate h
  rw [origin, if_pos hp] at hchase
  exact reached_of_chase .root (fun _ => Path.isName_of_mem_steps) hchase

/-! ### Normal forms -/

theorem anchor?_root (d : Disk) (rest : List String) :
    d.anchor? [.root] rest = some (.absolute rest) := by
  have hlocate : d.locate (Path.ofComponents [Component.root].reverse) = .ok [] := d.locate_root
  rw [anchor?_of_ok hlocate, List.nil_append]

theorem anchor?_of_not_name {reversed : List Component} {e : DiskError}
    (h : d.locate (Path.ofComponents reversed.reverse) = .error e)
    (hname : ∀ text up, reversed ≠ .name text :: up) (rest : List String) :
    d.anchor? reversed rest = none := by
  rw [anchor?.eq_def]
  simp only [h]

/-- The empty path is never found. -/
theorem locate_nil (d : Disk) : ∃ e, d.locate (.ofComponents []) = .error e := by
  cases hlocate : d.locate (.ofComponents []) with
  | ok place =>
      have hflaw := (locate_iff.mp hlocate).2.1
      contradiction
  | error e => exact ⟨e, rfl⟩

/-- The longest ancestor that is found, its place, and the names behind it. -/
structure Anchors (d : Disk) (cs found : List Component) (place : Place) (rest : List String) :
    Prop where
  split : cs = found ++ rest.map .name
  located : d.locate (.ofComponents found) = .ok place
  lost : ∀ init, init <+: rest → init ≠ [] →
    ∃ e, d.locate (.ofComponents (found ++ init.map .name)) = .error e

namespace Anchors

variable {cs ancestor : List Component} (h : d.Anchors cs ancestor place rest)

include h

theorem anchor?_eq (behind : List String) :
    d.anchor? cs.reverse behind = some (.absolute (place ++ rest ++ behind)) := by
  induction rest using List.reverseRecOn generalizing cs behind with
  | nil =>
      have hsplit : cs = ancestor := by rw [h.split, List.map_nil, List.append_nil]
      have hlocate := h.located
      rw [hsplit, List.append_nil]
      rw [← List.reverse_reverse ancestor] at hlocate
      exact anchor?_of_ok hlocate
  | append_singleton init last ih =>
      obtain ⟨e, hlost⟩ := h.lost _ List.prefix_rfl (by simp)
      have hreversed : cs.reverse =
          Component.name last :: (ancestor ++ init.map Component.name).reverse := by
        rw [h.split, List.map_append, ← List.append_assoc, List.map_singleton,
          List.reverse_concat]
      rw [← h.split, ← List.reverse_reverse cs, hreversed] at hlost
      have hinit : d.Anchors (ancestor ++ init.map .name) ancestor place init :=
        ⟨rfl, h.located, fun other hother =>
          h.lost other (hother.trans (List.prefix_append init [last]))⟩
      rw [hreversed, anchor?_of_error hlost, ih hinit, List.append_cons,
        List.append_assoc place]

theorem normalize_eq (hp : cs = p.normalComponents) :
    d.normalize p = .absolute (place ++ rest) := by
  rw [normalize, ← hp, h.anchor?_eq [], Option.getD_some, List.append_nil]

theorem ancestor_ne_nil : ancestor ≠ [] := by
  rintro rfl
  obtain ⟨e, hlost⟩ := d.locate_nil
  cases hlost.symm.trans h.located

theorem concat {text : String} {e : DiskError}
    (hlost : d.locate (.ofComponents (cs ++ [.name text])) = .error e) :
    d.Anchors (cs ++ [.name text]) ancestor place (rest ++ [text]) where
  split := by
    rw [h.split, List.map_append, List.append_assoc]
    rfl
  located := h.located
  lost other hother hne := by
    rcases List.prefix_concat_iff.mp hother with rfl | hother
    · rw [h.split, List.append_assoc, ← List.map_singleton, ← List.map_append] at hlost
      exact ⟨e, hlost⟩
    · exact h.lost other hother hne

end Anchors

theorem anchors_self {cs : List Component} (h : d.locate (.ofComponents cs) = .ok place) :
    d.Anchors cs cs place [] :=
  ⟨(List.append_nil cs).symm, h, fun _ hother hne => absurd (List.prefix_nil.mp hother) hne⟩

/-- What is left of a way without some names at its end is all of it, or is left of the way before
the last name. -/
theorem append_names_eq_concat {init ancestor : List Component} {last : Component}
    (h : init ++ [last] = ancestor ++ rest.map .name) :
    ancestor = init ++ [last] ∨ ∃ (names : List String) (text : String), last = .name text ∧
      init = ancestor ++ names.map .name := by
  cases rest using List.reverseRecOn with
  | nil => exact .inl (by simpa using h.symm)
  | append_singleton names text =>
      rw [List.map_append, List.map_singleton, ← List.append_assoc] at h
      obtain ⟨hinit, hlast⟩ := List.append_inj' h rfl
      exact .inr ⟨names, text, (List.cons.inj hlast).1, hinit⟩

/-- Some ancestor is found, or there is none to find. -/
theorem exists_anchors (d : Disk) (cs : List Component) :
    (∃ ancestor place rest, d.Anchors cs ancestor place rest) ∨
      (∀ ancestor (rest : List String), cs = ancestor ++ rest.map .name →
        ∃ e, d.locate (.ofComponents ancestor) = .error e) ∧
        ∀ behind, d.anchor? cs.reverse behind = none := by
  induction cs using List.reverseRecOn with
  | nil =>
      obtain ⟨e, hlost⟩ := d.locate_nil
      refine .inr ⟨fun ancestor rest hsplit => ?_, anchor?_of_not_name hlost nofun⟩
      rw [(List.append_eq_nil_iff.mp hsplit.symm).1]
      exact ⟨e, hlost⟩
  | append_singleton init last ih =>
      cases hlocated : d.locate (.ofComponents (init ++ [last])) with
      | ok place => exact .inl ⟨_, place, [], anchors_self hlocated⟩
      | error e =>
          have hlost : d.locate (.ofComponents (last :: init.reverse).reverse) = .error e := by
            rwa [List.reverse_cons, List.reverse_reverse]
          by_cases hname : ∃ text, last = .name text
          case neg =>
            refine .inr ⟨fun ancestor rest hsplit => ?_, fun behind => ?_⟩
            · rcases append_names_eq_concat hsplit with rfl | ⟨-, text, heq, -⟩
              · exact ⟨e, hlocated⟩
              · exact absurd ⟨text, heq⟩ hname
            · rw [List.reverse_concat]
              exact anchor?_of_not_name hlost
                (fun text up heq => hname ⟨text, (List.cons.inj heq).1⟩) behind
          obtain ⟨text, rfl⟩ := hname
          rcases ih with ⟨ancestor, place, rest, hanchors⟩ | ⟨hnot, hnone⟩
          · exact .inl ⟨ancestor, place, rest ++ [text], hanchors.concat hlocated⟩
          · refine .inr ⟨fun ancestor rest hsplit => ?_, fun behind => ?_⟩
            · rcases append_names_eq_concat hsplit with rfl | ⟨names, -, -, hinit⟩
              · exact ⟨e, hlocated⟩
              · exact hnot ancestor names hinit
            · rw [List.reverse_concat, anchor?_of_error hlost, hnone]

theorem normalize_of_anchor?_eq_none (h : d.anchor? p.normalComponents.reverse [] = none) :
    d.normalize p = p.normal := by
  rw [normalize, h, Option.getD_none]

theorem reverse_components_concat (init : List String) (last : String) :
    (Component.root :: (init ++ [last]).map Component.name).reverse =
      .name last :: (Component.root :: init.map Component.name).reverse := by simp

theorem forall_mem_cons_concat {init : List String} {last : String}
    (hnames : ∀ name ∈ init ++ [last], Path.IsName name)
    (hrest : ∀ name ∈ rest, Path.IsName name) :
    (∀ name ∈ init, Path.IsName name) ∧ ∀ name ∈ last :: rest, Path.IsName name := by
  refine ⟨fun name hname => hnames name (List.mem_append_left _ hname), fun name hname => ?_⟩
  rcases List.mem_cons.mp hname with rfl | hname
  · exact hnames _ (List.mem_append_right _ List.mem_cons_self)
  · exact hrest name hname

/-- A way from name to name always has a normal form, which goes from name to name. -/
theorem exists_anchor? (d : Disk) (hnames : ∀ name ∈ names, Path.IsName name)
    (hrest : ∀ name ∈ rest, Path.IsName name) :
    ∃ found, (∀ name ∈ found, Path.IsName name) ∧
      d.anchor? (Component.root :: names.map Component.name).reverse rest =
        some (.absolute found) := by
  induction names using List.reverseRecOn generalizing rest with
  | nil => exact ⟨rest, hrest, d.anchor?_root rest⟩
  | append_singleton init last ih =>
      obtain ⟨hinit, hbehind⟩ := forall_mem_cons_concat hnames hrest
      cases hlocated : d.locate (Path.ofComponents (.root :: (init ++ [last]).map .name)) with
      | ok place =>
          have hreached := reached_of_locate (Path.isAbsolute_root _) hlocated
          refine ⟨place ++ rest, fun name hname => ?_,
            anchor?_of_ok (by rwa [List.reverse_reverse])⟩
          rcases List.mem_append.mp hname with hplace | hrest'
          · exact hreached.isName name hplace
          · exact hrest name hrest'
      | error e =>
          rw [reverse_components_concat, anchor?_of_error
            (by rwa [← reverse_components_concat, List.reverse_reverse])]
          exact ih hinit hbehind

theorem exists_names_normalize (d : Disk) (hp : p.isAbsolute) :
    ∃ names, (∀ name ∈ names, Path.IsName name) ∧ d.normalize p = .absolute names := by
  obtain ⟨names, hnames, heq⟩ := Path.normalComponents_of_isAbsolute hp
  obtain ⟨found, hfound, hanchor⟩ := d.exists_anchor? hnames (List.forall_mem_nil Path.IsName)
  exact ⟨found, hfound, by rw [normalize, heq, hanchor, Option.getD_some]⟩

theorem anchor?_eq_self_iff (hnames : ∀ name ∈ names, Path.IsName name)
    (hrest : ∀ name ∈ rest, Path.IsName name) :
    d.anchor? (Component.root :: names.map Component.name).reverse rest =
        some (.absolute (names ++ rest)) ↔
      ∀ init, init <+: names → ∀ place, d.locate (.absolute init) = .ok place → place = init := by
  induction names using List.reverseRecOn generalizing rest with
  | nil =>
      refine iff_of_true (d.anchor?_root rest) fun init hinit place hplace => ?_
      cases List.prefix_nil.mp hinit
      exact Reached.root.eq_of_locate hplace
  | append_singleton init last ih =>
      obtain ⟨hinit, hbehind⟩ := forall_mem_cons_concat hnames hrest
      cases hlocated : d.locate (Path.ofComponents (.root :: (init ++ [last]).map .name)) with
      | ok place =>
          rw [anchor?_of_ok (by rwa [List.reverse_reverse])]
          rw [← Path.absolute_eq] at hlocated
          have hreached := reached_of_locate (Path.isAbsolute_absolute _) hlocated
          constructor
          · intro heq
            have hplace : place = init ++ [last] := by
              refine List.append_cancel_right (Path.absolute_injective ?_ ?_ (Option.some.inj heq))
              · exact List.forall_mem_append.mpr ⟨hreached.isName, hrest⟩
              · exact List.forall_mem_append.mpr ⟨hnames, hrest⟩
            rw [hplace] at hreached
            exact fun other hother _ => (hreached.of_prefix hother).eq_of_locate
          · intro h
            rw [h _ List.prefix_rfl place hlocated]
      | error e =>
          rw [reverse_components_concat, anchor?_of_error
            (by rwa [← reverse_components_concat, List.reverse_reverse]), List.append_assoc,
            List.singleton_append, ih hinit hbehind]
          rw [← Path.absolute_eq] at hlocated
          constructor
          · intro h other hother place hplace
            rcases List.prefix_concat_iff.mp hother with rfl | hother
            · cases hlocated.symm.trans hplace
            · exact h other hother place hplace
          · exact fun h other hother => h other (hother.trans (List.prefix_append _ _))

/-- A path is its own normal form just if whatever of it is there is where it says. -/
theorem normalize_absolute_iff (hnames : ∀ name ∈ names, Path.IsName name) :
    d.normalize (.absolute names) = .absolute names ↔
      ∀ init, init <+: names → ∀ place, d.locate (.absolute init) = .ok place → place = init := by
  rw [← anchor?_eq_self_iff hnames (List.forall_mem_nil Path.IsName), List.append_nil, normalize,
    Path.normalComponents_absolute hnames]
  obtain ⟨found, -, hanchor⟩ := d.exists_anchor? hnames (List.forall_mem_nil Path.IsName)
  rw [hanchor, Option.getD_some, Option.some.injEq]

/-! ### Disks with less on them -/

theorem isAbsolute_of_anchor? {reversed : List Component} (h : d.anchor? reversed rest = some p) :
    p.isAbsolute := by
  rw [← List.reverse_reverse reversed] at h
  rcases d.exists_anchors reversed.reverse with ⟨ancestor, place, names, hanchors⟩ | ⟨-, hnone⟩
  · cases h.symm.trans (hanchors.anchor?_eq rest)
    exact Path.isAbsolute_absolute _
  · cases h.symm.trans (hnone rest)

/-- Whatever a path leads to on a disk, it leads there on another too. -/
structure Leads (d d' : Disk) : Prop where
  look : ∀ p place, d.look p = .ok (.found place) → d'.look p = .ok (.found place)
  locate : ∀ p place, d.locate p = .ok place → d'.locate p = .ok place

theorem Frame.leads (h : Frame d d') (hspares : ∀ place, Spares d d' (.found place)) :
    Leads d d' where
  look _ place hlook := h.look hlook (hspares place)
  locate _ place hlocate := h.locate hlocate (hspares place)

namespace Leads

variable (h : Leads d d')

include h

theorem anchor?_eq_none {reversed : List Component} (hnone : d'.anchor? reversed rest = none) :
    d.anchor? reversed rest = none := by
  rw [← List.reverse_reverse reversed] at hnone ⊢
  rcases d.exists_anchors reversed.reverse with ⟨ancestor, place, names, hanchors⟩ | ⟨-, hnone'⟩
  · rcases d'.exists_anchors reversed.reverse with ⟨_, _, _, hanchors'⟩ | ⟨hlost, -⟩
    · cases hnone.symm.trans (hanchors'.anchor?_eq rest)
    · obtain ⟨e, hmissing⟩ := hlost ancestor names hanchors.split
      cases hmissing.symm.trans (h.locate _ _ hanchors.located)
  · exact hnone' rest

/-- A path that is its own normal form is so where there is less. -/
theorem normalize_eq_self (hself : d'.normalize p = p) : d.normalize p = p := by
  cases habsolute : p.isAbsolute with
  | true =>
      obtain ⟨names, hnames, heq⟩ := d'.exists_names_normalize habsolute
      rw [hself] at heq
      subst heq
      rw [normalize_absolute_iff hnames] at hself ⊢
      exact fun init hinit place hplace => hself init hinit place (h.locate _ _ hplace)
  | false =>
      cases hanchor : d'.anchor? p.normalComponents.reverse [] with
      | some other =>
          rw [normalize, hanchor, Option.getD_some] at hself
          rw [hself] at hanchor
          exact absurd (isAbsolute_of_anchor? hanchor) (by simp [habsolute])
      | none =>
          rw [normalize, hanchor, Option.getD_none] at hself
          rw [normalize, h.anchor?_eq_none hanchor, Option.getD_none, hself]

end Leads

/-- A path has the same normal form on disks where its ancestors are at the same places. -/
theorem normalize_congr (h : ∀ (ancestor : List Component) (rest : List String),
      p.normalComponents = ancestor ++ rest.map .name → ∀ place,
        d'.locate (.ofComponents ancestor) = .ok place ↔
          d.locate (.ofComponents ancestor) = .ok place) :
    d'.normalize p = d.normalize p := by
  rcases d.exists_anchors p.normalComponents with ⟨ancestor, place, rest, hanchors⟩ | ⟨hlost, hnone⟩
  · have hanchors' : d'.Anchors p.normalComponents ancestor place rest := by
      refine ⟨hanchors.split, (h _ _ hanchors.split place).mpr hanchors.located,
        fun init hinit hne => ?_⟩
      obtain ⟨behind, rfl⟩ := hinit
      have hsplit := hanchors.split
      rw [List.map_append, ← List.append_assoc] at hsplit
      obtain ⟨e, hmissing⟩ := hanchors.lost init (List.prefix_append init behind) hne
      cases hlocated : d'.locate (.ofComponents (ancestor ++ init.map .name)) with
      | ok other => cases hmissing.symm.trans ((h _ _ hsplit other).mp hlocated)
      | error e => exact ⟨e, rfl⟩
    rw [hanchors.normalize_eq rfl, hanchors'.normalize_eq rfl]
  · rcases d'.exists_anchors p.normalComponents with
      ⟨ancestor, place, rest, hanchors'⟩ | ⟨-, hnone'⟩
    · obtain ⟨e, hmissing⟩ := hlost ancestor rest hanchors'.split
      cases hmissing.symm.trans ((h _ _ hanchors'.split place).mp hanchors'.located)
    · rw [normalize_of_anchor?_eq_none (hnone []), normalize_of_anchor?_eq_none (hnone' [])]

end Disk

end Workbench
