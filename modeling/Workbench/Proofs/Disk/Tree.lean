import Workbench.Proofs.Disk.Normal

/-!
File trees. In a tree every entry stands in a directory, so what is no link is reached from the root
by its names.
-/

namespace Workbench

/-! ### Plain paths -/

namespace Path

/-- A path that is spelt by its components. -/
def IsPlain (p : Path) : Prop := ofComponents p.components = p

theorem isPlain_absolute {names : List String} (h : ∀ name ∈ names, IsName name) :
    (absolute names).IsPlain := by
  rw [IsPlain, components_absolute h, absolute_eq]

theorem isPlain_normal (p : Path) : p.normal.IsPlain := by
  rw [IsPlain, components_normal]
  rfl

instance : Std.TransCmp order := inferInstanceAs (Std.TransCmp (compareOn components))

theorem IsPlain.eq_of_order {p q : Path} (hp : p.IsPlain) (hq : q.IsPlain)
    (h : order p q = .eq) : p = q := by
  have hcomponents : p.components = q.components := Std.LawfulEqOrd.eq_of_compare h
  rw [← hp, ← hq, hcomponents]

theorem compare_names (a b : List String) :
    compare (a.map Component.name) (b.map Component.name) = compare a b := by
  induction a generalizing b with
  | nil => cases b <;> rfl
  | cons x a ih =>
      cases b with
      | nil => rfl
      | cons y b =>
          rw [List.map_cons, List.map_cons, List.compare_cons_cons, List.compare_cons_cons, ih]
          rfl

end Path

namespace Disk

variable {d : Disk} {p : Path} {place : Place} {node : Node} {names : List String}

/-! ### Trees -/

/-- Every entry stands in a directory and has a name there, and the working directory is one. -/
structure IsTree (d : Disk) : Prop where
  entry : ∀ (place : Place) (node : Node), d.nodes[place]? = some node →
    d.node? place.dropLast = some .dir ∧
      ∃ name ∈ place.getLast?, Path.IsName name ∧ name.utf8ByteSize ≤ maxNameBytes
  cwd : d.node? d.cwd = some .dir

instance (name : String) : Decidable (Path.IsName name) := inferInstanceAs (Decidable (_ ∧ _))

instance (d : Disk) : Decidable d.IsTree :=
  decidable_of_iff
    ((∀ entry ∈ d.nodes.toList, d.node? entry.1.dropLast = some .dir ∧
      ∃ name ∈ entry.1.getLast?, Path.IsName name ∧ name.utf8ByteSize ≤ maxNameBytes) ∧
        d.node? d.cwd = some .dir)
    ⟨fun h => ⟨fun place node hnode =>
        h.1 (place, node) (Std.ExtTreeMap.mem_toList_iff_getElem?_eq_some.mpr hnode), h.2⟩,
      fun h => ⟨fun _ hentry =>
        h.entry _ _ (Std.ExtTreeMap.mem_toList_iff_getElem?_eq_some.mp hentry), h.cwd⟩⟩

namespace IsTree

variable (h : d.IsTree)

include h

theorem of_concat {dir : Place} {name : String} (hnode : d.node? (dir ++ [name]) = some node) :
    d.node? dir = some .dir ∧ Path.IsName name ∧ name.utf8ByteSize ≤ maxNameBytes := by
  rw [node?_concat] at hnode
  obtain ⟨hdir, last, hlast, hname⟩ := h.entry _ _ hnode
  rw [List.dropLast_concat] at hdir
  rw [List.getLast?_concat, Option.mem_some_iff] at hlast
  exact ⟨hdir, hlast ▸ hname⟩

/-- What a directory stands in is a directory, and so is the root, which stands in itself. -/
theorem dir_dropLast (hdir : d.node? place = some .dir) : d.node? place.dropLast = some .dir := by
  cases place using List.reverseRecOn with
  | nil => rfl
  | append_singleton dir name =>
      rw [List.dropLast_concat]
      exact (h.of_concat hdir).1

theorem reached (hnode : d.node? place = some node) (hlink : ¬ node.IsLink) : d.Reached place := by
  induction place using List.reverseRecOn generalizing node with
  | nil => exact .root
  | append_singleton dir name ih =>
      obtain ⟨hdir, hname, hlength⟩ := h.of_concat hnode
      exact .into (ih hdir Node.not_isLink_dir) hdir hname hlength hnode hlink

/-- Whatever stands at a place, there are names on the way to it. -/
theorem isName (hnode : d.node? place = some node) : ∀ name ∈ place, Path.IsName name := by
  cases place using List.reverseRecOn with
  | nil => exact List.forall_mem_nil _
  | append_singleton dir name =>
      obtain ⟨hdir, hname, -⟩ := h.of_concat hnode
      have hbefore := (h.reached hdir Node.not_isLink_dir).isName
      exact List.forall_mem_append.mpr ⟨hbefore, List.forall_mem_singleton.mpr hname⟩

/-- What has something below it is a directory. -/
theorem isDir_of_append {way : List String} (hne : way ≠ [])
    (hnode : d.node? (place ++ way) = some node) : d.node? place = some .dir := by
  induction way using List.reverseRecOn generalizing node with
  | nil => exact absurd rfl hne
  | append_singleton way name ih =>
      rw [← List.append_assoc] at hnode
      have hdir := (h.of_concat hnode).1
      cases way with
      | nil => rwa [List.append_nil] at hdir
      | cons first rest => exact ih (List.cons_ne_nil first rest) hdir

/-- What stands below a directory is found by its names. -/
theorem advance_names (hnode : d.node? (place ++ names) = some node) (hlink : ¬ node.IsLink) :
    d.advance place (names.map .into) = .ok (.found (place ++ names)) := by
  induction names generalizing place with
  | nil =>
      rw [List.append_nil]
      exact d.advance_nil place
  | cons name rest ih =>
      have hdir : d.node? place = some .dir := h.isDir_of_append (List.cons_ne_nil name rest) hnode
      rw [List.append_cons] at hnode ⊢
      obtain ⟨first, hfirst, hnot⟩ :
          ∃ first, d.node? (place ++ [name]) = some first ∧ ¬ first.IsLink := by
        cases rest with
        | nil => exact ⟨node, by rwa [List.append_nil] at hnode, hlink⟩
        | cons next rest =>
            exact ⟨.dir, h.isDir_of_append (List.cons_ne_nil next rest) hnode,
              Node.not_isLink_dir⟩
      exact advance_into_iff.mpr
        ⟨hdir, (h.of_concat hfirst).2.2, .inr (.inr ⟨first, hfirst, hnot, ih hnode⟩)⟩

theorem reached_of_locate (hlocate : d.locate p = .ok place) : d.Reached place := by
  have horigin : d.Reached (origin d.cwd p) := by
    rw [origin]
    split
    · exact .root
    · exact h.reached h.cwd Node.not_isLink_dir
  exact reached_of_chase horigin (fun _ => Path.isName_of_mem_steps) (chase_of_locate hlocate)

/-- A normal form that is found by an ancestor goes from name to name. -/
theorem exists_names_of_anchor? {reversed : List Component} {rest : List String}
    (hinner : ∀ c ∈ reversed, Path.IsInner c) (hrest : ∀ name ∈ rest, Path.IsName name)
    (hanchor : d.anchor? reversed rest = some p) :
    ∃ names, (∀ name ∈ names, Path.IsName name) ∧ p = .absolute names := by
  rw [← List.reverse_reverse reversed] at hanchor
  rcases d.exists_anchors reversed.reverse with ⟨ancestor, place, names, hanchors⟩ | ⟨-, hnone⟩
  · cases hanchor.symm.trans (hanchors.anchor?_eq rest)
    have hnames : ∀ name ∈ names, Path.IsName name := fun name hname =>
      hinner (.name name) (List.mem_reverse.mp
        (hanchors.split ▸ List.mem_append_right ancestor (List.mem_map_of_mem hname)))
    have hplace := (h.reached_of_locate hanchors.located).isName
    exact ⟨_, List.forall_mem_append.mpr ⟨List.forall_mem_append.mpr ⟨hplace, hnames⟩, hrest⟩, rfl⟩
  · cases hanchor.symm.trans (hnone rest)

theorem isPlain_normalize (p : Path) : (d.normalize p).IsPlain := by
  cases hp : p.isAbsolute with
  | true =>
      obtain ⟨names, hnames, heq⟩ := d.exists_names_normalize hp
      exact heq ▸ Path.isPlain_absolute hnames
  | false =>
      rw [normalize]
      cases hanchor : d.anchor? p.normalComponents.reverse [] with
      | none => exact Path.isPlain_normal p
      | some other =>
          have hinner : ∀ c ∈ p.normalComponents.reverse, Path.IsInner c := fun c hc =>
            Path.isInner_normalComponents hp c (List.mem_reverse.mp hc)
          obtain ⟨names, hnames, rfl⟩ :=
            h.exists_names_of_anchor? hinner (List.forall_mem_nil _) hanchor
          exact Path.isPlain_absolute hnames

end IsTree

theorem Reached.exists_node (h : d.Reached place) :
    ∃ node, d.node? place = some node ∧ ¬ node.IsLink := by
  cases h with
  | root => exact ⟨.dir, rfl, Node.not_isLink_dir⟩
  | into _ _ _ _ hnode hlink => exact ⟨_, hnode, hlink⟩

end Disk

end Workbench
