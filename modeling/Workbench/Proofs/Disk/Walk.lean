import Workbench.Proofs.Disk.Tree
import Workbench.Proofs.Sorting

/-!
Walks. A walk goes down from a directory, through the directories whose names it admits, and passes
over the others with all that is in them. It lists what it meets in the order of the paths: siblings
come by their names, a directory before what is in it, and what is in it before the siblings behind
it.
-/

namespace Workbench.Disk

variable {d : Disk} {enter : String → Bool} {top dir place : Place} {name : String}
  {node node' : Node} {way : List String}

/-! ### The entries of a directory -/

theorem childOf?_eq_some_iff : childOf? dir (place, node) = some (name, node') ↔
    place = dir ++ [name] ∧ node = node' := by
  rw [childOf?]
  constructor
  · intro h
    split at h
    case isTrue hdir =>
      obtain ⟨last, hlast, heq⟩ := Option.map_eq_some_iff.mp h
      obtain ⟨init, rfl⟩ := List.getLast?_eq_some_iff.mp hlast
      rw [List.dropLast_concat, beq_iff_eq] at hdir
      cases heq
      exact ⟨hdir ▸ rfl, rfl⟩
    case isFalse => contradiction
  · rintro ⟨rfl, rfl⟩
    rw [List.dropLast_concat, if_pos (beq_self_eq_true dir), List.getLast?_concat, Option.map_some]

theorem mem_children : (name, node) ∈ d.children dir ↔ d.node? (dir ++ [name]) = some node := by
  rw [node?_concat, children, (sortBy_perm _ _).mem_iff, List.mem_filterMap]
  constructor
  · rintro ⟨⟨place, node'⟩, hentry, hchild⟩
    obtain ⟨rfl, rfl⟩ := childOf?_eq_some_iff.mp hchild
    exact Std.ExtTreeMap.mem_toList_iff_getElem?_eq_some.mp hentry
  · intro hnode
    exact ⟨(dir ++ [name], node), Std.ExtTreeMap.mem_toList_iff_getElem?_eq_some.mpr hnode,
      childOf?_eq_some_iff.mpr ⟨rfl, rfl⟩⟩

theorem pairwise_children (d : Disk) (dir : Place) :
    (d.children dir).Pairwise fun child other => compare child.1 other.1 = .lt := by
  have : Std.TransCmp fun a b : String × Node => compare a.1 b.1 :=
    inferInstanceAs (Std.TransCmp (compareOn Prod.fst))
  have hdistinct : (d.children dir).Pairwise fun child other => child.1 ≠ other.1 := by
    refine (sortBy_perm _ _).symm.pairwise (List.pairwise_filterMap.mpr ?_) Ne.symm
    refine d.nodes.distinct_keys_toList.imp ?_
    rintro ⟨place, node⟩ ⟨place', node'⟩ hne ⟨name, _⟩ hchild ⟨name', _⟩ hchild' heq
    obtain ⟨rfl, -⟩ := childOf?_eq_some_iff.mp hchild
    obtain ⟨rfl, -⟩ := childOf?_eq_some_iff.mp hchild'
    dsimp only at heq
    rw [heq] at hne
    exact hne Std.ReflCmp.compare_self
  refine (hdistinct.and (pairwise_sortBy _)).imp fun ⟨hne, hle⟩ => ?_
  exact Ordering.isLE_iff_eq_lt_or_eq_eq.mp hle |>.resolve_right
    fun heq => hne (Std.LawfulEqOrd.eq_of_compare heq)

/-! ### What a walk meets -/

/-- There are only directories on a way down from a place, and all of them are admitted. -/
def Descends (d : Disk) (enter : String → Bool) : Place → List String → Prop
  | _, [] => True
  | dir, name :: way =>
    d.node? (dir ++ [name]) = some .dir ∧ enter name ∧ d.Descends enter (dir ++ [name]) way

theorem descends_iff : d.Descends enter dir way ↔
    (∀ name ∈ way, enter name) ∧
      ∀ init, init ≠ [] → init <+: way → d.node? (dir ++ init) = some .dir := by
  induction way generalizing dir with
  | nil =>
      refine iff_of_true trivial ⟨List.forall_mem_nil _, fun init hne hinit => ?_⟩
      exact absurd (List.prefix_nil.mp hinit) hne
  | cons name way ih =>
      rw [Descends, ih, List.forall_mem_cons]
      constructor
      · rintro ⟨hdir, hname, hway, hbelow⟩
        refine ⟨⟨hname, hway⟩, fun init hne hinit => ?_⟩
        obtain rfl | ⟨rest, rfl, hrest⟩ := List.prefix_cons_iff.mp hinit
        · exact absurd rfl hne
        · cases rest with
          | nil => exact hdir
          | cons first rest =>
              rw [List.append_cons]
              exact hbelow (first :: rest) (List.cons_ne_nil first rest) hrest
      · rintro ⟨⟨hname, hway⟩, hbelow⟩
        refine ⟨hbelow [name] (List.cons_ne_nil _ _) ⟨way, rfl⟩, hname, hway,
          fun init hne hinit => ?_⟩
        rw [← List.append_cons]
        exact hbelow (name :: init) (List.cons_ne_nil _ _) (List.prefix_cons_iff.mpr
          (.inr ⟨init, rfl, hinit⟩))

/-- In a tree there are only directories on the way to an entry. -/
theorem IsTree.descends (h : d.IsTree) (hnode : d.node? (dir ++ way ++ [name]) = some node)
    (hway : ∀ name ∈ way, enter name) : d.Descends enter dir way := by
  refine descends_iff.mpr ⟨hway, fun init hne hinit => ?_⟩
  obtain ⟨rest, rfl⟩ := hinit
  rw [← List.append_assoc, List.append_assoc] at hnode
  exact h.isDir_of_append (by simp) hnode

/-- A walk meets an entry if it comes down to the directory that the entry stands in, and if the
entry is no directory to be passed over. -/
def Meets (d : Disk) (enter : String → Bool) (dir : Place) (levels : Nat) (place : Place)
    (node : Node) : Prop :=
  ∃ way name, way.length < levels ∧ place = dir ++ way ++ [name] ∧ d.Descends enter dir way ∧
    d.node? place = some node ∧ (node = .dir → enter name)

theorem mem_walkChild {below : Place → List (Place × Node)} {child : Node} :
    (place, node) ∈ walkChild enter below dir (name, child) ↔
      (child = .dir → enter name) ∧ ((place = dir ++ [name] ∧ node = child) ∨
        child = .dir ∧ (place, node) ∈ below (dir ++ [name])) := by
  cases child with
  | dir =>
      rw [walkChild]
      split
      case isTrue hname => simp [hname]
      case isFalse hname => simp [hname]
  | file content modified => simp [walkChild]
  | link target => simp [walkChild]

theorem mem_walkLevels {levels : Nat} :
    (place, node) ∈ d.walkLevels enter levels dir ↔ d.Meets enter dir levels place node := by
  induction levels generalizing dir with
  | zero =>
      refine iff_of_false List.not_mem_nil ?_
      rintro ⟨way, name, hlt, -⟩
      exact absurd hlt (Nat.not_lt_zero _)
  | succ levels ih =>
      rw [walkLevels, List.mem_flatMap]
      constructor
      · rintro ⟨⟨first, child⟩, hchild, hmeets⟩
        rw [mem_children] at hchild
        obtain ⟨hfirst, ⟨rfl, rfl⟩ | ⟨rfl, hbelow⟩⟩ := mem_walkChild.mp hmeets
        · exact ⟨[], first, Nat.succ_pos _, by rw [List.append_nil], trivial, hchild, hfirst⟩
        · obtain ⟨way, name, hlt, rfl, hway, hnode, hname⟩ := ih.mp hbelow
          refine ⟨first :: way, name, Nat.succ_lt_succ hlt, ?_, ⟨hchild, hfirst rfl, hway⟩,
            hnode, hname⟩
          rw [List.append_cons dir first way]
      · rintro ⟨way, name, hlt, rfl, hway, hnode, hname⟩
        cases way with
        | nil =>
            rw [List.append_nil] at hnode ⊢
            exact ⟨(name, node), mem_children.mpr hnode,
              mem_walkChild.mpr ⟨hname, .inl ⟨rfl, rfl⟩⟩⟩
        | cons first way =>
            obtain ⟨hdir, hfirst, hway⟩ := hway
            have hbelow : (dir ++ first :: way ++ [name], node) ∈
                d.walkLevels enter levels (dir ++ [first]) :=
              ih.mpr ⟨way, name, Nat.lt_of_succ_lt_succ hlt, by rw [List.append_cons dir first way],
                hway, hnode, hname⟩
            exact ⟨(first, .dir), mem_children.mpr hdir,
              mem_walkChild.mpr ⟨fun _ => hfirst, .inr ⟨rfl, hbelow⟩⟩⟩

/-! ### How deep a walk goes -/

theorem length_le_depth (h : d.node? (dir ++ [name]) = some node) : dir.length + 1 ≤ d.depth := by
  rw [node?_concat] at h
  rw [← List.length_concat, List.concat_eq_append]
  refine List.le_max?_getD_of_mem (List.mem_map_of_mem (Std.ExtTreeMap.mem_keys.mpr ?_))
  rw [Std.ExtTreeMap.mem_iff_isSome_getElem?, h, Option.isSome_some]

/-- A walk that may go down as many levels as the disk has meets all that there is to meet. -/
theorem mem_walk : (place, node) ∈ d.walk top enter ↔
    ∃ way name, place = top ++ way ++ [name] ∧ d.Descends enter top way ∧
      d.node? place = some node ∧ (node = .dir → enter name) := by
  rw [walk, mem_walkLevels, Meets]
  refine exists_congr fun way => exists_congr fun name => and_iff_right_of_imp ?_
  rintro ⟨rfl, -, hnode, -⟩
  have hle := length_le_depth hnode
  rw [List.length_append] at hle
  omega

/-- Where the disk ends, further levels make no difference. -/
theorem walkLevels_succ_eq {levels : Nat} (h : d.depth ≤ dir.length + levels) :
    d.walkLevels enter (levels + 1) dir = d.walkLevels enter levels dir := by
  induction levels generalizing dir with
  | zero =>
      rw [walkLevels, walkLevels, List.flatMap_eq_nil_iff]
      rintro ⟨name, child⟩ hchild
      have hle := length_le_depth (mem_children.mp hchild)
      omega
  | succ levels ih =>
      rw [walkLevels, walkLevels, List.flatMap_def, List.flatMap_def]
      refine congrArg List.flatten (List.map_congr_left fun ⟨name, child⟩ _ => ?_)
      cases child with
      | dir =>
          have hbelow : d.depth ≤ (dir ++ [name]).length + levels := by
            rw [List.length_append, List.length_singleton]
            omega
          rw [walkChild, walkChild, ih hbelow]
      | file content modified => rfl
      | link target => rfl

/-- A walk goes on below a directory like one that starts there. -/
theorem walk_eq (d : Disk) (top : Place) (enter : String → Bool) :
    d.walk top enter =
      (d.children top).flatMap (walkChild enter (fun dir => d.walk dir enter) top) := by
  rw [walk, ← walkLevels_succ_eq (Nat.le_add_left _ _), walkLevels]
  rfl

/-! ### The order of a walk -/

theorem compare_append_left {α : Type} [Ord α] [Std.ReflOrd α] (dir way other : List α) :
    compare (dir ++ way) (dir ++ other) = compare way other := by
  induction dir with
  | nil => rfl
  | cons name dir ih =>
      have hname : compare name name = .eq := Std.ReflCmp.compare_self
      rw [List.cons_append, List.cons_append, List.compare_cons_cons, hname, Ordering.eq_then, ih]

theorem compare_self_append {way : List String} (hne : way ≠ []) (dir : List String) :
    compare dir (dir ++ way) = .lt := by
  have happend := compare_append_left dir [] way
  rw [List.append_nil] at happend
  obtain ⟨name, rest, rfl⟩ := List.exists_cons_of_ne_nil hne
  exact happend

/-- What is met at an entry of a directory stands there or below. -/
theorem exists_way_of_mem_walkChild {levels : Nat} {child : Node}
    (h : (place, node) ∈ walkChild enter (d.walkLevels enter levels) dir (name, child)) :
    ∃ way, place = dir ++ name :: way := by
  obtain ⟨-, ⟨rfl, -⟩ | ⟨-, hbelow⟩⟩ := mem_walkChild.mp h
  · exact ⟨[], rfl⟩
  · obtain ⟨way, last, -, rfl, -⟩ := mem_walkLevels.mp hbelow
    exact ⟨way ++ [last], by rw [← List.append_cons, List.append_assoc, List.cons_append]⟩

theorem pairwise_walkLevels (d : Disk) (enter : String → Bool) (levels : Nat) (dir : Place) :
    (d.walkLevels enter levels dir).Pairwise fun entry other => compare entry.1 other.1 = .lt := by
  induction levels generalizing dir with
  | zero => exact List.Pairwise.nil
  | succ levels ih =>
      rw [walkLevels, List.pairwise_flatMap]
      constructor
      · rintro ⟨name, child⟩ -
        cases child with
        | dir =>
            rw [walkChild]
            split
            case isTrue =>
              refine List.pairwise_cons.mpr ⟨fun ⟨place, node⟩ hbelow => ?_, ih _⟩
              obtain ⟨way, last, -, rfl, -⟩ := mem_walkLevels.mp hbelow
              rw [List.append_assoc]
              exact compare_self_append (by simp) _
            case isFalse => exact List.Pairwise.nil
        | file content modified => exact List.pairwise_singleton _ _
        | link target => exact List.pairwise_singleton _ _
      · refine (d.pairwise_children dir).imp ?_
        rintro ⟨name, child⟩ ⟨name', child'⟩ hlt ⟨place, node⟩ hentry ⟨place', node'⟩ hother
        obtain ⟨way, rfl⟩ := exists_way_of_mem_walkChild hentry
        obtain ⟨way', rfl⟩ := exists_way_of_mem_walkChild hother
        dsimp only at hlt ⊢
        rw [compare_append_left, List.compare_cons_cons, hlt]
        rfl

/-- A walk goes in the order of the names on the way. -/
theorem pairwise_walk (d : Disk) (top : Place) (enter : String → Bool) :
    (d.walk top enter).Pairwise fun entry other => compare entry.1 other.1 = .lt :=
  d.pairwise_walkLevels enter d.depth top

end Workbench.Disk
