import Workbench.Proofs.Path

/-!
Lexical normal forms. A relative path in normal form goes up some times and then from name to name,
and an absolute one goes from name to name; so the normal form of a normal form is that form. It
keeps the order of the components and adds none, so it is never longer than the path.
-/

namespace Workbench

theorem intercalate_splitPieces (separator : Char) (cs : List Char) :
    [separator].intercalate (splitPieces separator cs) = cs := by
  induction cs with
  | nil => rfl
  | cons c rest ih =>
      rw [splitPieces]
      split
      case isTrue hc =>
        cases hpieces : splitPieces separator rest with
        | nil => exact absurd hpieces (splitPieces_ne_nil separator rest)
        | cons piece pieces =>
            rw [List.intercalate_cons_cons, ← hpieces, ih, hc]
            rfl
      case isFalse =>
        split
        case h_1 hpieces =>
          rw [hpieces] at ih
          simp [← ih]
        case h_2 piece pieces hpieces =>
          rw [hpieces] at ih
          rw [← ih]
          cases pieces with
          | nil => simp
          | cons next pieces => simp [List.intercalate_cons_cons]

namespace Path

variable {p q : Path} {cs stack : List Component} {isAbsolute : Bool}

theorem intercalate_pieces (p : Path) : "/".intercalate p.pieces = p.text := by
  rw [← String.toList_inj, String.toList_intercalate, pieces, List.map_map]
  simp only [Function.comp_def, String.toList_ofList, List.map_id']
  exact intercalate_splitPieces '/' p.text.toList

/-- What is written in pieces is written in one of them. -/
theorem mem_intercalate_iff {c : Char} (hc : c ≠ '/') {texts : List String} :
    c ∈ ("/".intercalate texts).toList ↔ ∃ text ∈ texts, c ∈ text.toList := by
  induction texts with
  | nil => simp
  | cons first rest ih =>
      cases rest with
      | nil => simp
      | cons next rest =>
          have hseparator : c ∉ ("/" : String).toList := by simpa using hc
          rw [String.intercalate_cons_cons, String.toList_append, String.toList_append,
            List.mem_append, List.mem_append, ih, or_iff_left hseparator]
          simp

/-- What is written in the plain spelling of components is written in one of them. -/
theorem mem_ofComponents_iff {c : Char} (hc : c ≠ '/') {cs : List Component} :
    c ∈ (ofComponents cs).text.toList ↔ ∃ component ∈ cs, c ∈ component.text.toList := by
  have hmap (ds : List Component) : c ∈ ("/".intercalate (ds.map Component.text)).toList ↔
      ∃ component ∈ ds, c ∈ component.text.toList := by
    rw [mem_intercalate_iff hc]
    constructor
    · rintro ⟨_, htext, hchar⟩
      obtain ⟨component, hcomponent, rfl⟩ := List.mem_map.mp htext
      exact ⟨component, hcomponent, hchar⟩
    · rintro ⟨component, hcomponent, hchar⟩
      exact ⟨_, List.mem_map_of_mem hcomponent, hchar⟩
  rw [ofComponents.eq_def]
  split
  case h_1 rest =>
    have hseparator : c ∉ ("/" : String).toList := by simpa using hc
    rw [String.toList_append, List.mem_append, or_iff_right hseparator, hmap]
    simp [Component.text]
  case h_2 => exact hmap cs

/-! ### Shape -/

theorem foldl_normalStep_names (isAbsolute : Bool) (names : List String) (stack : List Component) :
    (names.map Component.name).foldl (normalStep isAbsolute) stack =
      (names.map Component.name).reverse ++ stack := by
  induction names generalizing stack with
  | nil => rfl
  | cons name rest ih =>
      rw [List.map_cons, List.foldl_cons, ih, List.reverse_cons, List.append_assoc]
      rfl

theorem normalStep_parent_replicate (ups : Nat) :
    normalStep false (List.replicate ups .parent) .parent = List.replicate (ups + 1) .parent := by
  cases ups <;> rfl

theorem foldl_normalStep_parents (ups more : Nat) :
    (List.replicate more Component.parent).foldl (normalStep false)
      (List.replicate ups .parent) = List.replicate (ups + more) .parent := by
  induction more generalizing ups with
  | zero => rfl
  | succ more ih =>
      rw [List.replicate_succ, List.foldl_cons, normalStep_parent_replicate, ih]
      congr 1
      omega

/-- What is left of a relative path goes up some times and then from name to name. -/
theorem exists_ups_of_foldl (h : ∀ c ∈ cs, IsInner c) {names : List String}
    (hnames : ∀ name ∈ names, IsName name) (ups : Nat) :
    ∃ (names' : List String) (ups' : Nat), (∀ name ∈ names', IsName name) ∧
      cs.foldl (normalStep false) (names.map Component.name ++ List.replicate ups .parent) =
        names'.map Component.name ++ List.replicate ups' .parent := by
  induction cs generalizing names ups with
  | nil => exact ⟨names, ups, hnames, rfl⟩
  | cons c rest ih =>
      obtain ⟨hc, hrest⟩ := List.forall_mem_cons.mp h
      rw [List.foldl_cons]
      cases c with
      | root => exact hc.elim
      | current => exact hc.elim
      | name text => exact ih hrest (List.forall_mem_cons.mpr ⟨hc, hnames⟩) ups
      | parent =>
          cases names with
          | nil =>
              rw [List.map_nil, List.nil_append, normalStep_parent_replicate]
              exact ih hrest hnames (ups + 1)
          | cons last others => exact ih hrest (List.forall_mem_cons.mp hnames).2 ups

/-- A relative path in normal form goes up some times and then from name to name. -/
theorem normalComponents_of_relative (h : p.isAbsolute = false) :
    ∃ (ups : Nat) (names : List String), (∀ name ∈ names, IsName name) ∧
      p.normalComponents = List.replicate ups .parent ++ names.map .name := by
  obtain ⟨cs, hcs, heq⟩ := normalComponents_eq_of_relative h
  obtain ⟨names, ups, hnames, hleft⟩ := exists_ups_of_foldl hcs (List.forall_mem_nil IsName) 0
  refine ⟨ups, names.reverse, by simpa using hnames, ?_⟩
  simp only [List.map_nil, List.replicate_zero, List.append_nil] at hleft
  rw [heq, hleft]
  simp

/-- The lexical normal form is its own. -/
theorem normalComponents_normal (p : Path) : p.normal.normalComponents = p.normalComponents := by
  rw [normalComponents.eq_def p.normal, isAbsolute_normal, components_normal]
  cases h : p.isAbsolute with
  | true =>
      obtain ⟨names, -, heq⟩ := normalComponents_of_isAbsolute h
      rw [heq, List.foldl_cons]
      change Component.root :: ((names.map Component.name).foldl (normalStep true) []).reverse = _
      rw [foldl_normalStep_names, List.append_nil, List.reverse_reverse]
  | false =>
      obtain ⟨ups, names, -, heq⟩ := normalComponents_of_relative h
      have hups := foldl_normalStep_parents 0 ups
      rw [Nat.zero_add, List.replicate_zero] at hups
      rw [heq, List.foldl_append, hups, foldl_normalStep_names]
      simp

theorem normal_normal (p : Path) : p.normal.normal = p.normal := by
  rw [normal, normalComponents_normal, ← normal]

theorem normalComponents_eq_iff : p.normalComponents = q.normalComponents ↔ p.normal = q.normal := by
  refine ⟨fun h => by rw [normal, normal, h], fun h => ?_⟩
  rw [← components_normal, h, components_normal]

/-! ### Size -/

theorem sublist_normalStep (isAbsolute : Bool) (stack : List Component) (c : Component) :
    (normalStep isAbsolute stack c).reverse.Sublist (stack.reverse ++ [c]) := by
  have hdropped : stack.reverse.Sublist (stack.reverse ++ [c]) := List.sublist_append_left _ _
  cases c with
  | root => exact hdropped
  | current => exact hdropped
  | name text => simp [normalStep]
  | parent =>
      simp only [normalStep]
      split
      case h_1 text rest =>
        rw [List.reverse_cons, List.append_assoc]
        exact List.sublist_append_left _ _
      case h_2 =>
        split
        · exact hdropped
        · simp

theorem sublist_foldl_normalStep (isAbsolute : Bool) (stack cs : List Component) :
    (cs.foldl (normalStep isAbsolute) stack).reverse.Sublist (stack.reverse ++ cs) := by
  induction cs generalizing stack with
  | nil => simp
  | cons c rest ih =>
      refine (ih (normalStep isAbsolute stack c)).trans ?_
      rw [List.append_cons]
      exact (sublist_normalStep isAbsolute stack c).append_right rest

theorem sublist_filterMap_innerComponent? (pieces : List String) :
    ((pieces.filterMap innerComponent?).map Component.text).Sublist pieces := by
  induction pieces with
  | nil => exact .slnil
  | cons piece rest ih =>
      cases hpiece : innerComponent? piece with
      | none =>
          rw [List.filterMap_cons_none hpiece]
          exact ih.cons piece
      | some c =>
          have htext : c.text = piece := by
            unfold innerComponent? at hpiece
            split at hpiece <;> cases hpiece <;> rfl
          rw [List.filterMap_cons_some hpiece, List.map_cons, htext]
          exact ih.cons_cons piece

/-- The normal form of a relative path is spelt with some of its pieces. -/
theorem sublist_normalComponents (h : p.isAbsolute = false) :
    (p.normalComponents.map Component.text).Sublist p.pieces := by
  have hcomponents : p.normalComponents.Sublist p.components := by
    rw [normalComponents, h]
    exact sublist_foldl_normalStep false [] p.components
  refine (hcomponents.map Component.text).trans ?_
  rw [components, h]
  split
  case isTrue => contradiction
  case isFalse =>
    split
    case h_1 rest hpieces =>
      rw [hpieces]
      exact (sublist_filterMap_innerComponent? rest).cons_cons "."
    case h_2 => exact sublist_filterMap_innerComponent? _

end Path

end Workbench
