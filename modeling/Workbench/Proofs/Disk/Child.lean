import Workbench.Proofs.Disk.Frame
import Workbench.Proofs.Disk.Normal

/-!
Names in a directory. The path of a name in a directory is a text that all names there share, and
the name behind it. So such paths have the same components but for the last, and the way to each of
them is the way to the directory and one step more.
-/

namespace Workbench

/-- What is written behind a text belongs to its last piece, up to the next separator. -/
theorem splitPieces_append_last (separator : Char) (cs : List Char) :
    ∃ init last, splitPieces separator cs = init ++ [last] ∧
      ∀ name, separator ∉ name → splitPieces separator (cs ++ name) = init ++ [last ++ name] := by
  induction cs with
  | nil => exact ⟨[], [], rfl, fun name hname => splitPieces_of_not_mem hname⟩
  | cons c rest ih =>
      obtain ⟨init, last, hpieces, hbehind⟩ := ih
      by_cases hc : c = separator
      · refine ⟨[] :: init, last, ?_, fun name hname => ?_⟩
        · rw [splitPieces, if_pos hc, hpieces, List.cons_append]
        · rw [List.cons_append, splitPieces, if_pos hc, hbehind name hname, List.cons_append]
      · cases init with
        | nil =>
            refine ⟨[], c :: last, ?_, fun name hname => ?_⟩
            · rw [splitPieces, if_neg hc, hpieces]
              rfl
            · rw [List.cons_append, splitPieces, if_neg hc, hbehind name hname]
              rfl
        | cons first others =>
            refine ⟨(c :: first) :: others, last, ?_, fun name hname => ?_⟩
            · rw [splitPieces, if_neg hc, hpieces]
              rfl
            · rw [List.cons_append, splitPieces, if_neg hc, hbehind name hname]
              rfl

theorem splitPieces_concat_separator (separator : Char) (cs : List Char) :
    splitPieces separator (cs ++ [separator]) = splitPieces separator cs ++ [[]] :=
  splitPieces_append_cons separator cs []

namespace Path

/-- The text in front of the names in a directory. -/
def childPrefix (p : Path) : String :=
  if p.text.isEmpty || p.text.toList.getLast? == some '/' then p.text else p.text ++ "/"

theorem isAbsolute_of_not_mem {text : String} (h : '/' ∉ text.toList) :
    (Path.mk text).isAbsolute = false := by
  rw [isAbsolute]
  cases hcs : text.toList with
  | nil => rfl
  | cons c cs =>
      have hc : c ≠ '/' := by
        rintro rfl
        exact h (hcs ▸ List.mem_cons_self)
      simpa using hc

variable {p : Path} {name : String}

theorem child_eq (h : '/' ∉ name.toList) : p.child name = ⟨p.childPrefix ++ name⟩ := by
  rw [child, join, isAbsolute_of_not_mem h, childPrefix]
  simp only [Bool.false_eq_true, if_false]
  split <;> rfl

/-- The pieces of the names in a directory differ in the last one only, and without a name it is
the directory itself that is spelt. -/
theorem exists_pieces_childPrefix (p : Path) : ∃ init : List String,
    (∀ text, '/' ∉ text.toList → (Path.mk (p.childPrefix ++ text)).pieces = init ++ [text]) ∧
      (p.pieces = init ∧ init ≠ [] ∨ p.pieces = init ++ [""]) := by
  obtain ⟨init, last, hpieces, hbehind⟩ := splitPieces_append_last '/' p.childPrefix.toList
  have hlast : last = [] ∧ (p.pieces = init.map String.ofList ∧ init ≠ [] ∨
      p.pieces = init.map String.ofList ++ [""]) := by
    rw [childPrefix] at hpieces
    split at hpieces
    case isTrue hend =>
      rcases Bool.or_eq_true_iff.mp hend with hempty | hseparator
      · rw [String.isEmpty_iff.mp hempty] at hpieces
        obtain ⟨rfl, rfl⟩ : init = [] ∧ last = [] := by
          have hnil : [[]] = init ++ [last] := hpieces
          cases init with
          | nil => simpa using hnil.symm
          | cons first rest => simp at hnil
        refine ⟨rfl, .inr ?_⟩
        rw [pieces, String.isEmpty_iff.mp hempty]
        rfl
      · obtain ⟨before, htext⟩ := List.getLast?_eq_some_iff.mp (eq_of_beq hseparator)
        have hsplit := hpieces
        rw [htext, splitPieces_concat_separator] at hsplit
        obtain ⟨hinit, hlast⟩ := List.append_inj' hsplit rfl
        have hlast : last = [] := (List.cons.inj hlast).1.symm
        refine ⟨hlast, .inr ?_⟩
        rw [pieces, hpieces, hlast, List.map_append]
        rfl
    case isFalse =>
      rw [String.toList_append, show ("/" : String).toList = ['/'] from rfl,
        splitPieces_concat_separator] at hpieces
      obtain ⟨hinit, hlast⟩ := List.append_inj' hpieces rfl
      refine ⟨(List.cons.inj hlast).1.symm, .inl ⟨?_, ?_⟩⟩
      · rw [pieces, hinit]
      · exact hinit ▸ splitPieces_ne_nil _ _
  obtain ⟨rfl, hdir⟩ := hlast
  refine ⟨init.map String.ofList, fun text htext => ?_, by simpa using hdir⟩
  rw [pieces, String.toList_append, hbehind _ htext, List.map_append]
  simp

theorem isAbsolute_childPrefix_append (h : '/' ∉ name.toList) :
    (Path.mk (p.childPrefix ++ name)).isAbsolute = p.isAbsolute := by
  rw [isAbsolute, isAbsolute, String.toList_append, childPrefix]
  cases hcs : p.text.toList with
  | nil =>
      have hempty : p.text = "" := String.toList_eq_nil_iff.mp hcs
      have hname := isAbsolute_of_not_mem h
      rw [isAbsolute] at hname
      simp [hempty, hname]
  | cons c cs =>
      have hfirst : ∃ more, (if p.text.isEmpty || (c :: cs).getLast? == some '/' then p.text
          else p.text ++ "/").toList = c :: more := by
        split
        · exact ⟨cs, hcs⟩
        · exact ⟨cs ++ ['/'], by rw [String.toList_append, hcs]; rfl⟩
      obtain ⟨more, heq⟩ := hfirst
      rw [heq]
      rfl

theorem isAbsolute_child (h : '/' ∉ name.toList) : (p.child name).isAbsolute = p.isAbsolute := by
  rw [child_eq h, isAbsolute_childPrefix_append h]

/-- The components that a path with these pieces has. -/
def componentsOf (isAbsolute : Bool) (pieces : List String) : List Component :=
  if isAbsolute then .root :: pieces.filterMap innerComponent?
  else match pieces with
    | "." :: rest => .current :: rest.filterMap innerComponent?
    | pieces => pieces.filterMap innerComponent?

theorem components_eq_componentsOf (p : Path) :
    p.components = componentsOf p.isAbsolute p.pieces := rfl

theorem componentsOf_append {isAbsolute : Bool} {pieces : List String} (hne : pieces ≠ [])
    (more : List String) : componentsOf isAbsolute (pieces ++ more) =
      componentsOf isAbsolute pieces ++ more.filterMap innerComponent? := by
  unfold componentsOf
  split
  · simp
  · split
    case h_1 rest heq =>
      cases pieces with
      | nil => exact absurd rfl hne
      | cons first others =>
          obtain ⟨rfl, rfl⟩ := List.cons.inj heq
          simp
    case h_2 hfirst =>
      split
      case h_1 rest => exact absurd rfl (hfirst (rest ++ more))
      case h_2 => simp

theorem components_child (h : IsName name) :
    (p.child name).components = p.components ++ [.name name] := by
  obtain ⟨init, hpieces, hdir⟩ := p.exists_pieces_childPrefix
  have hinner : [name].filterMap innerComponent? = [.name name] := by simp [h.1]
  rw [child_eq h.2, components_eq_componentsOf, isAbsolute_childPrefix_append h.2, hpieces _ h.2,
    components_eq_componentsOf]
  rcases hdir with ⟨heq, hne⟩ | heq
  · rw [heq, componentsOf_append hne, hinner]
  · by_cases hne : init = []
    · subst hne
      rw [heq]
      cases p.isAbsolute with
      | true =>
          simp only [componentsOf, if_true, List.nil_append, hinner]
          rfl
      | false =>
          have hpoint : componentsOf false [name] = [name].filterMap innerComponent? := by
            simp only [componentsOf, Bool.false_eq_true, if_false]
            split
            case h_1 heq =>
              cases heq
              exact absurd rfl h.stepName.2.1
            case h_2 => rfl
          rw [List.nil_append, hpoint, hinner]
          rfl
    · rw [heq, componentsOf_append hne, componentsOf_append hne, hinner]
      simp [innerComponent?]

theorem parent?_child (h : IsName name) :
    (p.child name).parent? = some (ofComponents p.components) := by
  rw [parent?, components_child h, List.getLast?_append]
  simp

/-- A longer name in a directory. -/
theorem child_append (h : '/' ∉ name.toList) {more : String} (hmore : '/' ∉ more.toList) :
    p.child (name ++ more) = ⟨(p.child name).text ++ more⟩ := by
  have hboth : '/' ∉ (name ++ more).toList := by
    rw [String.toList_append, List.mem_append]
    exact not_or.mpr ⟨h, hmore⟩
  rw [child_eq h, child_eq hboth, String.append_assoc]

/-- The names in a directory have one way to them. -/
theorem exists_steps_child (p : Path) : ∃ init : List Step,
    ∀ name, IsName name → (p.child name).steps = init ++ [.into name] := by
  obtain ⟨init, hpieces, -⟩ := p.exists_pieces_childPrefix
  refine ⟨init.map Step.ofPiece, fun name hname => ?_⟩
  rw [steps, child_eq hname.2, hpieces _ hname.2, List.map_append, List.map_singleton,
    ofPiece_of_isName hname]

theorem flaw?_eq_none {p : Path} : p.flaw? = none ↔ '\x00' ∉ p.text.toList ∧ p.text ≠ "" := by
  rw [flaw?]
  split
  case isTrue hcut => simp [List.contains_iff_mem.mp hcut]
  case isFalse hcut =>
    rw [List.contains_iff_mem] at hcut
    split
    case isTrue hempty => simp [String.isEmpty_iff.mp hempty]
    case isFalse hempty => exact iff_of_true rfl ⟨hcut, mt String.isEmpty_iff.mpr hempty⟩

theorem refusal?_eq_none {p : Path} : p.refusal? = none ↔
    p.flaw? = none ∧ p.text.utf8ByteSize ≤ maxPathBytes := by
  rw [refusal?]
  split
  case h_1 hflaw => simp [hflaw]
  case h_2 hflaw =>
    split
    case isTrue hlong => simp [Nat.not_le_of_lt hlong]
    case isFalse hlong => exact iff_of_true rfl ⟨hflaw, Nat.le_of_not_lt hlong⟩

/-- A path that is not refused is not refused without its end either. -/
theorem refusal?_of_append {text more : String} (hne : text ≠ "")
    (h : (Path.mk (text ++ more)).refusal? = none) : (Path.mk text).refusal? = none := by
  obtain ⟨hflaw, hlong⟩ := refusal?_eq_none.mp h
  have hcut := (flaw?_eq_none.mp hflaw).1
  rw [String.toList_append, List.mem_append] at hcut
  rw [String.utf8ByteSize_append] at hlong
  exact refusal?_eq_none.mpr ⟨flaw?_eq_none.mpr ⟨fun hmem => hcut (.inl hmem), hne⟩,
    Nat.le_trans (Nat.le_add_right _ _) hlong⟩

end Path

/-! ### Components as ways -/

/-- The step that a component asks for, if it leads anywhere. -/
def Component.step? : Component → Option Step
  | .root => none
  | .current => none
  | .parent => some .up
  | .name text => some (.into text)

theorem Component.filterMap_step?_names (names : List String) :
    (names.map Component.name).filterMap Component.step? = names.map .into := by
  induction names with
  | nil => rfl
  | cons name rest ih =>
      have hstep : (Component.name name).step? = some (.into name) := rfl
      rw [List.map_cons, List.filterMap_cons_some hstep, ih, List.map_cons]

namespace Path

variable {cs : List Component} (h : ∀ c ∈ cs, IsInner c) (hne : cs ≠ [])

include h

theorem map_ofPiece_texts : (cs.map Component.text).map Step.ofPiece =
    cs.filterMap Component.step? := by
  induction cs with
  | nil => rfl
  | cons c rest ih =>
      obtain ⟨hc, hrest⟩ := List.forall_mem_cons.mp h
      have hstep : Component.step? c = some (Step.ofPiece c.text) := by
        cases c with
        | parent => rfl
        | name text => exact congrArg some (ofPiece_of_isName hc).symm
        | root => exact hc.elim
        | current => exact hc.elim
      rw [List.map_cons, List.map_cons, ih hrest, List.filterMap_cons_some hstep]

include hne

/-- The way of a relative path in its plain spelling. -/
theorem steps_inner : (ofComponents cs).steps = cs.filterMap Component.step? := by
  rw [ofComponents_inner h, steps, pieces_texts h hne, map_ofPiece_texts h]

/-- The way of an absolute path in its plain spelling. -/
theorem steps_root : (ofComponents (.root :: cs)).steps =
    .stay :: cs.filterMap Component.step? := by
  rw [ofComponents, steps, pieces_separator_append, pieces_texts h hne, List.map_cons,
    map_ofPiece_texts h]
  rfl

end Path

namespace Disk

theorem moves_ofPiece (piece : String) :
    moves [Step.ofPiece piece] = (Path.innerComponent? piece).toList.filterMap Component.step? := by
  unfold Step.ofPiece
  split
  case h_4 hempty hpoint hup =>
    have hname : Path.innerComponent? piece = some (.name piece) := by
      rw [Path.innerComponent?]
      · exact hempty
      · exact hpoint
      · exact hup
    rw [hname]
    rfl
  all_goals rfl

theorem moves_pieces (pieces : List String) : moves (pieces.map Step.ofPiece) =
    (pieces.filterMap Path.innerComponent?).filterMap Component.step? := by
  induction pieces with
  | nil => rfl
  | cons piece rest ih =>
      rw [List.map_cons, ← List.singleton_append, moves_append, moves_ofPiece, ih,
        ← List.singleton_append, List.filterMap_append, List.filterMap_append]
      cases hinner : Path.innerComponent? piece <;> simp [hinner]

/-- A path leads where its components say. -/
theorem moves_steps (p : Path) : moves p.steps = p.components.filterMap Component.step? := by
  rw [Path.steps, moves_pieces, Path.components]
  split
  · rfl
  · split
    case h_1 rest heq =>
      rw [heq, List.filterMap_cons_none rfl, List.filterMap_cons_none rfl]
    case h_2 => rfl

variable {d : Disk} {p dir : Path} {place : Place} {name : String}

/-- Where the entry of a name is, there is the directory that the path before the name leads to. -/
theorem look_dir_of_entry (h : d.entry p = .ok (place, name)) (hrefused : dir.refusal? = none)
    (habsolute : dir.isAbsolute = p.isAbsolute)
    (hcomponents : p.components.filterMap Component.step? =
      dir.components.filterMap Component.step? ++ [.into name]) :
    d.look dir = .ok (.found place) := by
  obtain ⟨init, hsteps, -, hfound⟩ := entry_eq_ok.mp h
  have hplace := (look_of_entry h).1
  have hprefused := refusal?_of_follow hfound
  have hmoves : moves (init ++ [.stay]) = moves dir.steps := by
    have hp := moves_steps p
    rw [hsteps, moves_append, hcomponents, ← moves_steps] at hp
    rw [moves_append, List.append_cancel_right hp]
    exact List.append_nil _
  rw [follow_congr (hprefused.trans hrefused.symm) habsolute.symm] at hfound
  exact follow_moves hplace hmoves hfound

end Disk

end Workbench
