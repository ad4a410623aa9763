import Std.Data.ExtTreeMap
import Workbench.Path

/-!
File ids. A path gets the next free number when it is first seen and keeps it for good; two
spellings of the same components are one path, known by the spelling that came first.

There is a table for each direction, and a lookup reads only one of them. What a registration adds
to the one it adds to the other, so that the tables stay inverse to each other.
-/

namespace Workbench

/-- The number of a file. -/
abbrev FileId := Nat

def FileId.display (id : FileId) : String := "file#" ++ toString id

/-- The ids by the components of the paths, and the paths by their ids, as they were first
spelled. -/
structure PathTables where
  ids : Std.ExtTreeMap (List Component) FileId := ∅
  paths : List Path := []

namespace PathTables

def size (t : PathTables) : Nat := t.paths.length

def isEmpty (t : PathTables) : Bool := t.paths.isEmpty

def id? (t : PathTables) (p : Path) : Option FileId := t.ids[p.components]?

def path? (t : PathTables) (id : FileId) : Option Path := t.paths[id]?

/-- The id of a path, which is entered in both tables if it is new. -/
def register (t : PathTables) (p : Path) : PathTables × FileId :=
  match t.id? p with
  | some id => (t, id)
  | none =>
    let id := t.paths.length
    (⟨t.ids.insert p.components id, t.paths ++ [p]⟩, id)

/-- Each table leads back from where the other one leads. -/
structure Inverse (t : PathTables) : Prop where
  path?_of_ids : ∀ components id, t.ids[components]? = some id →
    ∃ p, t.path? id = some p ∧ p.components = components
  id?_of_path? : ∀ id p, t.path? id = some p → t.id? p = some id

theorem inverse_empty : Inverse {} where
  path?_of_ids components id h := by
    rw [Std.ExtTreeMap.getElem?_empty] at h
    contradiction
  id?_of_path? id p h := by
    rw [path?, List.getElem?_nil] at h
    contradiction

theorem getElem?_ids_insert (t : PathTables) (components other : List Component) (id : FileId) :
    (t.ids.insert components id)[other]? =
      if components = other then some id else t.ids[other]? := by
  rw [Std.ExtTreeMap.getElem?_insert]
  simp only [Std.LawfulEqCmp.compare_eq_iff_eq]

/-- A new path comes behind all others. -/
theorem getElem?_paths_append (t : PathTables) (p : Path) (id : FileId) :
    (t.paths ++ [p])[id]? = if id = t.paths.length then some p else t.path? id := by
  split
  case isTrue h => rw [h, List.getElem?_concat_length]
  case isFalse h =>
    rw [path?, List.getElem?_append]
    split
    case isTrue => rfl
    case isFalse hle =>
      have hlt : t.paths.length < id := Nat.lt_of_le_of_ne (Nat.le_of_not_lt hle) (Ne.symm h)
      rw [List.getElem?_eq_none (Nat.le_of_not_lt hle), List.getElem?_eq_none]
      exact Nat.sub_pos_of_lt hlt

theorem Inverse.register {t : PathTables} (h : t.Inverse) (p : Path) :
    (t.register p).1.Inverse := by
  unfold PathTables.register
  split
  case h_1 => exact h
  case h_2 hnew =>
    constructor
    case path?_of_ids =>
      intro components id hid
      rw [getElem?_ids_insert] at hid
      rw [path?, getElem?_paths_append]
      split at hid
      case isTrue heq =>
        cases hid
        exact ⟨p, if_pos rfl, heq⟩
      case isFalse =>
        obtain ⟨q, hq, hcomponents⟩ := h.path?_of_ids components id hid
        have hlt : id < t.paths.length := (List.getElem?_eq_some_iff.mp hq).1
        exact ⟨q, (if_neg (Nat.ne_of_lt hlt)).trans hq, hcomponents⟩
    case id?_of_path? =>
      intro id q hq
      rw [path?, getElem?_paths_append] at hq
      rw [id?, getElem?_ids_insert]
      split at hq
      case isTrue heq =>
        cases hq
        rw [if_pos rfl, heq]
      case isFalse =>
        have hid := h.id?_of_path? id q hq
        -- The new path would have been found, had it the components of this one.
        rw [if_neg fun heq => ?_]
        · exact hid
        · rw [id?, heq] at hnew
          exact Option.some_ne_none id (hid.symm.trans hnew)

end PathTables

/-- The tables that registrations make. -/
structure Registry extends PathTables where
  inverse : toPathTables.Inverse

namespace Registry

instance : EmptyCollection Registry := ⟨⟨{}, PathTables.inverse_empty⟩⟩

instance : Inhabited Registry := ⟨∅⟩

/-- The id of a path, which is registered if it is new. -/
def register (r : Registry) (p : Path) : Registry × FileId :=
  match h : r.toPathTables.register p with
  | (tables, id) =>
    have inverse : tables.Inverse := by
      have hregister := r.inverse.register p
      rwa [h] at hregister
    (⟨tables, inverse⟩, id)

end Registry

end Workbench
