import Workbench.Registry

/-!
Ids that last. A registration only ever adds to the tables, so that an id keeps its path and a path
its id. A path that is registered already is not registered again.
-/

namespace Workbench

namespace PathTables

variable {t t' : PathTables} {p q : Path} {a b id : FileId}

/-- The second tables know all that the first ones do, by the same ids. -/
structure Grows (t t' : PathTables) : Prop where
  path? : ∀ {id p}, t.path? id = some p → t'.path? id = some p
  id? : ∀ {id p}, t.id? p = some id → t'.id? p = some id

theorem Grows.refl (t : PathTables) : t.Grows t := ⟨fun h => h, fun h => h⟩

theorem Grows.trans {t₁ t₂ t₃ : PathTables} (h : t₁.Grows t₂) (h' : t₂.Grows t₃) : t₁.Grows t₃ :=
  ⟨fun hp => h'.path? (h.path? hp), fun hid => h'.id? (h.id? hid)⟩

theorem grows_register (t : PathTables) (p : Path) : t.Grows (t.register p).1 := by
  unfold register
  split
  case h_1 => exact .refl t
  case h_2 hnew =>
    constructor
    case path? =>
      intro id q hq
      have hlt : id < t.paths.length := (List.getElem?_eq_some_iff.mp hq).1
      rw [PathTables.path?, getElem?_paths_append, if_neg (Nat.ne_of_lt hlt), hq]
    case id? =>
      intro id q hid
      have hne : p.components ≠ q.components := fun heq => by
        rw [PathTables.id?, heq, ← PathTables.id?, hid] at hnew
        contradiction
      rw [PathTables.id?, getElem?_ids_insert, if_neg hne, ← PathTables.id?, hid]

theorem id?_register (t : PathTables) (p : Path) :
    (t.register p).1.id? p = some (t.register p).2 := by
  unfold register
  split
  case h_1 hid => exact hid
  case h_2 => rw [id?, getElem?_ids_insert, if_pos rfl]

theorem Inverse.same_of_id? (h : t.Inverse) (hid : t.id? p = some id) :
    ∃ q, t.path? id = some q ∧ q.same p := by
  obtain ⟨q, hq, hcomponents⟩ := h.path?_of_ids p.components id hid
  exact ⟨q, hq, beq_iff_eq.mpr hcomponents⟩

/-- What a path is looked up by are its components. -/
theorem id?_congr (h : p.components = q.components) : t.id? p = t.id? q := by
  rw [id?, id?, h]

theorem Inverse.eq_of_same (h : t.Inverse) (hp : t.path? a = some p) (hq : t.path? b = some q)
    (hsame : p.same q) : a = b := by
  have hids : t.id? p = t.id? q := id?_congr (beq_iff_eq.mp hsame)
  rw [h.id?_of_path? a p hp, h.id?_of_path? b q hq] at hids
  exact Option.some.inj hids

end PathTables

namespace Registry

variable {r r' : Registry} {p q : Path} {a b file : FileId}

def Grows (r r' : Registry) : Prop := r.toPathTables.Grows r'.toPathTables

theorem Grows.refl (r : Registry) : r.Grows r := PathTables.Grows.refl r.toPathTables

theorem Grows.trans {r₁ r₂ r₃ : Registry} (h : r₁.Grows r₂) (h' : r₂.Grows r₃) : r₁.Grows r₃ :=
  PathTables.Grows.trans h h'

theorem grows_register (r : Registry) (p : Path) : r.Grows (r.register p).1 :=
  r.toPathTables.grows_register p

theorem id?_register (r : Registry) (p : Path) :
    (r.register p).1.id? p = some (r.register p).2 :=
  r.toPathTables.id?_register p

theorem eq_of_toPathTables (h : r.toPathTables = r'.toPathTables) : r = r' := by
  cases r
  cases r'
  cases h
  rfl

theorem register_of_id? (h : r.id? p = some file) : r.register p = (r, file) := by
  have htables : r.toPathTables.register p = (r.toPathTables, file) := by
    rw [PathTables.register, h]
  have hid : (r.toPathTables.register p).2 = file := congrArg Prod.snd htables
  exact Prod.ext (eq_of_toPathTables (congrArg Prod.fst htables)) hid

/-- A path that is registered only now gets a new file. -/
theorem path?_register_of_id?_eq_none (h : r.id? p = none) :
    r.path? (r.register p).2 = none := by
  have hid : (r.register p).2 = r.paths.length := by
    have htables : (r.toPathTables.register p).2 = r.paths.length := by
      rw [PathTables.register, h]
    exact htables
  rw [PathTables.path?, hid, List.getElem?_eq_none (Nat.le_refl _)]

theorem path?_inj (ha : r.path? a = some p) (hb : r.path? b = some p) : a = b :=
  r.inverse.eq_of_same ha hb (by rw [Path.same, beq_self_eq_true])

/-- Whether an id has a path. -/
def Knows (r : Registry) (file : FileId) : Prop := r.path? file ≠ none

theorem knows_of_path? (h : r.path? file = some p) : r.Knows file :=
  fun hnone => Option.some_ne_none p (h.symm.trans hnone)

theorem knows_of_id? (h : r.id? p = some file) : r.Knows file := by
  obtain ⟨q, hq, -⟩ := r.inverse.same_of_id? h
  exact knows_of_path? hq

theorem Knows.grows (h : r.Grows r') (hfile : r.Knows file) : r'.Knows file := by
  obtain ⟨p, hp⟩ := Option.ne_none_iff_exists'.mp hfile
  exact knows_of_path? (PathTables.Grows.path? h hp)

theorem knows_register (r : Registry) (p : Path) : (r.register p).1.Knows (r.register p).2 :=
  knows_of_id? (r.id?_register p)

end Registry

end Workbench
