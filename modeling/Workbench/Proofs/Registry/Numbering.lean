import Workbench.Proofs.Registry

/-!
The numbers of a history. However often and in whatever spellings paths are registered, the two
tables lead back to each other, and the ids that the paths get are the numbers below the size, one
for each sequence of components. An id stands for the spelling that came first, and no later
registration gives it another path or a path another id.
-/

namespace Workbench.PathTables

/-- Registers paths one after another, and lists the ids that they get. -/
def registerEach (t : PathTables) : List Path → PathTables × List FileId
  | [] => (t, [])
  | p :: rest =>
    let (t, id) := t.register p
    let (t, ids) := t.registerEach rest
    (t, id :: ids)

variable {t : PathTables} {p q : Path} {paths : List Path} {id : FileId}

/-! ### One registration -/

/-- A registration adds at most the path itself, and that only if it is new. -/
theorem path?_of_register (h : (t.register p).1.path? id = some q) :
    t.path? id = some q ∨ q = p ∧ t.id? p = none := by
  unfold register at h
  split at h
  case h_1 => exact .inl h
  case h_2 hnew =>
    rw [path?, getElem?_paths_append] at h
    split at h
    case isTrue => exact .inr ⟨(Option.some.inj h).symm, hnew⟩
    case isFalse => exact .inl h

theorem Inverse.lt_size_of_id? (h : t.Inverse) (hid : t.id? p = some id) : id < t.size := by
  obtain ⟨q, hq, -⟩ := h.same_of_id? hid
  exact (List.getElem?_eq_some_iff.mp hq).1

/-- A path that has an id shares it with its other spellings and with nothing else. -/
theorem Inverse.id?_eq_id?_iff (h : t.Inverse) (hid : t.id? p = some id) :
    t.id? p = t.id? q ↔ p.components = q.components := by
  refine ⟨fun heq => ?_, id?_congr⟩
  obtain ⟨first, hfirst, hsame⟩ := h.path?_of_ids p.components id hid
  obtain ⟨first', hfirst', hsame'⟩ := h.path?_of_ids q.components id (heq.symm.trans hid)
  obtain rfl := Option.some.inj (hfirst.symm.trans hfirst')
  exact hsame.symm.trans hsame'

theorem Inverse.exists_path? (h : t.Inverse) (hid : id < t.size) :
    ∃ p, t.path? id = some p ∧ t.id? p = some id :=
  have hp : t.path? id = some t.paths[id] := List.getElem?_eq_getElem hid
  ⟨_, hp, h.id?_of_path? id _ hp⟩

/-! ### All registrations -/

/-- Of the spellings of one sequence of components, the one that comes first. -/
def FirstSpelled (paths : List Path) (p : Path) : Prop :=
  ∃ before after, paths = before ++ p :: after ∧ ∀ q ∈ before, q.components ≠ p.components

theorem FirstSpelled.mem (h : FirstSpelled paths p) : p ∈ paths := by
  obtain ⟨before, after, rfl, -⟩ := h
  simp

theorem FirstSpelled.cons (h : FirstSpelled paths p) (hne : q.components ≠ p.components) :
    FirstSpelled (q :: paths) p := by
  obtain ⟨before, after, rfl, hbefore⟩ := h
  refine ⟨q :: before, after, rfl, fun other hother => ?_⟩
  rcases List.mem_cons.mp hother with rfl | hother
  · exact hne
  · exact hbefore other hother

/-- The tables stay inverse to each other. -/
theorem Inverse.registerEach (h : t.Inverse) (paths : List Path) :
    (t.registerEach paths).1.Inverse := by
  induction paths generalizing t with
  | nil => exact h
  | cons p rest ih => exact ih (h.register p)

theorem grows_registerEach (t : PathTables) (paths : List Path) :
    t.Grows (t.registerEach paths).1 := by
  induction paths generalizing t with
  | nil => exact .refl t
  | cons p rest ih => exact (t.grows_register p).trans (ih _)

/-- Each path still has the id that it got. -/
theorem map_id?_registerEach (t : PathTables) (paths : List Path) :
    paths.map (t.registerEach paths).1.id? = (t.registerEach paths).2.map some := by
  induction paths generalizing t with
  | nil => rfl
  | cons p rest ih =>
      have hfirst := (grows_registerEach (t.register p).1 rest).id? (t.id?_register p)
      exact congr (congrArg List.cons hfirst) (ih (t.register p).1)

/-- The ids that are handed out are those of the paths. -/
theorem mem_registerEach : id ∈ (t.registerEach paths).2 ↔
    ∃ p ∈ paths, (t.registerEach paths).1.id? p = some id := by
  rw [← List.mem_map, map_id?_registerEach]
  simp

theorem exists_id?_of_mem (hp : p ∈ paths) :
    ∃ id, (t.registerEach paths).1.id? p = some id := by
  have hmem : (t.registerEach paths).1.id? p ∈ (t.registerEach paths).2.map some := by
    rw [← map_id?_registerEach]
    exact List.mem_map_of_mem hp
  obtain ⟨id, -, hid⟩ := List.mem_map.mp hmem
  exact ⟨id, hid.symm⟩

/-- What has an id after some registrations had it before, or it is the first spelling of what was
not known before. -/
theorem path?_of_registerEach (h : (t.registerEach paths).1.path? id = some q) :
    t.path? id = some q ∨ FirstSpelled paths q ∧ t.id? q = none := by
  induction paths generalizing t with
  | nil => exact .inl h
  | cons p rest ih =>
      rcases ih (t := (t.register p).1) h with hone | ⟨hfirst, hnone⟩
      · rcases path?_of_register hone with hold | ⟨rfl, hnew⟩
        · exact .inl hold
        · exact .inr ⟨⟨[], rest, rfl, by simp⟩, hnew⟩
      · -- The path in front is known by now, so it is not spelled like this one.
        have hne : p.components ≠ q.components := fun heq => by
          rw [← id?_congr heq, id?_register] at hnone
          contradiction
        refine .inr ⟨hfirst.cons hne, ?_⟩
        cases hid : t.id? q with
        | none => rfl
        | some id => exact absurd ((t.grows_register p).id? hid) (by simp [hnone])

/-! ### From empty tables -/

theorem inverse_registerEach (paths : List Path) :
    (({} : PathTables).registerEach paths).1.Inverse :=
  inverse_empty.registerEach paths

theorem firstSpelled_of_path? (h : (({} : PathTables).registerEach paths).1.path? id = some p) :
    FirstSpelled paths p := by
  rcases path?_of_registerEach h with hempty | ⟨hfirst, -⟩
  · rw [path?, List.getElem?_nil] at hempty
    contradiction
  · exact hfirst

/-- The ids that are handed out are the numbers below the size. -/
theorem mem_registerEach_iff_lt :
    id ∈ (({} : PathTables).registerEach paths).2 ↔
      id < (({} : PathTables).registerEach paths).1.size := by
  rw [mem_registerEach]
  constructor
  · rintro ⟨p, -, hid⟩
    exact (inverse_registerEach paths).lt_size_of_id? hid
  · intro hlt
    obtain ⟨p, hp, hid⟩ := (inverse_registerEach paths).exists_path? hlt
    exact ⟨p, (firstSpelled_of_path? hp).mem, hid⟩

theorem id?_registerEach_eq_none_iff :
    (({} : PathTables).registerEach paths).1.id? p = none ↔
      ∀ q ∈ paths, q.components ≠ p.components := by
  constructor
  · intro hnone q hq heq
    obtain ⟨id, hid⟩ := exists_id?_of_mem (t := {}) hq
    rw [id?_congr heq, hnone] at hid
    contradiction
  · intro h
    cases hid : (({} : PathTables).registerEach paths).1.id? p with
    | none => rfl
    | some id =>
        obtain ⟨q, hq, hsame⟩ := (inverse_registerEach paths).path?_of_ids p.components id hid
        exact absurd hsame (h q (firstSpelled_of_path? hq).mem)

/-- What the tables say of the paths that were registered, and of the ids that they got. -/
structure Numbers (t : PathTables) (paths : List Path) (ids : List FileId) : Prop where
  mem_ids : ∀ id, id ∈ ids ↔ id < t.size
  map_id? : paths.map t.id? = ids.map some
  path?_of_mem : ∀ p ∈ paths, ∃ id q,
    t.id? p = some id ∧ t.path? id = some q ∧ q.components = p.components
  id?_of_lt : ∀ id < t.size, ∃ p, t.path? id = some p ∧ t.id? p = some id
  id?_eq_iff : ∀ p ∈ paths, ∀ q ∈ paths, t.id? p = t.id? q ↔ p.components = q.components
  id?_eq_none_iff : ∀ p, t.id? p = none ↔ ∀ q ∈ paths, q.components ≠ p.components
  first_of_path? : ∀ id p, t.path? id = some p → FirstSpelled paths p

/-- What tables answer to, later ones answer alike. -/
structure Keeps (t t' : PathTables) : Prop where
  id?_eq : ∀ p id, t.id? p = some id → t'.id? p = some id
  path?_eq : ∀ id p, t.path? id = some p → t'.path? id = some p

/-- After any registrations the two tables are inverse to each other. The ids that were handed out
are the numbers below the size, each of them for one sequence of components, and whatever is
registered later, paths keep their ids and ids their paths. -/
theorem numbers_registerEach (paths later : List Path) :
    (({} : PathTables).registerEach paths).1.Inverse ∧
      (({} : PathTables).registerEach paths).1.Numbers paths
        (({} : PathTables).registerEach paths).2 ∧
      (({} : PathTables).registerEach paths).1.Keeps
        ((({} : PathTables).registerEach paths).1.registerEach later).1 := by
  have hinverse := inverse_registerEach paths
  have hlater := grows_registerEach (({} : PathTables).registerEach paths).1 later
  refine ⟨hinverse, ?_, ⟨fun _ _ => hlater.id?, fun _ _ => hlater.path?⟩⟩
  constructor
  case mem_ids => exact fun _ => mem_registerEach_iff_lt
  case map_id? => exact map_id?_registerEach {} paths
  case path?_of_mem =>
    intro p hp
    obtain ⟨id, hid⟩ := exists_id?_of_mem (t := {}) hp
    obtain ⟨q, hq, hsame⟩ := hinverse.path?_of_ids p.components id hid
    exact ⟨id, q, hid, hq, hsame⟩
  case id?_of_lt => exact fun _ => hinverse.exists_path?
  case id?_eq_iff =>
    intro p hp q _
    obtain ⟨id, hid⟩ := exists_id?_of_mem (t := {}) hp
    exact hinverse.id?_eq_id?_iff hid
  case id?_eq_none_iff => exact fun _ => id?_registerEach_eq_none_iff
  case first_of_path? => exact fun _ _ => firstSpelled_of_path?

/-- Two spellings of one path, and another path between them. -/
example : (({} : PathTables).registerEach [⟨"a//b"⟩, ⟨"c"⟩, ⟨"a/./b"⟩]).2 = [0, 1, 0] := by
  decide +kernel

end Workbench.PathTables
