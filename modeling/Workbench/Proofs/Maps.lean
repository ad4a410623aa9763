import Std.Data.ExtTreeMap
import Std.Data.ExtTreeSet

/-!
Maps and sets as lists of entries, and what an insertion does that never replaces.
-/

namespace Workbench

variable {κ ν : Type} {cmp : κ → κ → Ordering} [Std.TransCmp cmp] [Std.LawfulEqCmp cmp]
  {m : Std.ExtTreeMap κ ν cmp} {key : κ} {value : ν}

theorem nodup_toList (set : Std.ExtTreeSet κ cmp) : set.toList.Nodup := by
  refine set.distinct_toList.imp fun hdistinct heq => hdistinct ?_
  rw [heq]
  exact Std.ReflCmp.compare_self

theorem nodup_entries (m : Std.ExtTreeMap κ ν cmp) : m.toList.Nodup := by
  refine m.distinct_keys_toList.imp fun hdistinct heq => hdistinct ?_
  rw [heq]
  exact Std.ReflCmp.compare_self

/-- A map lists an entry and those of its other keys. -/
theorem toList_perm_of_getElem? (h : m[key]? = some value) :
    m.toList.Perm ((key, value) :: (m.erase key).toList) := by
  refine (List.perm_ext_iff_of_nodup (nodup_entries m) (List.nodup_cons.mpr
    ⟨fun hmem => ?_, nodup_entries _⟩)).mpr fun entry => ?_
  · rw [Std.ExtTreeMap.mem_toList_iff_getElem?_eq_some, Std.ExtTreeMap.getElem?_erase_self] at hmem
    contradiction
  · obtain ⟨other, found⟩ := entry
    rw [List.mem_cons, Std.ExtTreeMap.mem_toList_iff_getElem?_eq_some,
      Std.ExtTreeMap.mem_toList_iff_getElem?_eq_some, Std.ExtTreeMap.getElem?_erase,
      Prod.mk.injEq]
    by_cases heq : key = other
    · subst heq
      rw [if_pos Std.ReflCmp.compare_self, h]
      simp [eq_comm]
    · rw [if_neg (mt Std.LawfulEqCmp.eq_of_compare heq)]
      simp [Ne.symm heq]

theorem toList_insert_perm (m : Std.ExtTreeMap κ ν cmp) (key : κ) (value : ν) :
    (m.insert key value).toList.Perm ((key, value) :: (m.erase key).toList) := by
  have herase : (m.insert key value).erase key = m.erase key :=
    Std.ExtTreeMap.ext_getElem? fun other => by
      rw [Std.ExtTreeMap.getElem?_erase, Std.ExtTreeMap.getElem?_erase,
        Std.ExtTreeMap.getElem?_insert]
      split <;> rfl
  exact herase ▸ toList_perm_of_getElem? Std.ExtTreeMap.getElem?_insert_self

/-- Of two values under one key the later one stays. -/
theorem insert_insert (m : Std.ExtTreeMap κ ν cmp) (key : κ) (first second : ν) :
    (m.insert key first).insert key second = m.insert key second :=
  Std.ExtTreeMap.ext_getElem? fun other => by
    rw [Std.ExtTreeMap.getElem?_insert, Std.ExtTreeMap.getElem?_insert,
      Std.ExtTreeMap.getElem?_insert]
    split <;> rfl

theorem erase_of_not_mem (h : key ∉ m) : m.erase key = m :=
  Std.ExtTreeMap.ext_getElem? fun other => by
    rw [Std.ExtTreeMap.getElem?_erase]
    split
    case isTrue heq =>
      rw [← Std.LawfulEqCmp.eq_of_compare heq, Std.ExtTreeMap.getElem?_eq_none h]
    case isFalse => rfl

theorem insertIfNew_of_mem (h : key ∈ m) : m.insertIfNew key value = m :=
  Std.ExtTreeMap.ext_getElem? fun other => by
    rw [Std.ExtTreeMap.getElem?_insertIfNew, if_neg fun hnew => hnew.2 h]

theorem insertIfNew_of_not_mem (h : key ∉ m) : m.insertIfNew key value = m.insert key value :=
  Std.ExtTreeMap.ext_getElem? fun other => by
    rw [Std.ExtTreeMap.getElem?_insertIfNew, Std.ExtTreeMap.getElem?_insert]
    simp only [h, not_false_eq_true, and_true]

/-- A value that was there before is found, and else the new one. -/
theorem getElem?_insertIfNew_or [DecidableEq κ] (m : Std.ExtTreeMap κ ν cmp) (key other : κ)
    (value : ν) :
    (m.insertIfNew key value)[other]? = m[other]?.or (if key = other then some value else none) := by
  by_cases heq : key = other
  · subst heq
    rw [if_pos rfl]
    by_cases hold : key ∈ m
    · rw [insertIfNew_of_mem hold, Std.ExtTreeMap.getElem?_eq_some_getElem hold, Option.some_or]
    · rw [insertIfNew_of_not_mem hold, Std.ExtTreeMap.getElem?_eq_none hold, Option.none_or,
        Std.ExtTreeMap.getElem?_insert_self]
  · rw [Std.ExtTreeMap.getElem?_insertIfNew,
      if_neg fun hnew => heq (Std.LawfulEqCmp.eq_of_compare hnew.1), if_neg heq, Option.or_none]

omit [Std.LawfulEqCmp cmp] in
/-- Entries that are inserted under other keys do not matter for a key. -/
theorem getElem?_foldl_insert_of_ne {entries : List (κ × ν)} (m : Std.ExtTreeMap κ ν cmp)
    (h : ∀ entry ∈ entries, cmp entry.1 key ≠ .eq) :
    (entries.foldl (fun map entry => map.insert entry.1 entry.2) m)[key]? = m[key]? := by
  induction entries generalizing m with
  | nil => rfl
  | cons entry rest ih =>
      rw [List.foldl_cons, ih _ fun other hother => h other (List.mem_cons_of_mem _ hother),
        Std.ExtTreeMap.getElem?_insert, if_neg (h entry List.mem_cons_self)]

/-- A map is made of its entries. -/
theorem foldl_insert_toList (m : Std.ExtTreeMap κ ν cmp) :
    m.toList.foldl (fun map entry => map.insert entry.1 entry.2) ∅ = m := by
  have hall {entries : List (κ × ν)} (hdistinct : entries.Pairwise fun a b => ¬ cmp a.1 b.1 = .eq)
      (start : Std.ExtTreeMap κ ν cmp) {key : κ} {value : ν} (hentry : (key, value) ∈ entries) :
      (entries.foldl (fun map entry => map.insert entry.1 entry.2) start)[key]? = some value := by
    induction entries generalizing start with
    | nil => contradiction
    | cons entry rest ih =>
        obtain ⟨hfirst, hrest⟩ := List.pairwise_cons.mp hdistinct
        rcases List.mem_cons.mp hentry with rfl | hlater
        · rw [List.foldl_cons, getElem?_foldl_insert_of_ne _ fun other hother heq =>
            hfirst other hother (Std.OrientedCmp.eq_symm heq), Std.ExtTreeMap.getElem?_insert_self]
        · exact ih hrest _ hlater
  refine Std.ExtTreeMap.ext_getElem? fun key => ?_
  cases hfound : m[key]? with
  | some value =>
      exact hall m.distinct_keys_toList ∅ (Std.ExtTreeMap.mem_toList_iff_getElem?_eq_some.mpr hfound)
  | none =>
      rw [getElem?_foldl_insert_of_ne _ fun entry hentry heq => ?_]
      · exact Std.ExtTreeMap.getElem?_empty
      · have hsome : m[entry.1]? = some entry.2 :=
          Std.ExtTreeMap.mem_toList_iff_getElem?_eq_some.mp hentry
        rw [Std.LawfulEqCmp.eq_of_compare heq, hfound] at hsome
        contradiction

end Workbench
