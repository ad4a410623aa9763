import Workbench.Sorting

/-!
Sorting. Without repetition, whatever list comes in, the list that comes out is strictly increasing,
and so it is sorted and holds no element twice; where only equal elements compare equal it holds
all of them. With repetition nothing is lost.
-/

namespace Workbench

variable {α : Type} {cmp : α → α → Ordering}

theorem mem_of_mem_insertUnique {a b : α} {xs : List α} (h : b ∈ insertUnique cmp a xs) :
    b = a ∨ b ∈ xs := by
  induction xs with
  | nil => exact .inl (List.mem_singleton.mp h)
  | cons x rest ih =>
      rw [insertUnique] at h
      split at h
      · exact List.mem_cons.mp h
      · rcases List.mem_cons.mp h with rfl | hrest
        · exact .inl rfl
        · exact .inr (List.mem_cons_of_mem x hrest)
      · rcases List.mem_cons.mp h with rfl | hinserted
        · exact .inr List.mem_cons_self
        · exact (ih hinserted).imp_right (List.mem_cons_of_mem x)

theorem mem_insertUnique {a b : α} {xs : List α} (h : ∀ x ∈ xs, cmp a x = .eq → a = x) :
    b ∈ insertUnique cmp a xs ↔ b = a ∨ b ∈ xs := by
  refine ⟨mem_of_mem_insertUnique, fun hmem => ?_⟩
  induction xs with
  | nil => exact List.mem_singleton.mpr (hmem.resolve_right List.not_mem_nil)
  | cons x rest ih =>
      rw [insertUnique]
      split
      case h_1 => exact List.mem_cons.mpr hmem
      case h_2 heq =>
        obtain rfl := h x List.mem_cons_self heq
        exact hmem.elim (fun hb => hb ▸ List.mem_cons_self) id
      case h_3 =>
        have hrest := ih fun y hy => h y (List.mem_cons_of_mem x hy)
        rcases hmem with rfl | hmem
        · exact List.mem_cons_of_mem x (hrest (.inl rfl))
        · rcases List.mem_cons.mp hmem with rfl | hmem
          · exact List.mem_cons_self
          · exact List.mem_cons_of_mem x (hrest (.inr hmem))

theorem mem_sortUnique {xs : List α} (h : ∀ a ∈ xs, ∀ b ∈ xs, cmp a b = .eq → a = b) {b : α} :
    b ∈ sortUnique cmp xs ↔ b ∈ xs := by
  induction xs generalizing b with
  | nil => rfl
  | cons a rest ih =>
      have hrest {b : α} : b ∈ sortUnique cmp rest ↔ b ∈ rest := ih fun x hx y hy =>
        h x (List.mem_cons_of_mem a hx) y (List.mem_cons_of_mem a hy)
      have hinsert : b ∈ insertUnique cmp a (sortUnique cmp rest) ↔
          b = a ∨ b ∈ sortUnique cmp rest :=
        mem_insertUnique fun x hx =>
          h a List.mem_cons_self x (List.mem_cons_of_mem a (hrest.mp hx))
      rw [List.mem_cons, ← hrest]
      exact hinsert

theorem insertSorted_perm (cmp : α → α → Ordering) (a : α) (xs : List α) :
    (insertSorted cmp a xs).Perm (a :: xs) := by
  induction xs with
  | nil => exact .refl _
  | cons x rest ih =>
      rw [insertSorted]
      split
      · exact .refl _
      · exact (ih.cons x).trans (.swap a x rest)

theorem sortBy_perm (cmp : α → α → Ordering) (xs : List α) : (sortBy cmp xs).Perm xs := by
  induction xs with
  | nil => exact .refl _
  | cons a rest ih => exact (insertSorted_perm cmp a _).trans (ih.cons a)

variable [Std.TransCmp cmp]

theorem pairwise_insertUnique (a : α) {xs : List α} (h : xs.Pairwise (cmp · · = .lt)) :
    (insertUnique cmp a xs).Pairwise (cmp · · = .lt) := by
  induction xs with
  | nil => exact List.pairwise_singleton _ a
  | cons x rest ih =>
      obtain ⟨hx, hrest⟩ := List.pairwise_cons.mp h
      rw [insertUnique]
      split
      case h_1 hlt =>
        refine List.pairwise_cons.mpr ⟨fun b hb => ?_, h⟩
        rcases List.mem_cons.mp hb with rfl | hb
        · exact hlt
        · exact Std.TransCmp.lt_trans hlt (hx b hb)
      case h_2 heq =>
        -- The new element stands for the one it equals, so it compares to the rest as that did.
        refine List.pairwise_cons.mpr ⟨fun b hb => ?_, hrest⟩
        exact Std.TransCmp.lt_of_eq_of_lt heq (hx b hb)
      case h_3 hgt =>
        refine List.pairwise_cons.mpr ⟨fun b hb => ?_, ih hrest⟩
        rcases mem_of_mem_insertUnique hb with rfl | hb
        · exact Std.OrientedCmp.lt_of_gt hgt
        · exact hx b hb

theorem pairwise_sortUnique (xs : List α) : (sortUnique cmp xs).Pairwise (cmp · · = .lt) := by
  induction xs with
  | nil => exact List.Pairwise.nil
  | cons a rest ih => exact pairwise_insertUnique a ih

theorem pairwise_insertSorted (a : α) {xs : List α}
    (h : xs.Pairwise fun x y => (cmp x y).isLE) :
    (insertSorted cmp a xs).Pairwise fun x y => (cmp x y).isLE := by
  induction xs with
  | nil => exact List.pairwise_singleton _ a
  | cons x rest ih =>
      obtain ⟨hx, hrest⟩ := List.pairwise_cons.mp h
      rw [insertSorted]
      split
      case isTrue hle =>
        refine List.pairwise_cons.mpr ⟨fun b hb => ?_, h⟩
        rcases List.mem_cons.mp hb with rfl | hb
        · exact hle
        · exact Std.TransCmp.isLE_trans hle (hx b hb)
      case isFalse hnot =>
        refine List.pairwise_cons.mpr ⟨fun b hb => ?_, ih hrest⟩
        rcases List.mem_cons.mp ((insertSorted_perm cmp a rest).mem_iff.mp hb) with rfl | hb
        · have hswap : cmp x b = (cmp b x).swap := Std.OrientedCmp.eq_swap
          cases hcmp : cmp b x <;> simp_all
        · exact hx b hb

theorem pairwise_sortBy (xs : List α) :
    (sortBy cmp xs).Pairwise fun x y => (cmp x y).isLE := by
  induction xs with
  | nil => exact List.Pairwise.nil
  | cons a rest ih => exact pairwise_insertSorted a ih

/-- A list in order stands for all lists with the same elements as often: what comes out does not
tell in which order they came in. -/
theorem sortBy_eq_sortBy_iff [Std.LawfulEqCmp cmp] {xs ys : List α} :
    sortBy cmp xs = sortBy cmp ys ↔ xs.Perm ys := by
  constructor
  · intro h
    exact (sortBy_perm cmp xs).symm.trans (h ▸ sortBy_perm cmp ys)
  · intro h
    have hperm : (sortBy cmp xs).Perm (sortBy cmp ys) :=
      (sortBy_perm cmp xs).trans (h.trans (sortBy_perm cmp ys).symm)
    refine hperm.eq_of_pairwise (fun a b _ _ hab hba => ?_)
      (pairwise_sortBy xs) (pairwise_sortBy ys)
    exact Std.LawfulEqCmp.eq_of_compare (Std.OrientedCmp.isLE_antisymm hab hba)

end Workbench
