import Mathlib.Data.List.Induction

/-!
The last thing of a kind in a history. It is looked for from the end: each thing that is added
either is the last one itself or leaves it where it was.
-/

namespace Workbench

/-- The last of some things that is of a kind. -/
def LastOf {α : Type} (kind : α → Prop) (things : List α) (thing : α) : Prop :=
  ∃ before after, things = before ++ thing :: after ∧ kind thing ∧ ∀ other ∈ after, ¬ kind other

variable {α : Type} {kind : α → Prop} {things : List α} {new thing other : α}

theorem not_lastOf_nil : ¬ LastOf kind [] thing := by
  rintro ⟨before, after, h, -⟩
  simp at h

/-- The last one of a kind is the last of all, if that is of the kind, and else it came before. -/
theorem lastOf_concat :
    LastOf kind (things ++ [new]) thing ↔
      new = thing ∧ kind thing ∨ ¬ kind new ∧ LastOf kind things thing := by
  constructor
  · rintro ⟨before, after, h, hkind, hafter⟩
    -- Either nothing comes after it, or what comes last is the last of all.
    cases after using List.reverseRecOn with
    | nil => exact .inl ⟨(List.cons.inj (List.append_inj' h rfl).2).1, hkind⟩
    | append_singleton after last =>
        rw [← List.cons_append, ← List.append_assoc] at h
        obtain ⟨rfl, hlast⟩ := List.append_inj' h rfl
        cases hlast
        exact .inr ⟨hafter _ (by simp), before, after, rfl, hkind, fun other hother =>
          hafter other (by simp [hother])⟩
  · rintro (⟨rfl, hkind⟩ | ⟨hnew, before, after, rfl, hkind, hafter⟩)
    · exact ⟨things, [], rfl, hkind, by simp⟩
    · refine ⟨before, after ++ [new], by simp, hkind, fun other hother => ?_⟩
      rcases List.mem_append.mp hother with hbefore | hlast
      · exact hafter other hbefore
      · rwa [List.mem_singleton.mp hlast]

theorem LastOf.unique (h : LastOf kind things thing) (h' : LastOf kind things other) :
    thing = other := by
  induction things using List.reverseRecOn with
  | nil => exact (not_lastOf_nil h).elim
  | append_singleton things last ih =>
      rcases lastOf_concat.mp h with ⟨rfl, hlast⟩ | ⟨hlast, hearlier⟩ <;>
        rcases lastOf_concat.mp h' with ⟨rfl, hlast'⟩ | ⟨hlast', hearlier'⟩
      · rfl
      · exact absurd hlast hlast'
      · exact absurd hlast' hlast
      · exact ih hearlier hearlier'

end Workbench
