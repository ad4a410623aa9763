import Workbench.Proofs.Tracker.Consultation

/-!
How the text that is kept for a closed file goes. Nobody has to touch the file for that: the text
grows too old, or it is pushed out when the table is full and the text of another file comes in, or
it is invalidated. Whatever else happens to other files, it stays.
-/

namespace Workbench.Tracker

variable {t t' t'' : Tracker} {d : Disk} {file other : FileId} {p : Path} {kept : ClosedText}
  {action : Action}

/-- A later state of the same tracker. -/
structure Later (t t' : Tracker) : Prop where
  grows : t.registry.Grows t'.registry
  clock_le : t.clock ≤ t'.clock
  timeToLive_eq : t'.timeToLive = t.timeToLive
  capacity_eq : t'.closed.capacity = t.closed.capacity
  fits : t.closed.Fits → t'.closed.Fits

theorem Later.refl (t : Tracker) : t.Later t := ⟨.refl _, Nat.le_refl _, rfl, rfl, id⟩

theorem Later.trans (h : t.Later t') (h' : t'.Later t'') : t.Later t'' :=
  ⟨h.grows.trans h'.grows, Nat.le_trans h.clock_le h'.clock_le,
    h'.timeToLive_eq.trans h.timeToLive_eq, h'.capacity_eq.trans h.capacity_eq,
    fun hfits => h'.fits (h.fits hfits)⟩

theorem Consulted.later (h : t.Consulted t') : t.Later t' :=
  ⟨h.grows, Nat.le_of_eq h.clock_eq.symm, h.timeToLive_eq, h.capacity_eq, h.fits⟩

theorem later_act (t : Tracker) (d : Disk) (action : Action) : t.Later (t.act d action) := by
  cases action with
  | openDocument p text version =>
      exact ⟨t.registry.grows_register (d.normalize p), Nat.le_refl _, rfl, rfl,
        fun hfits => hfits.erase _⟩
  | change p version changes =>
      simp only [act, change]
      split <;> exact ⟨.refl _, Nat.le_refl _, rfl, rfl, id⟩
  | closeDocument p =>
      simp only [act, closeDocument]
      split
      · exact .refl t
      · exact ⟨.refl _, Nat.le_refl _, rfl, rfl, fun _ => ClosedTexts.fits_put _ _ _⟩
  | beginSplice p text =>
      simp only [act, beginSplice]
      split <;> exact ⟨.refl _, Nat.le_refl _, rfl, rfl, id⟩
  | endSplice p =>
      simp only [act, endSplice]
      split <;> exact ⟨.refl _, Nat.le_refl _, rfl, rfl, id⟩
  | register p => exact (t.consulted_register d p).later
  | read p => exact (t.consulted_contents d p).later
  | readId file => exact (t.consulted_contentsOfId d file).later
  | notify change =>
      exact ⟨t.registry.grows_register (d.normalize change.path), Nat.le_refl _, rfl, rfl,
        fun hfits => hfits.erase _⟩
  | invalidate p =>
      simp only [act, invalidate]
      split
      · exact ⟨.refl _, Nat.le_refl _, rfl, rfl, fun hfits => hfits.erase _⟩
      · exact .refl t
  | clearMarks files => exact ⟨.refl _, Nat.le_refl _, rfl, rfl, id⟩
  | wait milliseconds => exact ⟨.refl _, Nat.le_add_right _ _, rfl, rfl, id⟩

theorem later_run (t : Tracker) (d : Disk) (actions : List Action) :
    t.Later (t.run d actions) := by
  induction actions generalizing t with
  | nil => exact .refl t
  | cons action rest ih => exact (t.later_act d action).trans (ih _)

/-! ### One action -/

/-- An action drops the text that is kept for a file, although it is not too old. Either the table is
full, the text is the one that was not used for the longest time, and the text of a further file is
put there; or the file is invalidated. -/
inductive Drops (capacity : Nat) (t : Tracker) (d : Disk) (action : Action) (file : FileId)
    (kept : ClosedText) : Prop where
  | pushedOut (other : FileId) (text : String)
      (hfull : t.closed.entries.length = capacity)
      (holdest : t.closed.entries.getLast? = some (file, kept))
      (hfurther : t.closed.get? other = none)
      (hput : (t.act d action).closed = t.closed.put other ⟨text, t.clock⟩)
  | invalidated (q : Path) (haction : action = .invalidate q) (hid : t.id? d q = some file)

/-- What a read of any file can do to the text that is kept for this one. -/
theorem get?_closed_textOf (hfits : t.closed.Fits) (hkept : t.closed.get? file = some kept)
    (d : Disk) (other : FileId) (p : Path) :
    (t.textOf d other p).1.closed.get? file = some kept ∨
      t.timeToLive ≤ t.clock - kept.cachedAt ∨
      ∃ text, t.closed.entries.length = t.closed.capacity ∧
        t.closed.entries.getLast? = some (file, kept) ∧ t.closed.get? other = none ∧
        (t.textOf d other p).1.closed = t.closed.put other ⟨text, t.clock⟩ := by
  unfold textOf keptText?
  split
  case h_1 => exact .inl hkept
  case h_2 =>
    cases hother : t.closed.get? other with
    | none =>
        have hne : file ≠ other := fun heq => by
          rw [heq, hother] at hkept
          contradiction
        dsimp only
        cases d.text? p with
        | none => exact .inl hkept
        | some text =>
            refine (hfits.get?_put hne hkept).imp id fun ⟨hfull, holdest, _⟩ => .inr ?_
            exact ⟨text, hfull, holdest, rfl, rfl⟩
    | some found =>
        dsimp only
        by_cases hfresh : t.clock - found.cachedAt < t.timeToLive
        · rw [if_pos hfresh]
          left
          exact ClosedTexts.get?_promote.trans hkept
        · rw [if_neg hfresh]
          by_cases hne : file = other
          · -- The text that is too old is this one.
            subst hne
            obtain rfl := Option.some.inj (hkept.symm.trans hother)
            exact .inr (.inl (Nat.le_of_not_lt hfresh))
          · have hstays : (t.forget other).closed.get? file = some kept :=
              (ClosedTexts.get?_erase_of_ne hne).trans hkept
            left
            dsimp only
            cases d.text? p with
            | none => exact hstays
            | some text =>
                -- Dropping the other text has made room for its successor.
                refine ((hfits.erase other).get?_put hne hstays).resolve_right ?_
                rintro ⟨hfull, -⟩
                have hfewer := ClosedTexts.length_erase_lt hother
                exact Nat.ne_of_lt (Nat.lt_of_lt_of_le hfewer hfits) hfull

/-- After an action that does not mark the file, the text that was kept for it is kept still, unless
it was too old or the action drops it. -/
theorem get?_closed_act (hfits : t.closed.Fits) (hkept : t.closed.get? file = some kept)
    (action : Action) (hunmarked : file ∉ (t.act d action).changed) :
    (t.act d action).closed.get? file = some kept ∨ t.timeToLive ≤ t.clock - kept.cachedAt ∨
      Drops t.closed.capacity t d action file kept := by
  cases action with
  | openDocument p text version =>
      have hne : file ≠ (t.register d p).2 := by
        rintro rfl
        exact hunmarked Std.ExtTreeSet.mem_insert_self
      exact .inl ((ClosedTexts.get?_erase_of_ne hne).trans hkept)
  | change p version changes =>
      left
      simp only [act, change]
      split <;> exact hkept
  | closeDocument p =>
      cases hopen : t.document? d p with
      | none =>
          left
          rw [act, closeDocument, hopen]
          exact hkept
      | some found =>
          obtain ⟨id, document⟩ := found
          have hact : t.act d (.closeDocument p) =
              (({ t with documents := t.documents.erase id } : Tracker).keep id
                document.editorDocument.text).mark id := by
            rw [act, closeDocument, hopen]
          have hne : file ≠ id := by
            rintro rfl
            rw [hact] at hunmarked
            exact hunmarked Std.ExtTreeSet.mem_insert_self
          rcases hfits.get?_put hne hkept with hstays | ⟨hfull, holdest, hfurther⟩
          · left
            rw [hact]
            exact hstays
          · exact .inr (.inr (.pushedOut id _ hfull holdest hfurther (by rw [hact]; rfl)))
  | beginSplice p text =>
      left
      simp only [act, beginSplice]
      split <;> exact hkept
  | endSplice p =>
      left
      simp only [act, endSplice]
      split <;> exact hkept
  | register p => exact .inl hkept
  | read p =>
      have hread := get?_closed_textOf (t := (t.register d p).1) hfits hkept d (t.register d p).2 p
      refine hread.imp id (.imp id ?_)
      rintro ⟨text, hfull, holdest, hfurther, hput⟩
      exact .pushedOut _ text hfull holdest hfurther hput
  | readId other =>
      cases hpath : t.path? other with
      | none =>
          left
          rw [act, contentsOfId, hpath]
          exact hkept
      | some p =>
          have hact : t.act d (.readId other) = (t.textOf d other p).1 := by
            rw [act, contentsOfId, hpath]
          refine hact ▸ (get?_closed_textOf hfits hkept d other p).imp id (.imp id ?_)
          rintro ⟨text, hfull, holdest, hfurther, hput⟩
          exact .pushedOut other text hfull holdest hfurther (hact ▸ hput)
  | notify change =>
      have hne : file ≠ (t.register d change.path).2 := by
        rintro rfl
        exact hunmarked Std.ExtTreeSet.mem_insert_self
      exact .inl ((ClosedTexts.get?_erase_of_ne hne).trans hkept)
  | invalidate p =>
      cases hid : t.id? d p with
      | none =>
          left
          rw [act, invalidate, hid]
          exact hkept
      | some id =>
          by_cases hne : file = id
          · exact .inr (.inr (.invalidated p rfl (hne ▸ hid)))
          · left
            rw [act, invalidate, hid]
            exact (ClosedTexts.get?_erase_of_ne hne).trans hkept
  | clearMarks files => exact .inl hkept
  | wait milliseconds => exact .inl hkept

/-! ### Runs -/

/-- Over a run in which the file is never marked, the text that was kept for it is kept still at the
end, unless it is too old by then or some action of the run drops it. -/
theorem get?_closed_run (hfits : t.closed.Fits) (hkept : t.closed.get? file = some kept)
    (actions : List Action) (hunmarked : ∀ n, file ∉ (t.run d (actions.take n)).changed) :
    (t.run d actions).closed.get? file = some kept ∨
      t.timeToLive ≤ (t.run d actions).clock - kept.cachedAt ∨
      ∃ n action, actions[n]? = some action ∧
        Drops t.closed.capacity (t.run d (actions.take n)) d action file kept := by
  induction actions generalizing t with
  | nil => exact .inl hkept
  | cons action rest ih =>
      have hlater := t.later_act d action
      have hrest := (t.act d action).later_run d rest
      rcases get?_closed_act hfits hkept action (hunmarked 1) with hstays | hold | hdrops
      · refine (ih (hlater.fits hfits) hstays fun n => hunmarked (n + 1)).imp id (.imp ?_ ?_)
        · rw [hlater.timeToLive_eq]
          exact id
        · rintro ⟨n, next, hnext, hdrops⟩
          exact ⟨n + 1, next, hnext, hlater.capacity_eq ▸ hdrops⟩
      · -- A text only grows older.
        have hclock := Nat.le_trans hlater.clock_le hrest.clock_le
        exact .inr (.inl (Nat.le_trans hold (Nat.sub_le_sub_right hclock _)))
      · exact .inr (.inr ⟨0, action, rfl, hdrops⟩)

end Workbench.Tracker
