import Workbench.Tracker.ClosedTexts

/-!
Look-ups in the table of kept texts. Dropping, putting and promoting a text can lose the texts of
other files, but never gives any of them another text. The table never outgrows its capacity.
-/

namespace Workbench.ClosedTexts

variable {c : ClosedTexts} {file other : FileId} {text kept : ClosedText}

theorem lookup_filter_of_ne {α : Type} (h : file ≠ other) (entries : List (FileId × α)) :
    (entries.filter fun entry => entry.1 != other).lookup file = entries.lookup file := by
  induction entries with
  | nil => rfl
  | cons entry rest ih =>
      obtain ⟨key, value⟩ := entry
      by_cases hkey : key = other
      · subst hkey
        rw [List.filter_cons_of_neg (by simp), ih, List.lookup_cons, beq_false_of_ne h]
      · rw [List.filter_cons_of_pos (by simpa using hkey), List.lookup_cons, List.lookup_cons, ih]

theorem get?_erase_of_ne (h : file ≠ other) : (c.erase other).get? file = c.get? file :=
  lookup_filter_of_ne h c.entries

theorem get?_erase_self : (c.erase file).get? file = none := by
  rw [get?, erase, List.lookup_eq_none_iff]
  intro entry hentry
  obtain ⟨-, hne⟩ := List.mem_filter.mp hentry
  rw [bne_iff_ne] at hne
  exact bne_iff_ne.mpr hne.symm

theorem get?_of_get?_erase (h : (c.erase other).get? file = some kept) :
    file ≠ other ∧ c.get? file = some kept := by
  by_cases hfile : file = other
  · subst hfile
    rw [get?_erase_self] at h
    contradiction
  · exact ⟨hfile, get?_erase_of_ne hfile ▸ h⟩

theorem lookup_of_lookup_take {α : Type} {entries : List (FileId × α)} {n : Nat} {value : α}
    (h : (entries.take n).lookup file = some value) : entries.lookup file = some value := by
  rw [← List.take_append_drop n entries, List.lookup_append, h]
  rfl

/-- A text found after another one was put there is this one, or it was there before. -/
theorem get?_of_get?_put (h : (c.put other text).get? file = some kept) :
    (file = other ∧ kept = text) ∨ (file ≠ other ∧ c.get? file = some kept) := by
  have hfound := lookup_of_lookup_take h
  rw [List.lookup_cons] at hfound
  split at hfound
  case h_1 heq =>
    left
    exact ⟨beq_iff_eq.mp heq, (Option.some.inj hfound).symm⟩
  case h_2 => exact .inr (get?_of_get?_erase hfound)

theorem get?_promote : (c.promote other).get? file = c.get? file := by
  unfold promote
  split
  case h_1 text htext =>
    rw [get?, List.lookup_cons]
    split
    case h_1 heq =>
      obtain rfl := beq_iff_eq.mp heq
      exact htext.symm
    case h_2 hne => exact get?_erase_of_ne (beq_eq_false_iff_ne.mp hne)
  case h_2 => rfl

/-! ### Entries -/

variable {entry : FileId × ClosedText}

theorem mem_erase : entry ∈ (c.erase file).entries ↔ entry ∈ c.entries ∧ entry.1 ≠ file := by
  simp [erase]

theorem mem_put (h : entry ∈ (c.put file text).entries) :
    entry = (file, text) ∨ entry ∈ c.entries ∧ entry.1 ≠ file := by
  rcases List.mem_cons.mp (List.mem_of_mem_take h) with rfl | hbefore
  · exact .inl rfl
  · exact .inr (mem_erase.mp hbefore)

theorem mem_of_get? (h : c.get? file = some text) : (file, text) ∈ c.entries := by
  obtain ⟨before, after, hentries, -⟩ := List.lookup_eq_some_iff.mp h
  simp [hentries]

theorem mem_promote (h : entry ∈ (c.promote file).entries) : entry ∈ c.entries := by
  unfold promote at h
  split at h
  case h_1 text htext =>
    rcases List.mem_cons.mp h with rfl | hother
    · exact mem_of_get? htext
    · exact (mem_erase.mp hother).1
  case h_2 => exact h

/-- There are no more texts than the table has room for. -/
def Fits (c : ClosedTexts) : Prop := c.entries.length ≤ c.capacity

theorem fits_ofCapacity (capacity : Nat) : (ofCapacity capacity).Fits := Nat.zero_le _

theorem Fits.erase (h : c.Fits) (file : FileId) : (c.erase file).Fits :=
  Nat.le_trans (List.length_filter_le _ _) h

theorem fits_put (c : ClosedTexts) (file : FileId) (text : ClosedText) : (c.put file text).Fits :=
  List.length_take_le _ _

theorem length_erase_lt (h : c.get? file = some text) :
    (c.erase file).entries.length < c.entries.length :=
  List.length_filter_lt_length_iff_exists.mpr ⟨_, mem_of_get? h, by simp⟩

theorem Fits.promote (h : c.Fits) (file : FileId) : (c.promote file).Fits := by
  unfold ClosedTexts.promote
  split
  case h_1 text htext =>
    -- The promoted text leaves its old place.
    exact Nat.le_trans (length_erase_lt htext) h
  case h_2 => exact h

theorem lookup_dropLast {α : Type} {entries : List (FileId × α)} {value : α}
    (h : entries.lookup file = some value) :
    entries.dropLast.lookup file = some value ∨ entries.getLast? = some (file, value) := by
  cases hlast : entries.getLast? with
  | none =>
      rw [List.getLast?_eq_none_iff.mp hlast] at h
      contradiction
  | some last =>
      obtain ⟨before, rfl⟩ := List.getLast?_eq_some_iff.mp hlast
      rw [List.lookup_append] at h
      rw [List.dropLast_concat]
      rcases Option.or_eq_some_iff.mp h with hbefore | ⟨-, hfound⟩
      · exact .inl hbefore
      · obtain ⟨key, found⟩ := last
        rw [List.lookup_cons] at hfound
        split at hfound
        case h_1 heq =>
          right
          rw [beq_iff_eq.mp heq, Option.some.inj hfound]
        case h_2 => contradiction

/-- Putting a text drops one of another file only if the table is full, the text comes in addition,
and no other was unused for so long. -/
theorem Fits.get?_put (h : c.Fits) (hne : file ≠ other) (hkept : c.get? file = some kept) :
    (c.put other text).get? file = some kept ∨
      c.entries.length = c.capacity ∧ c.entries.getLast? = some (file, kept) ∧
        c.get? other = none := by
  have hstays : (c.erase other).get? file = some kept := (get?_erase_of_ne hne).trans hkept
  have hfront (n : Nat) : (((other, text) :: (c.erase other).entries).take (n + 1)).lookup file =
      ((c.erase other).entries.take n).lookup file := by
    rw [List.take_succ_cons, List.lookup_cons, beq_false_of_ne hne]
  have hpositive : 0 < c.entries.length := List.length_pos_of_mem (mem_of_get? hkept)
  obtain ⟨room, hroom⟩ := Nat.exists_eq_add_one_of_ne_zero
    (Nat.ne_of_gt (Nat.lt_of_lt_of_le hpositive h))
  rw [get?, put, hroom, hfront]
  by_cases hfull : (c.erase other).entries.length ≤ room
  · left
    rw [List.take_of_length_le hfull]
    exact hstays
  · have hfewer : (c.erase other).entries.length ≤ c.entries.length := List.length_filter_le _ _
    rw [Fits, hroom] at h
    have hlength : room + 1 = c.entries.length := by omega
    have hsame : (c.erase other).entries = c.entries :=
      List.filter_sublist.eq_of_length_le (hlength ▸ Nat.lt_of_not_le hfull)
    rw [hsame, List.take_eq_dropLast hlength]
    refine (lookup_dropLast hkept).imp id fun hlast => ⟨hlength.symm, hlast, ?_⟩
    rw [get?, ← hsame]
    exact get?_erase_self

theorem capacity_promote : (c.promote file).capacity = c.capacity := by
  unfold promote
  split <;> rfl

end Workbench.ClosedTexts
