import Mathlib.Data.List.Dedup
import Workbench.Snapshot

/-!
Keeping account of handles. A store accounts for a list of handles if it has a snapshot for just
their keys, shares it among all that have the key, and counts how many they are. Acquiring, copying
and dropping a handle keep the account; what building a value does to store and handles does not
matter, as long as it keeps the account too.
-/

namespace Workbench

variable {α : Type}

theorem Fingerprint.eq_of_text_eq {key other : Fingerprint} (h : key.text = other.text) :
    key = other := by
  cases key
  cases other
  exact congrArg mk h

namespace SnapshotHandle

/-- How many handles have a key. -/
def count (key : Fingerprint) (handles : List (SnapshotHandle α)) : Nat :=
  handles.countP fun handle => handle.key = key

theorem count_cons (key : Fingerprint) (handle : SnapshotHandle α)
    (handles : List (SnapshotHandle α)) :
    count key (handle :: handles) = count key handles + if handle.key = key then 1 else 0 := by
  simp [count, List.countP_cons]

theorem count_pos {key : Fingerprint} {handles : List (SnapshotHandle α)} :
    0 < count key handles ↔ ∃ handle ∈ handles, handle.key = key := by
  simp [count, List.countP_pos_iff]

end SnapshotHandle

namespace SnapshotStore

open SnapshotHandle (count count_cons count_pos)

/-- The snapshot of a key and the number of its handles. -/
def find? (s : SnapshotStore α) (key : Fingerprint) : Option (SnapshotEntry α) :=
  s.entries[key.text]?

/-- Snapshots of different keys have different serial numbers, and none has one to come. -/
structure Numbered (s : SnapshotStore α) : Prop where
  serial_lt : ∀ key entry, s.find? key = some entry → entry.snapshot.serial < s.nextSerial
  serial_inj : ∀ key other entry entry', s.find? key = some entry →
    s.find? other = some entry' → entry.snapshot.serial = entry'.snapshot.serial → key = other

/-- A store and the handles of its snapshots that are held. -/
structure Accounts (s : SnapshotStore α) (handles : List (SnapshotHandle α)) : Prop where
  numbered : s.Numbered
  entry_of_mem : ∀ handle ∈ handles, ∃ entry, s.find? handle.key = some entry ∧
    entry.snapshot = handle.snapshot
  handles_eq : ∀ key entry, s.find? key = some entry → entry.handles = count key handles
  handles_pos : ∀ key entry, s.find? key = some entry → 0 < entry.handles

variable {s s' : SnapshotStore α} {key other : Fingerprint} {entry : SnapshotEntry α}
  {handle : SnapshotHandle α} {handles handles' : List (SnapshotHandle α)}

theorem getElem?_insert_text (entries : Std.ExtTreeMap String (SnapshotEntry α))
    (key other : Fingerprint) (entry : SnapshotEntry α) :
    (entries.insert key.text entry)[other.text]? =
      if key = other then some entry else entries[other.text]? := by
  rw [Std.ExtTreeMap.getElem?_insert]
  simp only [Std.LawfulEqCmp.compare_eq_iff_eq]
  refine if_congr ⟨Fingerprint.eq_of_text_eq, congrArg _⟩ rfl rfl

theorem getElem?_erase_text (entries : Std.ExtTreeMap String (SnapshotEntry α))
    (key other : Fingerprint) :
    (entries.erase key.text)[other.text]? =
      if key = other then none else entries[other.text]? := by
  rw [Std.ExtTreeMap.getElem?_erase]
  simp only [Std.LawfulEqCmp.compare_eq_iff_eq]
  refine if_congr ⟨Fingerprint.eq_of_text_eq, congrArg _⟩ rfl rfl

/-! ### What the operations do to one entry -/

theorem find?_retain (h : s.find? key = some entry) (other : Fingerprint) :
    (s.retain key).find? other =
      if key = other then some { entry with handles := entry.handles + 1 } else s.find? other := by
  rw [find?] at h
  rw [retain, h]
  exact getElem?_insert_text _ _ _ _

theorem find?_release (h : s.find? key = some entry) (other : Fingerprint) :
    (s.release key).find? other =
      if key = other then
        if entry.handles ≤ 1 then none else some { entry with handles := entry.handles - 1 }
      else s.find? other := by
  rw [find?] at h
  rw [release, h]
  dsimp only
  split
  · exact getElem?_erase_text _ _ _
  · exact getElem?_insert_text _ _ _ _

theorem nextSerial_retain (s : SnapshotStore α) (key : Fingerprint) :
    (s.retain key).nextSerial = s.nextSerial := by
  unfold retain
  split <;> rfl

theorem nextSerial_release (s : SnapshotStore α) (key : Fingerprint) :
    (s.release key).nextSerial = s.nextSerial := by
  unfold release
  split
  · rfl
  · split <;> rfl

theorem contains_eq_isSome (s : SnapshotStore α) (key : Fingerprint) :
    s.contains key = (s.find? key).isSome := by
  rw [contains, find?, Std.ExtTreeMap.contains_eq_isSome_getElem?]

/-- Puts a new value into the store, with its first handle. -/
def insertNew (s : SnapshotStore α) (key : Fingerprint) (value : α) : SnapshotStore α :=
  { entries := s.entries.insert key.text ⟨⟨s.nextSerial, value⟩, 1⟩
    nextSerial := s.nextSerial + 1 }

/-- The rest of an acquisition once its value is built. -/
def settle (s : SnapshotStore α) (key : Fingerprint) (value : α) : Acquired α :=
  match s.find? key with
  | some entry =>
    ⟨({ s with nextSerial := s.nextSerial + 1 } : SnapshotStore α).retain key,
      ⟨key, entry.snapshot⟩, true⟩
  | none => ⟨s.insertNew key value, ⟨key, ⟨s.nextSerial, value⟩⟩, true⟩

theorem find?_insertNew (s : SnapshotStore α) (key other : Fingerprint) (value : α) :
    (s.insertNew key value).find? other =
      if key = other then some ⟨⟨s.nextSerial, value⟩, 1⟩ else s.find? other :=
  getElem?_insert_text _ _ _ _

theorem acquire_of_find? (h : s.find? key = some entry)
    (build : SnapshotStore α → SnapshotStore α × α) :
    s.acquire key build = ⟨s.retain key, ⟨key, entry.snapshot⟩, false⟩ := by
  rw [find?] at h
  rw [acquire, h]

theorem acquire_of_find?_eq_none (h : s.find? key = none)
    (build : SnapshotStore α → SnapshotStore α × α) :
    s.acquire key build = (build s).1.settle key (build s).2 := by
  rw [find?] at h
  rw [acquire, h, settle, find?]
  dsimp only
  cases (build s).1.entries[key.text]? <;> rfl

theorem built_settle (s : SnapshotStore α) (key : Fingerprint) (value : α) :
    (s.settle key value).built = true := by
  unfold settle
  split <;> rfl

/-! ### Keeping the account -/

theorem Numbered.of_earlier (h : s.Numbered) (hnext : s.nextSerial ≤ s'.nextSerial)
    (hearlier : ∀ key entry, s'.find? key = some entry →
      ∃ earlier, s.find? key = some earlier ∧ entry.snapshot = earlier.snapshot) :
    s'.Numbered where
  serial_lt key entry hentry := by
    obtain ⟨earlier, hbefore, hsame⟩ := hearlier key entry hentry
    rw [hsame]
    exact Nat.lt_of_lt_of_le (h.serial_lt key earlier hbefore) hnext
  serial_inj key other entry entry' hentry hentry' hserial := by
    obtain ⟨earlier, hbefore, hsame⟩ := hearlier key entry hentry
    obtain ⟨earlier', hbefore', hsame'⟩ := hearlier other entry' hentry'
    rw [hsame, hsame'] at hserial
    exact h.serial_inj key other earlier earlier' hbefore hbefore' hserial

theorem accounts_empty : (∅ : SnapshotStore α).Accounts [] := by
  have hnone : ∀ key entry, (∅ : SnapshotStore α).find? key ≠ some entry := fun key entry h =>
    Option.some_ne_none entry (h.symm.trans Std.ExtTreeMap.getElem?_empty)
  exact ⟨⟨fun _ _ h => absurd h (hnone _ _), fun _ _ _ _ h => absurd h (hnone _ _)⟩,
    fun _ h => absurd h List.not_mem_nil, fun _ _ h => absurd h (hnone _ _),
    fun _ _ h => absurd h (hnone _ _)⟩

theorem Accounts.perm (h : s.Accounts handles) (hperm : handles.Perm handles') :
    s.Accounts handles' where
  numbered := h.numbered
  entry_of_mem handle hmem := h.entry_of_mem handle (hperm.mem_iff.mpr hmem)
  handles_eq key entry hentry := (h.handles_eq key entry hentry).trans (hperm.countP_eq _)
  handles_pos := h.handles_pos

/-- A serial number may be left out. -/
theorem Accounts.skip (h : s.Accounts handles) :
    ({ s with nextSerial := s.nextSerial + 1 } : SnapshotStore α).Accounts handles where
  numbered := h.numbered.of_earlier (Nat.le_succ _) fun _ entry hentry => ⟨entry, hentry, rfl⟩
  entry_of_mem := h.entry_of_mem
  handles_eq := h.handles_eq
  handles_pos := h.handles_pos

/-- A snapshot that is in the store is held. -/
theorem Accounts.mem_of_find? (h : s.Accounts handles) (hentry : s.find? key = some entry) :
    ⟨key, entry.snapshot⟩ ∈ handles := by
  have hpos := h.handles_eq key entry hentry ▸ h.handles_pos key entry hentry
  obtain ⟨⟨_, snapshot⟩, hmem, rfl⟩ := count_pos.mp hpos
  obtain ⟨entry', hentry', hsnapshot⟩ := h.entry_of_mem _ hmem
  cases hentry.symm.trans hentry'
  rw [hsnapshot]
  exact hmem

theorem Accounts.find?_eq_none_iff (h : s.Accounts handles) :
    s.find? key = none ↔ ∀ handle ∈ handles, handle.key ≠ key := by
  constructor
  · rintro hnone handle hmem rfl
    obtain ⟨entry, hentry, -⟩ := h.entry_of_mem handle hmem
    exact Option.some_ne_none entry (hentry.symm.trans hnone)
  · intro hforeign
    cases hentry : s.find? key with
    | none => rfl
    | some entry => exact absurd rfl (hforeign _ (h.mem_of_find? hentry))

theorem Accounts.retain (h : s.Accounts handles) (hentry : s.find? key = some entry) :
    (s.retain key).Accounts (⟨key, entry.snapshot⟩ :: handles) := by
  have hbefore : ∀ other later, (s.retain key).find? other = some later →
      ∃ earlier, s.find? other = some earlier ∧ later.snapshot = earlier.snapshot ∧
        later.handles = earlier.handles + if key = other then 1 else 0 := by
    intro other later hlater
    rw [find?_retain hentry] at hlater
    split at hlater
    case isTrue heq =>
      subst heq
      cases hlater
      exact ⟨entry, hentry, rfl, by rw [if_pos rfl]⟩
    case isFalse hne => exact ⟨later, hlater, rfl, by rw [if_neg hne, Nat.add_zero]⟩
  refine ⟨h.numbered.of_earlier (Nat.le_of_eq (nextSerial_retain s key).symm) ?_,
    fun handle hmem => ?_, fun other later hlater => ?_, fun other later hlater => ?_⟩
  · intro other later hlater
    obtain ⟨earlier, hearlier, hsame, -⟩ := hbefore other later hlater
    exact ⟨earlier, hearlier, hsame⟩
  · rw [find?_retain hentry]
    rcases List.mem_cons.mp hmem with rfl | hheld
    · exact ⟨_, if_pos rfl, rfl⟩
    · obtain ⟨earlier, hearlier, hsnapshot⟩ := h.entry_of_mem handle hheld
      split
      case isTrue heq =>
        subst heq
        cases hentry.symm.trans hearlier
        exact ⟨_, rfl, hsnapshot⟩
      case isFalse => exact ⟨earlier, hearlier, hsnapshot⟩
  · obtain ⟨earlier, hearlier, -, hcount⟩ := hbefore other later hlater
    rw [hcount, h.handles_eq other earlier hearlier, count_cons]
  · obtain ⟨earlier, hearlier, -, hcount⟩ := hbefore other later hlater
    rw [hcount]
    exact Nat.add_pos_left (h.handles_pos other earlier hearlier) _

/-- A handle that is held can be copied. -/
theorem Accounts.retain_of_mem (h : s.Accounts handles) (hmem : handle ∈ handles) :
    (s.retain handle.key).Accounts (handle :: handles) := by
  obtain ⟨entry, hentry, hsnapshot⟩ := h.entry_of_mem handle hmem
  have hretained := h.retain hentry
  rw [hsnapshot] at hretained
  exact hretained

theorem Accounts.release (h : s.Accounts (handle :: handles)) :
    (s.release handle.key).Accounts handles := by
  obtain ⟨entry, hentry, -⟩ := h.entry_of_mem handle List.mem_cons_self
  have hcount := h.handles_eq _ entry hentry
  rw [count_cons, if_pos rfl] at hcount
  have hbefore : ∀ other later, (s.release handle.key).find? other = some later →
      ∃ earlier, s.find? other = some earlier ∧ later.snapshot = earlier.snapshot ∧
        later.handles = count other handles ∧ 0 < later.handles := by
    intro other later hlater
    rw [find?_release hentry] at hlater
    split at hlater
    case isTrue heq =>
      subst heq
      split at hlater
      case isTrue => contradiction
      case isFalse hmany =>
        cases hlater
        exact ⟨entry, hentry, rfl, Nat.sub_eq_of_eq_add hcount,
          Nat.sub_pos_of_lt (Nat.lt_of_not_le hmany)⟩
    case isFalse hne =>
      have hother := h.handles_eq other later hlater
      rw [count_cons, if_neg hne, Nat.add_zero] at hother
      exact ⟨later, hlater, rfl, hother, h.handles_pos other later hlater⟩
  refine ⟨h.numbered.of_earlier (Nat.le_of_eq (nextSerial_release s handle.key).symm) ?_,
    fun held hmem => ?_, fun other later hlater => ?_, fun other later hlater => ?_⟩
  · intro other later hlater
    obtain ⟨earlier, hearlier, hsame, -⟩ := hbefore other later hlater
    exact ⟨earlier, hearlier, hsame⟩
  · obtain ⟨earlier, hearlier, hheld⟩ := h.entry_of_mem held (List.mem_cons_of_mem _ hmem)
    rw [find?_release hentry]
    split
    case isTrue heq =>
      -- The entry stays, for there is a second handle.
      rw [← heq] at hearlier
      cases hentry.symm.trans hearlier
      have hpos := count_pos.mpr ⟨held, hmem, heq.symm⟩
      exact ⟨_, if_neg (Nat.not_le_of_lt (hcount ▸ Nat.succ_lt_succ hpos)), hheld⟩
    case isFalse => exact ⟨earlier, hearlier, hheld⟩
  · obtain ⟨-, -, -, hlater, -⟩ := hbefore other later hlater
    exact hlater
  · obtain ⟨-, -, -, -, hpos⟩ := hbefore other later hlater
    exact hpos

theorem Numbered.insertNew (h : s.Numbered) (key : Fingerprint) (value : α) :
    (s.insertNew key value).Numbered := by
  have hcases : ∀ other later, (s.insertNew key value).find? other = some later →
      (key = other ∧ later.snapshot.serial = s.nextSerial) ∨ s.find? other = some later := by
    intro other later hlater
    rw [find?_insertNew] at hlater
    split at hlater
    case isTrue heq =>
      cases hlater
      exact .inl ⟨heq, rfl⟩
    case isFalse => exact .inr hlater
  constructor
  · intro other later hlater
    rcases hcases other later hlater with ⟨-, hserial⟩ | hbefore
    · exact Nat.lt_succ_of_le (Nat.le_of_eq hserial)
    · exact Nat.lt_succ_of_lt (h.serial_lt other later hbefore)
  · intro other other' later later' hlater hlater' hserial
    rcases hcases other later hlater with ⟨rfl, hnew⟩ | hbefore <;>
      rcases hcases other' later' hlater' with ⟨rfl, hnew'⟩ | hbefore'
    · rfl
    · exact absurd (hserial.symm.trans hnew) (Nat.ne_of_lt (h.serial_lt _ _ hbefore'))
    · exact absurd (hserial.trans hnew') (Nat.ne_of_lt (h.serial_lt _ _ hbefore))
    · exact h.serial_inj other other' later later' hbefore hbefore' hserial

theorem Accounts.insertNew (h : s.Accounts handles) (hnew : s.find? key = none) (value : α) :
    (s.insertNew key value).Accounts (⟨key, ⟨s.nextSerial, value⟩⟩ :: handles) := by
  have hforeign := h.find?_eq_none_iff.mp hnew
  have hnothing : count key handles = 0 :=
    Nat.eq_zero_of_not_pos fun hpos =>
      have ⟨handle, hmem, hkey⟩ := count_pos.mp hpos
      hforeign handle hmem hkey
  refine ⟨h.numbered.insertNew key value, fun handle hmem => ?_, fun other later hlater => ?_,
    fun other later hlater => ?_⟩
  · rw [find?_insertNew]
    rcases List.mem_cons.mp hmem with rfl | hheld
    · exact ⟨_, if_pos rfl, rfl⟩
    · rw [if_neg (hforeign handle hheld).symm]
      exact h.entry_of_mem handle hheld
  · rw [find?_insertNew] at hlater
    rw [count_cons]
    split at hlater
    case isTrue heq =>
      subst heq
      cases hlater
      rw [hnothing, if_pos rfl]
    case isFalse hne => rw [if_neg hne, Nat.add_zero, h.handles_eq other later hlater]
  · rw [find?_insertNew] at hlater
    split at hlater
    case isTrue =>
      cases hlater
      exact Nat.one_pos
    case isFalse => exact h.handles_pos other later hlater

theorem Accounts.settle (h : s.Accounts handles) (key : Fingerprint) (value : α) :
    (s.settle key value).store.Accounts ((s.settle key value).handle :: handles) := by
  unfold SnapshotStore.settle
  split
  case h_1 entry hentry => exact h.skip.retain hentry
  case h_2 hnew => exact h.insertNew hnew value

/-- An acquisition keeps the account, if what it builds with does. -/
theorem Accounts.acquire (h : s.Accounts handles) (key : Fingerprint)
    (build : SnapshotStore α → SnapshotStore α × α)
    (hbuild : s.find? key = none → (build s).1.Accounts handles') :
    (s.acquire key build).store.Accounts ((s.acquire key build).handle ::
      if (s.acquire key build).built then handles' else handles) := by
  cases hentry : s.find? key with
  | some entry =>
      rw [acquire_of_find? hentry]
      exact h.retain hentry
  | none =>
      rw [acquire_of_find?_eq_none hentry, built_settle]
      exact (hbuild hentry).settle key _

/-! ### What an account says -/

theorem Accounts.handleCount_eq (h : s.Accounts handles) (key : Fingerprint) :
    s.handleCount key = count key handles := by
  have hentry : s.handleCount key = ((s.find? key).map SnapshotEntry.handles).getD 0 := rfl
  rw [hentry]
  cases hcase : s.find? key with
  | some entry => exact h.handles_eq key entry hcase
  | none =>
      refine (Nat.eq_zero_of_not_pos fun hpos => ?_).symm
      obtain ⟨handle, hmem, hkey⟩ := count_pos.mp hpos
      exact h.find?_eq_none_iff.mp hcase handle hmem hkey

theorem Accounts.contains_iff (h : s.Accounts handles) :
    s.contains key = true ↔ 0 < count key handles := by
  rw [contains_eq_isSome, ← not_iff_not, Bool.not_eq_true, Option.isSome_eq_false_iff,
    Option.isNone_iff_eq_none, h.find?_eq_none_iff, count_pos]
  push Not
  rfl

theorem Accounts.size_eq (h : s.Accounts handles) :
    s.size = (handles.map SnapshotHandle.key).dedup.length := by
  have hnodup : (s.entries.keys.map Fingerprint.mk).Nodup :=
    s.entries.nodup_keys.map fun _ _ => congrArg Fingerprint.text
  have hmem : ∀ key, key ∈ s.entries.keys.map Fingerprint.mk ↔
      key ∈ (handles.map SnapshotHandle.key).dedup := by
    intro key
    have hkey : key ∈ s.entries.keys.map Fingerprint.mk ↔ key.text ∈ s.entries := by
      rw [← Std.ExtTreeMap.mem_keys, List.mem_map]
      exact ⟨fun ⟨_, htext, heq⟩ => heq ▸ htext, fun htext => ⟨key.text, htext, rfl⟩⟩
    rw [hkey, ← Std.ExtTreeMap.contains_iff_mem, List.mem_dedup, List.mem_map, ← count_pos,
      ← h.contains_iff]
    rfl
  have hperm := (List.perm_ext_iff_of_nodup hnodup (List.nodup_dedup _)).mpr hmem
  rw [← hperm.length_eq, List.length_map, Std.ExtTreeMap.length_keys]
  rfl

theorem Accounts.snapshot_eq (h : s.Accounts handles) {other : SnapshotHandle α}
    (hmem : handle ∈ handles) (hmem' : other ∈ handles) (hkey : handle.key = other.key) :
    handle.snapshot = other.snapshot := by
  obtain ⟨entry, hentry, hsnapshot⟩ := h.entry_of_mem handle hmem
  obtain ⟨entry', hentry', hsnapshot'⟩ := h.entry_of_mem other hmem'
  rw [hkey] at hentry
  cases hentry.symm.trans hentry'
  exact hsnapshot.symm.trans hsnapshot'

/-- A handle is a copy of one that is held, or leads to the value that was just built. -/
theorem Accounts.handle_acquire (h : s.Accounts handles) (key : Fingerprint) (value : α) :
    (s.acquire key fun s => (s, value)).handle ∈ handles ∨
      (∀ handle ∈ handles, handle.key ≠ key) ∧
        (s.acquire key fun s => (s, value)).handle = ⟨key, ⟨s.nextSerial, value⟩⟩ := by
  cases hentry : s.find? key with
  | some entry =>
      rw [acquire_of_find? hentry]
      exact .inl (h.mem_of_find? hentry)
  | none =>
      rw [acquire_of_find?_eq_none hentry, SnapshotStore.settle, hentry]
      exact .inr ⟨h.find?_eq_none_iff.mp hentry, rfl⟩

theorem key_acquire (s : SnapshotStore α) (key : Fingerprint)
    (build : SnapshotStore α → SnapshotStore α × α) : (s.acquire key build).handle.key = key := by
  unfold acquire
  split
  · rfl
  · dsimp only
    split <;> rfl

/-- Handles of different keys never share a snapshot. -/
theorem Accounts.key_eq (h : s.Accounts handles) {other : SnapshotHandle α}
    (hmem : handle ∈ handles) (hmem' : other ∈ handles)
    (hserial : handle.snapshot.serial = other.snapshot.serial) : handle.key = other.key := by
  obtain ⟨entry, hentry, hsnapshot⟩ := h.entry_of_mem handle hmem
  obtain ⟨entry', hentry', hsnapshot'⟩ := h.entry_of_mem other hmem'
  rw [← hsnapshot, ← hsnapshot'] at hserial
  exact h.numbered.serial_inj _ _ entry entry' hentry hentry' hserial

/-- A value is built just when nobody holds a handle of the key. -/
theorem Accounts.built_acquire_iff (h : s.Accounts handles) (key : Fingerprint)
    (build : SnapshotStore α → SnapshotStore α × α) :
    (s.acquire key build).built = true ↔ ∀ handle ∈ handles, handle.key ≠ key := by
  rw [← h.find?_eq_none_iff]
  cases hentry : s.find? key with
  | some entry => simp [acquire_of_find? hentry]
  | none => simp [acquire_of_find?_eq_none hentry, built_settle]

/-- Giving a handle back takes one off its count. -/
theorem Accounts.handleCount_release (h : s.Accounts handles) (hmem : handle ∈ handles) :
    (s.release handle.key).handleCount handle.key + 1 = s.handleCount handle.key := by
  obtain ⟨before, after, rfl⟩ := List.append_of_mem hmem
  have hfront := h.perm List.perm_middle
  rw [hfront.handleCount_eq, hfront.release.handleCount_eq, count_cons, if_pos rfl]

end SnapshotStore

end Workbench
