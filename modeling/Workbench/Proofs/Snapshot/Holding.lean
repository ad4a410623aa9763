import Mathlib.Data.List.Perm.Basic
import Workbench.Proofs.Snapshot.Accounts

/-!
Programs that use a store of snapshots. Building a value is a program of its own: it may acquire,
copy and drop handles of the same store, also of the very key that it builds for. Whatever a program
does, the store counts the handles that are alive, at every moment, and a value is built only for a
key that nobody holds.
-/

namespace Workbench

/-- The handles that are alive, and the store while it is there. -/
structure Holding (α : Type) where
  store : Option (SnapshotStore α) := some ∅
  handles : List (SnapshotHandle α) := []

/-- What an owner does with a handle, given by its place among those that are alive. To release a
handle through the store is to drop it. -/
inductive HandleAction where
  | clone (place : Nat)
  | drop (place : Nat)
  deriving DecidableEq, Repr

namespace Holding

variable {α : Type}

def act (w : Holding α) : HandleAction → Holding α
  | .clone place =>
    match w.handles[place]? with
    | none => w
    | some handle => ⟨w.store.map (·.retain handle.key), w.handles ++ [handle]⟩
  | .drop place =>
    match w.handles[place]? with
    | none => w
    | some handle => ⟨w.store.map (·.release handle.key), w.handles.eraseIdx place⟩

/-- Acquires a handle. Building has all that is held at its hands; the store stays there. -/
def acquire (w : Holding α) (key : Fingerprint) (build : Holding α → Holding α × α) : Holding α :=
  match w.store with
  | none => w
  | some store =>
    let (inside, value) := build w
    let acquired := store.acquire key fun s => (inside.store.getD s, value)
    ⟨some acquired.store, (if acquired.built then inside else w).handles ++ [acquired.handle]⟩

/-- Whether an acquisition of a key would have to build. -/
def lacks (w : Holding α) (key : Fingerprint) : Bool := w.store.any fun store => !store.contains key

/-- Gives up the store; the handles stay. -/
def dropStore (w : Holding α) : Holding α := { w with store := none }

end Holding

/-- A program that uses a store. The value for a key is built by a program of its own. -/
inductive StoreProgram (α : Type) where
  | done
  | act (action : HandleAction) (rest : StoreProgram α)
  | acquire (key : Fingerprint) (build : StoreProgram α) (value : α) (rest : StoreProgram α)

namespace StoreProgram

variable {α : Type}

def run : StoreProgram α → Holding α → Holding α
  | done, w => w
  | act action rest, w => rest.run (w.act action)
  | acquire key build value rest, w => rest.run (w.acquire key fun w => (build.run w, value))

/-- All moments of a run, also those while a value is built. -/
def moments : StoreProgram α → Holding α → List (Holding α)
  | done, w => [w]
  | act action rest, w => w :: rest.moments (w.act action)
  | acquire key build value rest, w =>
    w :: (if w.lacks key then build.moments w else []) ++
      rest.moments (w.acquire key fun w => (build.run w, value))

end StoreProgram

namespace Holding

open SnapshotHandle (count)

variable {α : Type} {w : Holding α}

/-- The store is there and has the right counts: each key has as many handles as are alive, and no
other key is in it; who holds the same key shares one snapshot; dropping a handle takes one off its
count; and a value would be built only for a key without a handle. -/
def IsExact (w : Holding α) : Prop :=
  ∃ store, w.store = some store ∧
    (∀ key, store.handleCount key = count key w.handles) ∧
    (∀ key, store.contains key = true ↔ 0 < count key w.handles) ∧
    store.size = (w.handles.map SnapshotHandle.key).dedup.length ∧
    (∀ handle ∈ w.handles, ∀ other ∈ w.handles,
      (handle.key = other.key → handle.snapshot = other.snapshot) ∧
        (handle.snapshot.serial = other.snapshot.serial → handle.key = other.key)) ∧
    (∀ handle ∈ w.handles,
      (store.release handle.key).handleCount handle.key + 1 = store.handleCount handle.key) ∧
    ∀ key build, (store.acquire key build).built = true ↔ ∀ handle ∈ w.handles, handle.key ≠ key

/-- The store is there and accounts for the handles. -/
def Accounted (w : Holding α) : Prop := ∃ store, w.store = some store ∧ store.Accounts w.handles

theorem accounted_empty : ({} : Holding α).Accounted := ⟨∅, rfl, SnapshotStore.accounts_empty⟩

theorem Accounted.isExact (h : w.Accounted) : w.IsExact := by
  obtain ⟨store, hstore, haccounts⟩ := h
  exact ⟨store, hstore, haccounts.handleCount_eq, fun _ => haccounts.contains_iff,
    haccounts.size_eq,
    fun _ hmem _ hmem' => ⟨haccounts.snapshot_eq hmem hmem', haccounts.key_eq hmem hmem'⟩,
    fun _ hmem => haccounts.handleCount_release hmem, haccounts.built_acquire_iff⟩

theorem Accounted.act (h : w.Accounted) (action : HandleAction) : (w.act action).Accounted := by
  obtain ⟨store, hstore, haccounts⟩ := h
  cases action with
  | clone place =>
      rw [Holding.act]
      split
      case h_1 => exact ⟨store, hstore, haccounts⟩
      case h_2 handle hplace =>
        rw [hstore]
        have hmem := List.mem_of_getElem? hplace
        refine ⟨_, rfl, (haccounts.retain_of_mem hmem).perm ?_⟩
        exact (List.perm_append_singleton handle w.handles).symm
  | drop place =>
      rw [Holding.act]
      split
      case h_1 => exact ⟨store, hstore, haccounts⟩
      case h_2 handle hplace =>
        rw [hstore]
        obtain ⟨hlt, rfl⟩ := List.getElem?_eq_some_iff.mp hplace
        exact ⟨_, rfl, (haccounts.perm (List.getElem_cons_eraseIdx_perm hlt).symm).release⟩

theorem acquire_of_store {store : SnapshotStore α} (h : w.store = some store) (key : Fingerprint)
    (build : Holding α → Holding α × α) :
    let acquired := store.acquire key fun s => ((build w).1.store.getD s, (build w).2)
    w.acquire key build =
      ⟨some acquired.store,
        (if acquired.built then (build w).1 else w).handles ++ [acquired.handle]⟩ := by
  rw [acquire, h]

theorem Accounted.acquire (h : w.Accounted) (key : Fingerprint)
    {build : Holding α → Holding α × α} (hbuild : (build w).1.Accounted) :
    (w.acquire key build).Accounted := by
  obtain ⟨store, hstore, haccounts⟩ := h
  obtain ⟨store', hstore', haccounts'⟩ := hbuild
  simp only [acquire_of_store hstore, hstore', Option.getD_some]
  refine ⟨_, rfl, (haccounts.acquire key (fun _ => (store', (build w).2))
    fun _ => haccounts').perm ?_⟩
  rw [apply_ite Holding.handles]
  exact (List.perm_append_singleton _ _).symm

theorem Accounted.run (h : w.Accounted) (program : StoreProgram α) :
    (program.run w).Accounted := by
  induction program generalizing w with
  | done => exact h
  | act action rest ih => exact ih (h.act action)
  | acquire key build value rest ihbuild ihrest => exact ihrest (h.acquire key (ihbuild h))

theorem Accounted.moments (h : w.Accounted) (program : StoreProgram α) :
    ∀ moment ∈ program.moments w, moment.Accounted := by
  induction program generalizing w with
  | done =>
      rintro moment hmoment
      rw [List.mem_singleton.mp hmoment]
      exact h
  | act action rest ih =>
      rintro moment (_ | ⟨_, hmoment⟩)
      · exact h
      · exact ih (h.act action) moment hmoment
  | acquire key build value rest ihbuild ihrest =>
      intro moment hmoment
      rw [StoreProgram.moments, List.cons_append, List.mem_cons, List.mem_append] at hmoment
      rcases hmoment with rfl | hinside | hlater
      · exact h
      · split at hinside
        · exact ihbuild h moment hinside
        · exact absurd hinside List.not_mem_nil
      · exact ihrest (h.acquire key (h.run build)) moment hlater

/-! ### Without the store -/

theorem store_act_eq_none (h : w.store = none) (action : HandleAction) :
    (w.act action).store = none := by
  cases action <;> rw [act] <;> split <;> simp [h]

theorem mem_of_mem_handles_act {handle : SnapshotHandle α} (action : HandleAction)
    (h : handle ∈ (w.act action).handles) : handle ∈ w.handles := by
  cases action with
  | clone place =>
      rw [act] at h
      split at h
      case h_1 => exact h
      case h_2 copied hplace =>
        rcases List.mem_append.mp h with hbefore | hcopy
        · exact hbefore
        · rw [List.mem_singleton.mp hcopy]
          exact List.mem_of_getElem? hplace
  | drop place =>
      rw [act] at h
      split at h
      case h_1 => exact h
      case h_2 => exact List.mem_of_mem_eraseIdx h

theorem foldl_act_of_store_eq_none (h : w.store = none) (actions : List HandleAction) :
    (actions.foldl act w).store = none ∧
      ∀ handle ∈ (actions.foldl act w).handles, handle ∈ w.handles := by
  induction actions generalizing w with
  | nil => exact ⟨h, fun _ => id⟩
  | cons action rest ih =>
      obtain ⟨hstore, hhandles⟩ := ih (store_act_eq_none h action)
      exact ⟨hstore, fun handle hmem => mem_of_mem_handles_act action (hhandles handle hmem)⟩

/-- Whatever a program does with a store, and whatever it does while it builds values, the counts
are exact at every moment. Once the store is given up there is nothing that counts, and all handles
that there still are, and all copies of them, have the snapshots that they had. -/
theorem isExact_of_mem_moments (program : StoreProgram α) (afterwards : List HandleAction) :
    (∀ moment ∈ program.moments {}, moment.IsExact) ∧
      (afterwards.foldl act (program.run {}).dropStore).store = none ∧
      ∀ handle ∈ (afterwards.foldl act (program.run {}).dropStore).handles,
        handle ∈ (program.run {}).handles :=
  ⟨fun moment hmoment => (accounted_empty.moments program moment hmoment).isExact,
    foldl_act_of_store_eq_none rfl afterwards⟩

end Holding

end Workbench
