import Std.Data.ExtTreeMap
import Workbench.Digest.Fingerprint

/-!
Shared snapshots. A snapshot is built once for a set of inputs and shared by all who hold a handle
to it; the store counts the handles of each key and forgets the snapshot with the last of them.
Handles outlive their store: they keep the snapshot, and nothing is counted any more.
-/

namespace Workbench

/-- One built value. The serial number tells apart values built at different times. -/
structure Snapshot (α : Type) where
  serial : Nat
  value : α

/-- A snapshot in the store and the number of its handles. -/
structure SnapshotEntry (α : Type) where
  snapshot : Snapshot α
  handles : Nat

/-- A counted reference to a snapshot. -/
structure SnapshotHandle (α : Type) where
  key : Fingerprint
  snapshot : Snapshot α

/-- The live snapshots by the fingerprint of their inputs. -/
structure SnapshotStore (α : Type) where
  entries : Std.ExtTreeMap String (SnapshotEntry α) := ∅
  nextSerial : Nat := 0

namespace SnapshotStore

variable {α : Type}

instance : EmptyCollection (SnapshotStore α) := ⟨{}⟩

/-- The key of a set of inputs. -/
def keyFor (inputs : List Json) : Fingerprint := Fingerprint.ofSet (inputs.map Json.compact)

def handleCount (s : SnapshotStore α) (key : Fingerprint) : Nat :=
  (s.entries[key.text]?.map SnapshotEntry.handles).getD 0

def contains (s : SnapshotStore α) (key : Fingerprint) : Bool := s.entries.contains key.text

def size (s : SnapshotStore α) : Nat := s.entries.size

/-- Counts one more handle of a key that the store has. -/
def retain (s : SnapshotStore α) (key : Fingerprint) : SnapshotStore α :=
  match s.entries[key.text]? with
  | none => s
  | some entry =>
    { s with entries := s.entries.insert key.text { entry with handles := entry.handles + 1 } }

/-- Counts one handle less, and forgets the snapshot with the last one. -/
def release (s : SnapshotStore α) (key : Fingerprint) : SnapshotStore α :=
  match s.entries[key.text]? with
  | none => s
  | some entry =>
    if entry.handles ≤ 1 then { s with entries := s.entries.erase key.text }
    else { s with entries := s.entries.insert key.text { entry with handles := entry.handles - 1 } }

/-- What an acquisition leaves: the store, the new handle, and whether a value was built for it. -/
structure Acquired (α : Type) where
  store : SnapshotStore α
  handle : SnapshotHandle α
  built : Bool

/-- Takes a handle of a key. When the store has no snapshot for it, one is built; building may use
the store, and a snapshot that appears meanwhile wins over the one being built. -/
def acquire (s : SnapshotStore α) (key : Fingerprint)
    (build : SnapshotStore α → SnapshotStore α × α) : Acquired α :=
  match s.entries[key.text]? with
  | some entry => ⟨s.retain key, ⟨key, entry.snapshot⟩, false⟩
  | none =>
    let (s, value) := build s
    let snapshot : Snapshot α := ⟨s.nextSerial, value⟩
    let s := { s with nextSerial := s.nextSerial + 1 }
    match s.entries[key.text]? with
    | some entry => ⟨s.retain key, ⟨key, entry.snapshot⟩, true⟩
    | none => ⟨{ s with entries := s.entries.insert key.text ⟨snapshot, 1⟩ }, ⟨key, snapshot⟩, true⟩

def describe (s : SnapshotStore α) : String :=
  "SnapshotStore \x7b entries: " ++ toString s.size ++ " \x7d"

end SnapshotStore

def SnapshotHandle.describe {α : Type} (h : SnapshotHandle α) : String :=
  "SnapshotHandle \x7b key: \"" ++ h.key.take 12 ++ "\", .. \x7d"

/-! ### Named handles

A keeper holds a store, which may be given up, and handles under names. Putting a handle under a
name in use drops the one that was there, after the new one exists. -/

/-- A store, if it is still there, and named handles. -/
structure SnapshotKeeper (α : Type) where
  store : Option (SnapshotStore α) := some ∅
  handles : Std.ExtTreeMap String (SnapshotHandle α) := ∅

namespace SnapshotKeeper

variable {α : Type}

/-- Drops a handle: the store, if it is there, counts one less. -/
def drop (k : SnapshotKeeper α) (handle : SnapshotHandle α) : SnapshotKeeper α :=
  { k with store := k.store.map (·.release handle.key) }

def bind (k : SnapshotKeeper α) (name : String) (handle : SnapshotHandle α) : SnapshotKeeper α :=
  let previous := k.handles[name]?
  let k := { k with handles := k.handles.insert name handle }
  match previous with
  | some old => k.drop old
  | none => k

/-- Acquires a handle and puts it under a name. With `nested`, building first acquires the same
key with that value, as a second caller would, and the handle of that caller gets its own name. -/
def acquire (k : SnapshotKeeper α) (name : String) (key : Fingerprint) (value : α)
    (nested : Option (String × α)) : Option (SnapshotKeeper α × SnapshotStore.Acquired α) :=
  k.store.map fun store =>
    match nested with
    | none =>
      let acquired := store.acquire key fun s => (s, value)
      let k : SnapshotKeeper α := { k with store := some acquired.store }
      (k.bind name acquired.handle, acquired)
    | some (nestedName, nestedValue) =>
      let inner := store.acquire key fun s => (s, nestedValue)
      let acquired := store.acquire key fun s =>
        ((s.acquire key fun s => (s, nestedValue)).store, value)
      let k : SnapshotKeeper α := { k with store := some acquired.store }
      let k := if acquired.built then k.bind nestedName inner.handle else k
      (k.bind name acquired.handle, acquired)

/-- Puts another handle to the snapshot of one name under a second name. -/
def clone (k : SnapshotKeeper α) (name copy : String) :
    SnapshotKeeper α × Option (SnapshotHandle α) :=
  match k.handles[name]? with
  | none => (k, none)
  | some handle =>
    let k : SnapshotKeeper α := { k with store := k.store.map (·.retain handle.key) }
    (k.bind copy handle, some handle)

/-- Drops the handle of a name; answers whether there was one. -/
def dropName (k : SnapshotKeeper α) (name : String) : SnapshotKeeper α × Bool :=
  match k.handles[name]? with
  | none => (k, false)
  | some handle =>
    let k : SnapshotKeeper α := { k with handles := k.handles.erase name }
    (k.drop handle, true)

def same? (k : SnapshotKeeper α) (name other : String) : Option Bool := do
  let a ← k.handles[name]?
  let b ← k.handles[other]?
  return a.snapshot.serial == b.snapshot.serial

/-- Gives up the store; the handles stay. -/
def dropStore (k : SnapshotKeeper α) : SnapshotKeeper α := { k with store := none }

end SnapshotKeeper

end Workbench
