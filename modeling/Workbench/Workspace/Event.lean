import Std.Data.ExtTreeMap
import Workbench.Diagnostic
import Workbench.Path

/-!
What a workspace tells its subscribers. Every subscriber has a queue of its own with a bounded
number of places; an event that finds a queue full is lost for that subscriber.
-/

namespace Workbench

/-- Something that happened in a workspace. -/
inductive WorkspaceEvent where
  /-- The published diagnostics of a file changed; none of them clears the file. -/
  | diagnosticsUpdated (file : Path) (diagnostics : List Diagnostic)
  | classpathResolved (project : Path) (fromCache : Bool)
  | scopeEvicted (project : Path)
  deriving DecidableEq, Repr

/-- An event and the project that it comes from. -/
structure Notice where
  project : List Component
  event : WorkspaceEvent
  deriving DecidableEq, Repr

/-- The queues of the subscribers, by their numbers. -/
structure EventBus where
  queues : Std.ExtTreeMap Nat (List WorkspaceEvent) := ∅
  /-- The number of the next subscriber. -/
  next : Nat := 0

namespace EventBus

/-- The places of a queue. -/
def capacity : Nat := 1024

/-- Puts an event behind those in a queue, if there is a place left. -/
def enqueue (queue : List WorkspaceEvent) (event : WorkspaceEvent) : List WorkspaceEvent :=
  if queue.length < capacity then queue ++ [event] else queue

def subscribe (bus : EventBus) : EventBus × Nat :=
  (⟨bus.queues.insert bus.next [], bus.next + 1⟩, bus.next)

/-- Takes a subscriber away; answers whether it was there. -/
def unsubscribe (bus : EventBus) (subscriber : Nat) : EventBus × Bool :=
  ({ bus with queues := bus.queues.erase subscriber }, bus.queues.contains subscriber)

/-- Tells all subscribers. -/
def publish (bus : EventBus) (event : WorkspaceEvent) : EventBus :=
  { bus with queues := bus.queues.map fun _ queue => enqueue queue event }

def pendingCount? (bus : EventBus) (subscriber : Nat) : Option Nat :=
  bus.queues[subscriber]?.map List.length

def drain? (bus : EventBus) (subscriber : Nat) : EventBus × Option (List WorkspaceEvent) :=
  match bus.queues[subscriber]? with
  | none => (bus, none)
  | some queue => ({ bus with queues := bus.queues.insert subscriber [] }, some queue)

end EventBus

end Workbench
