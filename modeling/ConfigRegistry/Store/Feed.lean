/-
# The feed of changes

A store tells its changes to whoever subscribes.  The feed keeps the last changes only, as many as
its capacity says; a subscriber that has fallen further behind is told how many changes it has
lost and then gets those that are left.  What one subscriber takes makes no difference to another:
a subscription is nothing but the number of changes that came before it.
-/
import ConfigRegistry.Model.Entry

namespace ConfigRegistry

/-- The kinds of changes. -/
inductive Event where
  | add
  | update
  | delete
deriving DecidableEq, Repr

namespace Event

/-- The word for an event. -/
def word : Event → String
  | add => "add"
  | update => "update"
  | delete => "delete"

end Event

/-- A change of a store.  If an entry has been deleted, the change bears the entry as it was held
last. -/
structure Change where
  event : Event
  entry : Entry
deriving DecidableEq

/-- A feed. -/
structure Feed where
  /-- How many changes are kept. -/
  capacity : Nat
  /-- How many changes there have been. -/
  sent : Nat := 0
  /-- The changes that are kept, the last one first. -/
  recent : List Change := []
deriving DecidableEq

/-- The place of a subscriber in a feed: the number of changes before it. -/
structure Subscription where
  position : Nat
deriving DecidableEq, Repr

/-- What a subscriber receives. -/
inductive Delivery where
  | change (c : Change)
  /-- So many changes have been lost. -/
  | lagged (count : Nat)
deriving DecidableEq

namespace Feed

/-- The capacity of a feed that nobody has asked for in particular. -/
def defaultCapacity : Nat := 256

/-- The least power of two, from `n` on, that reaches a number. -/
def powerOfTwoFrom (wanted : Nat) : Nat → Nat → Nat
  | 0, n => n
  | fuel + 1, n => if wanted ≤ n then n else powerOfTwoFrom wanted fuel (2 * n)

/-- The capacity that a feed has when a number is asked for: the least power of two that is as
large, and never zero. -/
def roundedCapacity (wanted : Nat) : Nat := powerOfTwoFrom wanted wanted 1

/-- The feed in which nothing has happened yet. -/
def withCapacity (wanted : Nat) : Feed := { capacity := roundedCapacity wanted }

/-- Tells a change. -/
def send (f : Feed) (c : Change) : Feed :=
  { f with sent := f.sent + 1, recent := (c :: f.recent).take f.capacity }

/-- The place of a subscriber to whatever comes from now on. -/
def subscribe (f : Feed) : Subscription := ⟨f.sent⟩

/-- Everything that is there for a subscriber, and its place after it. -/
def drain (f : Feed) (s : Subscription) : List Delivery × Subscription :=
  let pending := f.sent - s.position
  let lost := pending - f.capacity
  let changes := (f.recent.take (min pending f.capacity)).reverse.map Delivery.change
  (if lost > 0 then .lagged lost :: changes else changes, f.subscribe)

end Feed

end ConfigRegistry
