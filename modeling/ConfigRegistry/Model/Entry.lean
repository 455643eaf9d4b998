/-
# Entries

An entry is a configuration unit with its payload read: what a store holds.
-/
import ConfigRegistry.Model.Metadata
import ConfigRegistry.Model.Payload

namespace ConfigRegistry

/-- A configuration unit: metadata and a payload. -/
structure Entry where
  metadata : Metadata
  payload : Message
deriving DecidableEq

namespace Entry

/-- What tells the entry from others in a store. -/
def identity (e : Entry) : Identity := e.metadata.identity

/-- The identity as one text. -/
def key (e : Entry) : String := e.metadata.key

/-- The same entry with another revision. -/
def withRevision (e : Entry) (revision : String) : Entry :=
  { e with metadata := { e.metadata with revision } }

end Entry

end ConfigRegistry
