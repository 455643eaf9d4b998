/-
# Stores that cannot be changed

Two stores without a memory of their own: one shows entries that it was given, as they were given
and without looking at them, and one can do nothing but fail.
-/
import ConfigRegistry.Store.Basic

namespace ConfigRegistry

/-- A store of given entries that refuses every change. -/
structure FixedStore where
  /-- The types that the store would accept. -/
  descriptor : Descriptor
  entries : List Entry

namespace FixedStore

/-- The first entry of an identity. -/
def get? (s : FixedStore) (i : Identity) : Option Entry :=
  s.entries.find? fun e => e.identity == i

/-- The entries of a type in a namespace, in the order given; the empty namespace stands for
all. -/
def list (s : FixedStore) (typeName space : String) : List Entry :=
  s.entries.filter fun e =>
    e.metadata.typeName == typeName && (space.isEmpty || e.metadata.space == space)

/-- The error of every change. -/
def refusal : StoreError := .backend "read-only"

instance : ConfigStore FixedStore where
  descriptor := descriptor
  get? := get?
  list s typeName space := .ok (s.list typeName space)
  create s _ _ := Mutation.run s (.fail refusal)
  update s _ _ := Mutation.run s (.fail refusal)
  delete s _ := Mutation.run s (.fail refusal)

end FixedStore

/-- A store whose data cannot be reached. -/
structure FailingStore where
  /-- The types that the store would accept. -/
  descriptor : Descriptor
  /-- Why the data cannot be reached. -/
  reason : String

namespace FailingStore

/-- The error of every operation that can have one. -/
def error (s : FailingStore) : StoreError := .backend s.reason

instance : ConfigStore FailingStore where
  descriptor := descriptor
  get? _ _ := none
  list s _ _ := .error s.error
  create s _ _ := Mutation.run s (.fail s.error)
  update s _ _ := Mutation.run s (.fail s.error)
  delete s _ := Mutation.run s (.fail s.error)

end FailingStore

end ConfigRegistry
