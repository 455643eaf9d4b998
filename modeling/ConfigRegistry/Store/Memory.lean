/-
# Stores in memory

A store in memory has a table for every type of which it has held an entry; in a table the entries
are sorted by namespace and name.  A table is made before it is known whether the entry can be added
to it, and it stays when its last entry goes.  Every mutation that succeeds is told to the feed, at
its end.  Revisions come from outside: a mutation is given the one that the entry is to bear.
-/
import ConfigRegistry.Store.Basic
import ConfigRegistry.Store.Feed

namespace ConfigRegistry

/-- The place of an entry in the table of its type. -/
structure Slot where
  space : String
  name : String
deriving DecidableEq, Repr

namespace Slot

/-- Slots are ordered by namespace, and within a namespace by name. -/
instance : Ord Slot where
  compare := compareLex (compareOn Slot.space) (compareOn Slot.name)

instance : Std.TransOrd Slot := inferInstanceAs (Std.TransCmp (compareLex _ _))

instance : Std.LawfulEqOrd Slot where
  eq_of_compare {a b} h := by
    obtain ⟨h₁, h₂⟩ := compareLex_eq_eq.1 h
    have space : a.space = b.space := Std.LawfulEqOrd.eq_of_compare h₁
    have name : a.name = b.name := Std.LawfulEqOrd.eq_of_compare h₂
    cases a; cases b; simp_all

end Slot

/-- The slot of an identity. -/
def Identity.slot (i : Identity) : Slot := ⟨i.space, i.name⟩

/-- The entries of a type. -/
abbrev Table : Type := SortedMap Slot Entry

/-- A store in memory. -/
structure MemoryStore where
  /-- The types that the store accepts. -/
  descriptor : Descriptor
  /-- The tables by type name. -/
  tables : SortedMap String Table
  feed : Feed

namespace MemoryStore

/-- The empty store with a feed of some capacity. -/
def withCapacity (d : Descriptor) (capacity : Nat) : MemoryStore :=
  ⟨d, ∅, Feed.withCapacity capacity⟩

/-- The empty store. -/
def empty (d : Descriptor) : MemoryStore := withCapacity d Feed.defaultCapacity

/-- The number of entries of all types. -/
def size (s : MemoryStore) : Nat := s.tables.values.foldl (fun n t => n + t.size) 0

/-- Whether there is no entry. -/
def isEmpty (s : MemoryStore) : Bool := s.size == 0

/-- The table of a type; it is empty if there has never been an entry. -/
def table (s : MemoryStore) (typeName : String) : Table := (s.tables.find? typeName).getD ∅

/-- The entry of an identity. -/
def get? (s : MemoryStore) (i : Identity) : Option Entry := (s.table i.typeName).find? i.slot

/-- Requires a type to be known. -/
def checkType (s : MemoryStore) (typeName : String) : Except StoreError Unit :=
  match s.descriptor.schemaOfType? typeName with
  | some _ => .ok ()
  | none => .error (.model (.unknownType typeName))

/-- The entries of a type in a namespace, sorted; the empty namespace stands for all. -/
def list (s : MemoryStore) (typeName space : String) : Except StoreError (List Entry) := do
  s.checkType typeName
  let wanted := (s.table typeName).filter fun slot _ => space.isEmpty || slot.space == space
  return wanted.values

/-- Requires an entry to be valid. -/
def validate (s : MemoryStore) (e : Entry) : Audited StoreError Unit := do
  let _ ← (s.descriptor.validate e).mapError .model

/-! The steps that mutations are made of. -/

/-- Makes a table for a type, unless there is one. -/
def openTable (typeName : String) (s : MemoryStore) : MemoryStore :=
  { s with tables := s.tables.insert typeName (s.table typeName) }

/-- Holds an entry in the table of its type, in place of any other of its identity. -/
def hold (e : Entry) (s : MemoryStore) : MemoryStore :=
  let typeName := e.identity.typeName
  { s with tables := s.tables.insert typeName ((s.table typeName).insert e.identity.slot e) }

/-- Takes the entry of an identity, if there is one, out of the table of its type. -/
def take (i : Identity) (s : MemoryStore) : Option Entry × MemoryStore :=
  match s.tables.find? i.typeName with
  | none => (none, s)
  | some t => (t.find? i.slot, { s with tables := s.tables.insert i.typeName (t.erase i.slot) })

/-- Tells the feed a change. -/
def tell (event : Event) (e : Entry) (s : MemoryStore) : MemoryStore :=
  { s with feed := s.feed.send ⟨event, e⟩ }

/-- Adds an entry, unless one of its identity is held. -/
def create (s : MemoryStore) (revision : String) (e : Entry) : Mutated MemoryStore Unit :=
  Mutation.run s do
    s.validate e
    modify (openTable e.identity.typeName)
    match (← get).get? e.identity with
    | some _ => .fail (.alreadyExists e.identity)
    | none =>
      let stored := e.withRevision revision
      modify (hold stored)
      modify (tell .add stored)

/-- Replaces an entry, which has to bear the revision of the one held. -/
def update (s : MemoryStore) (revision : String) (e : Entry) : Mutated MemoryStore Unit :=
  Mutation.run s do
    s.validate e
    match (← get).get? e.identity with
    | none => .fail (.notFound e.identity)
    | some current =>
      if current.metadata.revision != e.metadata.revision then
        .fail (.conflict e.identity current.metadata.revision e.metadata.revision)
      else
        let stored := e.withRevision revision
        modify (hold stored)
        modify (tell .update stored)

/-- Removes the entry of an identity. -/
def delete (s : MemoryStore) (i : Identity) : Mutated MemoryStore Unit :=
  Mutation.run s do
    Audited.ofExcept (s.checkType i.typeName)
    match ← modifyGet (take i) with
    | none => .fail (.notFound i)
    | some removed => modify (tell .delete removed)

instance : ConfigStore MemoryStore where
  descriptor := descriptor
  get? := get?
  list := list
  create := create
  update := update
  delete := delete

end MemoryStore

end ConfigRegistry
