/-
# What the operations of a store in memory do

Each operation is described by one equation: which check fails first, and what the store is then
and when none fails.  By the time it fails a mutation may have written to the tables, as one that
adds an entry opens its table first, and one that removes an entry writes the table back before it
looks at what it has taken.  The equations say that this comes to nothing.  After that a changed
store is known by its fields, above all by `get?`; the tables themselves need not be looked at
again.
-/
import Mathlib.Tactic.Common
import ConfigRegistry.Store.Memory

namespace ConfigRegistry

/-- Two identities are the same if they agree on the type and on the slot in its table. -/
lemma Identity.eq_iff {i j : Identity} :
    i = j ↔ i.typeName = j.typeName ∧ i.slot = j.slot := by
  cases i; cases j; simp [slot]

namespace MemoryStore

/-- The store with an entry in place of any other of its identity, after it has told so. -/
def put (s : MemoryStore) (event : Event) (e : Entry) : MemoryStore := (s.hold e).tell event e

/-- The store without an entry that it has held, and after it has told so. -/
def without (s : MemoryStore) (i : Identity) (removed : Entry) : MemoryStore :=
  { s with
    tables := s.tables.insert i.typeName ((s.table i.typeName).erase i.slot)
    feed := s.feed.send ⟨.delete, removed⟩ }

variable (s : MemoryStore)

lemma checkType_eq (typeName : String) :
    s.checkType typeName =
      match s.descriptor.schemaOfType? typeName with
      | some _ => .ok ()
      | none => .error (.model (.unknownType typeName)) := rfl

lemma validate_outcome (e : Entry) :
    (s.validate e).outcome =
      ((s.descriptor.validate e).outcome.mapError StoreError.model).map fun _ => () := by
  rw [validate, Audited.outcome_bind]
  simp only [Audited.mapError]
  cases (s.descriptor.validate e).outcome <;> rfl

/-! ## What mutations have done when they fail -/

section Steps

variable {s} {i : Identity} {e : Entry}

/-- An entry is held in a table that there is. -/
lemma find?_tables_of_get? (h : s.get? i = some e) :
    s.tables.find? i.typeName = some (s.table i.typeName) := by
  rw [get?, table] at h
  rw [table]
  cases htable : s.tables.find? i.typeName with
  | none => simp [htable] at h
  | some t => rfl

/-- Where the identity of an entry is taken, its table has been made before. -/
lemma openTable_of_get? (h : s.get? i = some e) : s.openTable i.typeName = s := by
  rw [openTable, SortedMap.insert_of_find?_eq_some (find?_tables_of_get? h)]

lemma table_openTable (typeName : String) : (s.openTable typeName).table = s.table := by
  funext t
  by_cases ht : t = typeName <;> simp [table, openTable, SortedMap.find?_insert, ht]

/-- To make an empty table makes no difference to what is held. -/
lemma get?_openTable (typeName : String) : (s.openTable typeName).get? i = s.get? i := by
  rw [get?, table_openTable, get?]

/-- Once an entry is put, it makes no difference whether its table has been made before. -/
lemma put_openTable (event : Event) (e : Entry) :
    (s.openTable e.identity.typeName).put event e = s.put event e := by
  rw [put, hold, table_openTable]
  simp [openTable, put, hold, tell]

/-- To take what is not held leaves the table of its type, if there is one, as it was. -/
lemma take_of_get?_eq_none (h : s.get? i = none) : s.take i = (none, s) := by
  rw [take]
  cases htable : s.tables.find? i.typeName with
  | none => rfl
  | some t =>
    have hfind : t.find? i.slot = none := by simpa [get?, table, htable] using h
    simp only [hfind, SortedMap.erase_of_find?_eq_none hfind,
      SortedMap.insert_of_find?_eq_some htable]

lemma take_of_get?_eq_some (h : s.get? i = some e) :
    s.take i = (some e,
      { s with tables := s.tables.insert i.typeName ((s.table i.typeName).erase i.slot) }) := by
  have hfind : (s.table i.typeName).find? i.slot = some e := h
  rw [take, find?_tables_of_get? h, ← hfind]

end Steps

/-! ## The operations -/

/-- A mutation that begins with a validation ends there if the entry is not valid. -/
lemma unaudited_validate_bind (e : Entry) (m : Mutation MemoryStore Unit) :
    (Mutation.run s (liftM (s.validate e) >>= fun _ => m)).unaudited =
      match (s.descriptor.validate e).outcome with
      | .error fault => (.error (.model fault), s)
      | .ok _ => (Mutation.run s m).unaudited := by
  rw [Mutation.unaudited_bind, Mutation.unaudited_liftM, validate_outcome]
  cases (s.descriptor.validate e).outcome <;> rfl

lemma create_unaudited (revision : String) (e : Entry) :
    (s.create revision e).unaudited =
      match (s.descriptor.validate e).outcome, s.get? e.identity with
      | .error fault, _ => (.error (.model fault), s)
      | .ok _, some _ => (.error (.alreadyExists e.identity), s)
      | .ok _, none => (.ok (), s.put .add (e.withRevision revision)) := by
  rw [create, unaudited_validate_bind]
  cases (s.descriptor.validate e).outcome with
  | error fault => rfl
  | ok _ =>
    -- the table is open by the time that the identity is looked for
    simp only [Mutation.unaudited_bind, Mutation.unaudited_modify, Mutation.unaudited_get,
      get?_openTable]
    cases hget : s.get? e.identity with
    | some current => rw [openTable_of_get? hget, Mutation.unaudited_fail]
    | none =>
      simp only [Mutation.unaudited_bind, Mutation.unaudited_modify]
      exact congrArg (Prod.mk _) (put_openTable .add (e.withRevision revision))

lemma update_unaudited (revision : String) (e : Entry) :
    (s.update revision e).unaudited =
      match (s.descriptor.validate e).outcome, s.get? e.identity with
      | .error fault, _ => (.error (.model fault), s)
      | .ok _, none => (.error (.notFound e.identity), s)
      | .ok _, some current =>
        if current.metadata.revision = e.metadata.revision then
          (.ok (), s.put .update (e.withRevision revision))
        else (.error (.conflict e.identity current.metadata.revision e.metadata.revision), s) := by
  rw [update, unaudited_validate_bind]
  cases (s.descriptor.validate e).outcome with
  | error fault => rfl
  | ok _ =>
    simp only [Mutation.unaudited_bind, Mutation.unaudited_get]
    cases s.get? e.identity with
    | none => rfl
    | some current =>
      by_cases hrev : current.metadata.revision = e.metadata.revision
      · simp only [hrev, bne_self_eq_false, Bool.false_eq_true, if_false, if_true]
        rfl
      · simp only [hrev, bne_iff_ne, ne_eq, not_false_eq_true, if_true, if_false]
        rfl

lemma delete_unaudited (i : Identity) :
    (s.delete i).unaudited =
      match s.descriptor.schemaOfType? i.typeName, s.get? i with
      | none, _ => (.error (.model (.unknownType i.typeName)), s)
      | some _, none => (.error (.notFound i), s)
      | some _, some removed => (.ok (), s.without i removed) := by
  rw [delete, Mutation.unaudited_bind, Mutation.unaudited_liftM, checkType_eq]
  cases s.descriptor.schemaOfType? i.typeName with
  | none => rfl
  | some _ =>
    simp only [Audited.outcome_ofExcept, Mutation.unaudited_bind, Mutation.unaudited_modifyGet]
    cases hget : s.get? i with
    | none => rw [take_of_get?_eq_none hget, Mutation.unaudited_fail]
    | some removed =>
      rw [take_of_get?_eq_some hget]
      rfl

lemma list_eq (typeName space : String) :
    s.list typeName space =
      match s.descriptor.schemaOfType? typeName with
      | none => .error (.model (.unknownType typeName))
      | some _ =>
        .ok ((s.table typeName).filter fun slot _ => space.isEmpty || slot.space == space).values
    := by
  rw [list, checkType_eq]
  cases s.descriptor.schemaOfType? typeName <;> rfl

/-! ## The store after a change -/

variable {s}

/-- What a store holds after the table of a type has been exchanged for another one. -/
lemma get?_of_tables_eq_insert {s' : MemoryStore} {typeName : String} {t : Table}
    (h : s'.tables = s.tables.insert typeName t) (i : Identity) :
    s'.get? i = if i.typeName = typeName then t.find? i.slot else s.get? i := by
  simp only [get?, table, h, SortedMap.find?_insert]
  by_cases htype : i.typeName = typeName
  · simp [htype]
  · simp [htype]

lemma get?_put (event : Event) (e : Entry) (i : Identity) :
    (s.put event e).get? i = if i = e.identity then some e else s.get? i := by
  rw [get?_of_tables_eq_insert (s := s) rfl]
  by_cases htype : i.typeName = e.identity.typeName
  · simp [Identity.eq_iff, htype, SortedMap.find?_insert, get?]
  · simp [Identity.eq_iff, htype]

lemma get?_without (i : Identity) (removed : Entry) (j : Identity) :
    (s.without i removed).get? j = if j = i then none else s.get? j := by
  rw [get?_of_tables_eq_insert (s := s) rfl]
  by_cases htype : j.typeName = i.typeName
  · simp [Identity.eq_iff, htype, SortedMap.find?_erase, get?]
  · simp [Identity.eq_iff, htype]

end MemoryStore

end ConfigRegistry
