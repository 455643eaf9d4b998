/-
# A store in memory is a flat map

A store in memory holds a table for each type it has ever held an entry of, and a table stays when
its last entry goes.  None of this can be seen from outside.  The tables, laid end to end, are one
ascending list of identities and entries (`MemoryStore.contents`); a table that is empty adds
nothing to it.  Every operation commutes with this reading, and so every run of a store in memory
has the history that the flat map has.
-/
import ConfigRegistry.Proofs.Store.Contents

namespace ConfigRegistry

namespace Table

/-- The entries of a table under their identities, when it is the table of a type. -/
def under (typeName : String) (t : Table) : Contents where
  toList := t.toList.map fun p => (Identity.ofSlot typeName p.1, p.2)
  ascending := by
    refine List.pairwise_map.mpr (t.ascending.imp ?_)
    intro a b h
    rw [← h]
    exact Identity.compare_of_typeName_eq rfl

lemma mem_under_iff {typeName : String} {t : Table} {i : Identity} {e : Entry} :
    (i, e) ∈ (t.under typeName).toList ↔ i.typeName = typeName ∧ t.find? i.slot = some e := by
  simp only [under, List.mem_map, Prod.mk.injEq, Prod.exists]
  constructor
  · rintro ⟨slot, e, hmem, rfl, rfl⟩
    exact ⟨rfl, (SortedMap.mem_toList_iff _ _ _).mp hmem⟩
  · rintro ⟨rfl, hfind⟩
    exact ⟨i.slot, e, (SortedMap.mem_toList_iff _ _ _).mpr hfind, rfl, rfl⟩

lemma find?_under_eq_some_iff {typeName : String} {t : Table} {i : Identity} {e : Entry} :
    (t.under typeName).find? i = some e ↔ i.typeName = typeName ∧ t.find? i.slot = some e := by
  rw [← SortedMap.mem_toList_iff, mem_under_iff]

@[simp] lemma size_under (typeName : String) (t : Table) : (t.under typeName).size = t.size := by
  simp [under, SortedMap.size]

@[simp] lemma values_under (typeName : String) (t : Table) :
    (t.under typeName).values = t.values := by
  simp [under, SortedMap.values, Function.comp_def]

end Table

namespace MemoryStore

/-- What the store holds, all tables taken together. -/
def contents (s : MemoryStore) : Contents where
  toList := s.tables.toList.flatMap fun p => (p.2.under p.1).toList
  ascending := by
    -- within a table by slots, and from table to table by types
    refine List.pairwise_flatMap.mpr ⟨fun p _ => (p.2.under p.1).ascending, ?_⟩
    refine s.tables.ascending.imp ?_
    rintro ⟨t, table⟩ ⟨t', table'⟩ hlt ⟨i, e⟩ hi ⟨j, e'⟩ hj
    have hit : i.typeName = t := (Table.mem_under_iff.mp hi).1
    have hjt : j.typeName = t' := (Table.mem_under_iff.mp hj).1
    exact Identity.compare_of_typeName_lt (by rw [hit, hjt]; exact hlt)

/-- The flat map holds an entry exactly if the store does. -/
@[simp] lemma find?_contents (s : MemoryStore) (i : Identity) :
    s.contents.find? i = s.get? i := by
  ext e
  rw [← SortedMap.mem_toList_iff]
  simp only [contents, List.mem_flatMap, Prod.exists, SortedMap.mem_toList_iff,
    Table.find?_under_eq_some_iff, get?, table]
  constructor
  · rintro ⟨_, t, ht, rfl, he⟩
    simpa [ht] using he
  · intro he
    cases ht : s.tables.find? i.typeName with
    | none => simp [ht] at he
    | some t => exact ⟨i.typeName, t, ht, rfl, by simpa [ht] using he⟩

/-- Counting table by table is counting the entries laid end to end. -/
lemma foldl_size (l : List (String × Table)) (n : ℕ) :
    (l.map Prod.snd).foldl (fun n t => n + t.size) n =
      n + (l.flatMap fun p => (Table.under p.1 p.2).toList).length := by
  induction l generalizing n with
  | nil => rfl
  | cons p l ih =>
    have hsize : (Table.under p.1 p.2).toList.length = p.2.size := Table.size_under p.1 p.2
    rw [List.map_cons, List.foldl_cons, ih, List.flatMap_cons, List.length_append, hsize,
      Nat.add_assoc]

/-- The flat map has as many entries as all tables together. -/
@[simp] lemma size_contents (s : MemoryStore) : s.contents.size = s.size := by
  rw [size, SortedMap.values, foldl_size, Nat.zero_add]
  rfl

/-- The part of the flat map that belongs to a type is the table of that type. -/
lemma filter_contents (s : MemoryStore) (typeName : String) (p : Slot → Bool) :
    (s.contents.filter fun i _ => i.typeName == typeName && p i.slot) =
      Table.under typeName ((s.table typeName).filter fun slot _ => p slot) := by
  -- both are maps, so it is enough that they hold the same
  refine SortedMap.ext_find fun i => ?_
  ext e
  rw [SortedMap.find?_filter, Option.filter_eq_some_iff, Table.find?_under_eq_some_iff,
    SortedMap.find?_filter, Option.filter_eq_some_iff, find?_contents, get?]
  simp only [Bool.and_eq_true, beq_iff_eq]
  constructor
  · rintro ⟨he, rfl, hp⟩
    exact ⟨rfl, he, hp⟩
  · rintro ⟨rfl, he, hp⟩
    exact ⟨he, rfl, hp⟩

/-! ## The operations, on the flat map -/

lemma contents_put (s : MemoryStore) (event : Event) (e : Entry) :
    (s.put event e).contents = s.contents.insert e.identity e := by
  refine SortedMap.ext_find fun i => ?_
  rw [find?_contents, get?_put, SortedMap.find?_insert, find?_contents]

lemma contents_without (s : MemoryStore) (i : Identity) (removed : Entry) :
    (s.without i removed).contents = s.contents.erase i := by
  refine SortedMap.ext_find fun j => ?_
  rw [find?_contents, get?_without, SortedMap.find?_erase, find?_contents]

/-- Adding an entry to the store is adding it to the flat map. -/
lemma contents_create (s : MemoryStore) (revision : String) (e : Entry) :
    (s.create revision e).unaudited.map id contents =
      s.contents.create s.descriptor revision e := by
  rw [create_unaudited, Contents.create, find?_contents]
  cases (s.descriptor.validate e).outcome with
  | error fault => rfl
  | ok _ =>
    cases s.get? e.identity with
    | some current => rfl
    | none => exact congrArg (Prod.mk _) (contents_put s .add (e.withRevision revision))

/-- Replacing an entry of the store is replacing it in the flat map. -/
lemma contents_update (s : MemoryStore) (revision : String) (e : Entry) :
    (s.update revision e).unaudited.map id contents =
      s.contents.update s.descriptor revision e := by
  rw [update_unaudited, Contents.update, find?_contents]
  cases (s.descriptor.validate e).outcome with
  | error fault => rfl
  | ok _ =>
    cases s.get? e.identity with
    | none => rfl
    | some current =>
      by_cases hrev : current.metadata.revision = e.metadata.revision
      · simp only [hrev, if_true]
        exact congrArg (Prod.mk _) (contents_put s .update (e.withRevision revision))
      · simp only [hrev, if_false]
        rfl

/-- Removing an entry from the store is removing it from the flat map. -/
lemma contents_delete (s : MemoryStore) (i : Identity) :
    (s.delete i).unaudited.map id contents = s.contents.delete s.descriptor i := by
  rw [delete_unaudited, Contents.delete, find?_contents]
  cases s.descriptor.schemaOfType? i.typeName with
  | none => rfl
  | some _ =>
    cases s.get? i with
    | none => rfl
    | some removed => exact congrArg (Prod.mk _) (contents_without s i removed)

/-- A type is listed by the store as it is listed by the flat map. -/
lemma list_eq_contents_list (s : MemoryStore) (typeName space : String) :
    s.list typeName space = s.contents.list s.descriptor typeName space := by
  rw [list_eq, Contents.list]
  cases s.descriptor.schemaOfType? typeName with
  | none => rfl
  | some _ =>
    have hfilter := filter_contents s typeName fun slot => space.isEmpty || slot.space == space
    simp only [Except.ok.injEq]
    rw [← Table.values_under typeName, ← hfilter]
    rfl

/-! ## Runs -/

/-- No call changes the descriptor. -/
lemma descriptor_step (s : MemoryStore) (c : Call) :
    (operations.step s c).2.descriptor = s.descriptor := by
  cases c with
  | create revision e =>
    simp only [Operations.step, operations, create_unaudited]
    split <;> rfl
  | update revision e =>
    simp only [Operations.step, operations, update_unaudited]
    split
    · rfl
    · rfl
    · split <;> rfl
  | delete i =>
    simp only [Operations.step, operations, delete_unaudited]
    split <;> rfl
  | get i => rfl
  | list typeName space => rfl
  | size => rfl

lemma descriptor_after (s : MemoryStore) (calls : List Call) :
    (operations.after s calls).descriptor = s.descriptor :=
  Operations.after_induction _ _ (P := fun s' => s'.descriptor = s.descriptor) rfl
    (fun s' c h => (descriptor_step s' c).trans h) calls

/-- A step of the store is a step of the flat map. -/
lemma contents_step (s : MemoryStore) (c : Call) :
    (Contents.operations s.descriptor).step s.contents c =
      ((operations.step s c).1, (operations.step s c).2.contents) := by
  cases c with
  | create revision e =>
    simp only [Operations.step, operations, Contents.operations, ← contents_create]
    rfl
  | update revision e =>
    simp only [Operations.step, operations, Contents.operations, ← contents_update]
    rfl
  | delete i =>
    simp only [Operations.step, operations, Contents.operations, ← contents_delete]
    rfl
  | get i => simp [Operations.step, operations, Contents.operations]
  | list typeName space =>
    simp [Operations.step, operations, Contents.operations, list_eq_contents_list]
  | size => simp [Operations.step, operations, Contents.operations]

section

variable {d : Descriptor} {s : MemoryStore}

lemma history_eq_contents_history (hd : s.descriptor = d) (calls : List Call) :
    operations.history s calls = (Contents.operations d).history s.contents calls :=
  Operations.history_map (P := fun s => s.descriptor = d)
    (fun s c h => (descriptor_step s c).trans h) (fun s c h => h ▸ contents_step s c) hd calls

lemma contents_after (hd : s.descriptor = d) (calls : List Call) :
    (operations.after s calls).contents = (Contents.operations d).after s.contents calls :=
  Operations.after_map (P := fun s => s.descriptor = d)
    (fun s c h => (descriptor_step s c).trans h) (fun s c h => h ▸ contents_step s c) hd calls

end

section

variable (d : Descriptor) (capacity : ℕ) (calls : List Call)

lemma contents_after_empty :
    (operations.after (withCapacity d capacity) calls).contents =
      (Contents.operations d).after ∅ calls :=
  contents_after rfl calls

lemma sound_contents_after :
    (operations.after (withCapacity d capacity) calls).contents.Sound d := by
  rw [contents_after_empty]
  exact Contents.sound_after calls

lemma list_after_empty (typeName space : String) :
    (operations.after (withCapacity d capacity) calls).list typeName space =
      ((Contents.operations d).after ∅ calls).list d typeName space := by
  have hd : (operations.after (withCapacity d capacity) calls).descriptor = d :=
    descriptor_after _ calls
  rw [list_eq_contents_list, contents_after_empty, hd]

/-- A type that is not registered cannot be listed, whatever has been called before. -/
lemma list_after_of_unknown {typeName : String} (h : d.schemaOfType? typeName = none)
    (space : String) :
    (operations.after (withCapacity d capacity) calls).list typeName space =
      .error (.model (.unknownType typeName)) := by
  rw [list_after_empty, Contents.list, h]

/-- A type that is registered can be listed, whatever has been called before. -/
lemma list_after_of_known {typeName : String} {s : Schema}
    (h : d.schemaOfType? typeName = some s) (space : String) :
    ∃ entries,
      (operations.after (withCapacity d capacity) calls).list typeName space = .ok entries ∧
        ((Contents.operations d).after ∅ calls).Lists typeName space entries := by
  refine ⟨_, ?_, (Contents.sound_after calls).lists_values typeName space⟩
  rw [list_after_empty, Contents.list, h]

end

end MemoryStore

/-- **A store in memory answers as one flat finite map does.**  Whatever is called, in whatever
order and however often, a store that began empty answers each call as the map does that began
empty, and holds what the map holds.  Moreover the map never holds anything of a type that is not
registered, and it fails to list such a type only; of another one it lists each entry once, in
ascending order of namespace and name. -/
theorem history_eq_flat_history (d : Descriptor) (capacity : ℕ) (calls : List Call) :
    let flat := (Contents.operations d).after ∅ calls
    let store := MemoryStore.operations.after (.withCapacity d capacity) calls
    MemoryStore.operations.history (.withCapacity d capacity) calls =
        (Contents.operations d).history ∅ calls ∧
      store.contents = flat ∧
      (∀ i, d.schemaOfType? i.typeName = none → flat.find? i = none) ∧
      ∀ typeName space,
        match d.schemaOfType? typeName with
        | none => store.list typeName space = .error (.model (.unknownType typeName))
        | some _ => ∃ entries, store.list typeName space = .ok entries ∧
            flat.Lists typeName space entries := by
  intro flat store
  refine ⟨MemoryStore.history_eq_contents_history rfl calls,
    MemoryStore.contents_after_empty d capacity calls,
    fun i hi => (Contents.sound_after calls).find?_eq_none hi, ?_⟩
  intro typeName space
  split
  · next h => exact MemoryStore.list_after_of_unknown d capacity calls h space
  · next s h => exact MemoryStore.list_after_of_known d capacity calls h space

end ConfigRegistry
