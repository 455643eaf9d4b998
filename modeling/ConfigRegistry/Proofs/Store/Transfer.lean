/-
# Taking the entries of a store over into another one

What a store holds can be written out, object by object, and read into an empty store over the same
descriptor.  Nothing is lost on the way.  Every entry held is valid, so it is written and read back
as it is; it is held under its own identity and no other entry is, so no entry finds its place taken
in the new store, in whatever order they come.  Only the revisions are new.
-/
import ConfigRegistry.Proofs.Model.Acceptance
import ConfigRegistry.Proofs.Store.Integrity

namespace ConfigRegistry

namespace Contents.Sound

variable {d : Descriptor} {m : Contents}

lemma map_identity_values (h : m.Sound d) : m.values.map Entry.identity = m.keys := by
  rw [SortedMap.values, SortedMap.keys, List.map_map]
  refine List.map_congr_left fun p hmem => ?_
  exact h.identity_eq ((SortedMap.mem_toList_iff _ p.1 p.2).mp hmem)

lemma nodup_values (h : m.Sound d) : m.values.Nodup :=
  List.Nodup.of_map Entry.identity (h.map_identity_values ▸ m.nodup_keys)

lemma mem_values_iff (h : m.Sound d) {e : Entry} :
    e ∈ m.values ↔ m.find? e.identity = some e := by
  rw [SortedMap.mem_values_iff]
  constructor
  · rintro ⟨i, hfind⟩
    rwa [h.identity_eq hfind]
  · intro hfind
    exact ⟨e.identity, hfind⟩

end Contents.Sound

namespace MemoryStore

/-- The entries are those that the store holds, each of them once. -/
structure Inventory (s : MemoryStore) (entries : List Entry) : Prop where
  nodup : entries.Nodup
  mem_iff : ∀ e, e ∈ entries ↔ s.get? e.identity = some e

/-- Takes an entry over under a new revision, by way of the object that describes it. -/
def takeOver (s : MemoryStore) (revision : String) (e : Entry) : Except StoreError MemoryStore := do
  let object ← (s.descriptor.toObject e).mapError .model
  let copy ← (s.descriptor.ofObject object).outcome.mapError .model
  (s.create revision copy).changed

/-- Takes entries over one after another, each under a revision of its own. -/
def takeAllOver (s : MemoryStore) (items : List (String × Entry)) : Except StoreError MemoryStore :=
  items.foldlM (fun s x => s.takeOver x.1 x.2) s

/-- The calls that create entries under new revisions. -/
def creations (items : List (String × Entry)) : List Call :=
  items.map fun x => .create x.1 x.2

variable {d : Descriptor} {s : MemoryStore} {revision : String} {e : Entry}

/-- The entries of a store may be taken in any order. -/
lemma inventory_iff_perm (h : s.contents.Sound d) {entries : List Entry} :
    s.Inventory entries ↔ entries.Perm s.contents.values := by
  have hmem : ∀ e, e ∈ s.contents.values ↔ s.get? e.identity = some e := by
    intro e
    rw [h.mem_values_iff, find?_contents]
  constructor
  · rintro ⟨hnodup, hmem'⟩
    refine (List.perm_ext_iff_of_nodup hnodup h.nodup_values).mpr fun e => ?_
    rw [hmem', hmem]
  · intro hperm
    exact ⟨hperm.nodup_iff.mpr h.nodup_values, fun e => hperm.mem_iff.trans (hmem e)⟩

section Inventory

variable {items : List (String × Entry)}

lemma Inventory.get?_of_mem (h : s.Inventory (items.map Prod.snd)) {x : String × Entry}
    (hx : x ∈ items) : s.get? x.2.identity = some x.2 :=
  (h.mem_iff x.2).mp (List.mem_map_of_mem hx)

/-- Entries of one identity would be one entry. -/
lemma Inventory.nodup_identity (h : s.Inventory (items.map Prod.snd)) :
    (items.map fun x => x.2.identity).Nodup := by
  have hinj : ∀ a ∈ items.map Prod.snd, ∀ b ∈ items.map Prod.snd, a.identity = b.identity →
      a = b := by
    intro a ha b hb hab
    have hfind := (h.mem_iff a).mp ha
    rw [hab, (h.mem_iff b).mp hb] at hfind
    exact (Option.some.inj hfind).symm
  have hmap := List.Nodup.map_on hinj h.nodup
  rwa [List.map_map] at hmap

/-- A store that holds the entries of an inventory, and nothing else, holds under each identity
what is held where the inventory has been made, but for the revision. -/
lemma Inventory.map_get?_eq (h : s.Inventory (items.map Prod.snd)) (hs : s.contents.Sound d)
    {s' : MemoryStore} (hheld : ∀ x ∈ items, s'.get? x.2.identity = some (x.2.withRevision x.1))
    (hfree : ∀ i, i ∉ items.map (fun x => x.2.identity) → s'.get? i = none) (i : Identity) :
    (s'.get? i).map (·.withRevision "") = (s.get? i).map (·.withRevision "") := by
  by_cases hi : i ∈ items.map fun x => x.2.identity
  · obtain ⟨x, hx, rfl⟩ := List.mem_map.mp hi
    rw [hheld x hx, h.get?_of_mem hx]
    rfl
  · rw [hfree i hi]
    cases hfind : s.get? i with
    | none => rfl
    | some e =>
      -- an entry that is held is in the inventory
      exfalso
      have hidentity : e.identity = i := hs.identity_eq ((find?_contents s i).trans hfind)
      have hmem := (h.mem_iff e).mpr (hidentity ▸ hfind)
      obtain ⟨x, hx, rfl⟩ := List.mem_map.mp hmem
      exact hi (List.mem_map.mpr ⟨x, hx, hidentity⟩)

end Inventory

/-- A valid entry is read back as it is, so to take it over is to create it. -/
lemma takeOver_eq_create (h : s.descriptor.Accepts e) (revision : String) :
    s.takeOver revision e = (s.create revision e).changed := by
  rw [takeOver, h.toObject_eq]
  simp only [Except.mapError, bind, Except.bind, h.ofObject_shown]

/-- A valid entry can be created if its place is free. -/
lemma create_of_accepts (h : s.descriptor.Accepts e) (hfree : s.get? e.identity = none)
    (revision : String) :
    (s.create revision e).unaudited = (.ok (), s.put .add (e.withRevision revision)) := by
  obtain ⟨schema, hvalid⟩ := h
  rw [create_unaudited, hvalid, hfree]

/-- To take valid entries over, none of which has the identity of another one or of an entry held,
is to create them; after that each of them is held, and nothing else has changed. -/
lemma takeAllOver_of_accepts {items : List (String × Entry)} {s : MemoryStore}
    (haccepts : ∀ x ∈ items, s.descriptor.Accepts x.2)
    (hnodup : (items.map fun x => x.2.identity).Nodup)
    (hfree : ∀ x ∈ items, s.get? x.2.identity = none) :
    let s' := operations.after s (creations items)
    s.takeAllOver items = .ok s' ∧
      (∀ x ∈ items, s'.get? x.2.identity = some (x.2.withRevision x.1)) ∧
      ∀ i, i ∉ items.map (fun x => x.2.identity) → s'.get? i = s.get? i := by
  induction items generalizing s with
  | nil => exact ⟨rfl, by simp, fun _ _ => rfl⟩
  | cons x items ih =>
    obtain ⟨revision, e⟩ := x
    obtain ⟨hnew, hnodup⟩ := List.nodup_cons.mp hnodup
    have haccepts' := haccepts (revision, e) (List.mem_cons_self ..)
    have hcreate := create_of_accepts haccepts' (hfree (revision, e) (List.mem_cons_self ..))
      revision
    set s₁ := s.put .add (e.withRevision revision)
    have hget : ∀ i, s₁.get? i = if i = e.identity then some (e.withRevision revision)
        else s.get? i := fun i => get?_put .add (e.withRevision revision) i
    -- the places of the other entries are still free
    have hfree' : ∀ x ∈ items, s₁.get? x.2.identity = none := by
      intro x hx
      have hne : x.2.identity ≠ e.identity := fun h => hnew (List.mem_map.mpr ⟨x, hx, h⟩)
      rw [hget, if_neg hne]
      exact hfree x (List.mem_cons_of_mem _ hx)
    obtain ⟨hfold, hheld, hkept⟩ :=
      ih (s := s₁) (fun x hx => haccepts x (List.mem_cons_of_mem _ hx)) hnodup hfree'
    have hafter : operations.after s (creations ((revision, e) :: items)) =
        operations.after s₁ (creations items) := by
      rw [creations, List.map_cons, Operations.after_cons,
        Operations.step_create_ok (o := operations) hcreate]
      rfl
    rw [hafter, takeAllOver, List.foldlM_cons, takeOver_eq_create haccepts',
      Mutated.changed_eq_ok_iff.mpr hcreate]
    refine ⟨hfold, fun x hx => ?_, fun i hi => ?_⟩
    · rcases List.mem_cons.mp hx with rfl | hx
      · rw [hkept _ hnew, hget, if_pos rfl]
      · exact hheld x hx
    · rw [List.map_cons, List.mem_cons, not_or] at hi
      rw [hkept i hi.2, hget, if_neg hi.1]

/-- If two stores hold the same under each identity, up to what is not looked at in an entry, they
are of one size and list the same identities. -/
lemma size_eq_and_list_eq {γ : Type} {f : Entry → γ} {s' : MemoryStore} (hd : s.descriptor = d)
    (hd' : s'.descriptor = d) (hs : s.contents.Sound d) (hs' : s'.contents.Sound d)
    (h : ∀ i, (s.get? i).map f = (s'.get? i).map f) :
    s.size = s'.size ∧ ∀ typeName space,
      (s.list typeName space).map (List.map Entry.identity) =
        (s'.list typeName space).map (List.map Entry.identity) := by
  simp only [← find?_contents] at h
  constructor
  · have hlength := congrArg List.length (SortedMap.mapValues_toList_eq_iff.mpr h)
    rw [mapValues, mapValues, List.length_map, List.length_map] at hlength
    rw [← size_contents, ← size_contents]
    exact hlength
  · intro typeName space
    have hlist := hs.map_list_eq hs' (fun i (_ : i.typeName = typeName) => h i) space
    have hidentities := congrArg (Except.map (List.map Prod.fst)) hlist
    have hfst : ∀ r : Except StoreError (List Entry),
        (r.map (List.map fun e => (e.identity, f e))).map (List.map Prod.fst) =
          r.map (List.map Entry.identity) := by
      intro r
      cases r with
      | error fault => rfl
      | ok entries => simp [Except.map]
    rw [hfst, hfst] at hidentities
    rw [list_eq_contents_list, list_eq_contents_list, hd, hd']
    exact hidentities

end MemoryStore

/-- **Nothing is lost when the entries of a store are taken over into an empty one.**  If the
entries that a store holds are written as objects, read back from these and created in an empty
store over the same descriptor, in any order and under any revisions, then none of these steps
fails.  In the end the new store has as many entries as the old one and lists the same identities,
and under each identity it holds the entry that the old store holds, with its new revision. -/
theorem takeOver_inventory (d : Descriptor) (capacity capacity' : ℕ) (calls : List Call)
    {items : List (String × Entry)}
    (h : (MemoryStore.operations.after (.withCapacity d capacity) calls).Inventory
      (items.map Prod.snd)) :
    let store := MemoryStore.operations.after (.withCapacity d capacity) calls
    ∃ store' : MemoryStore,
      (MemoryStore.withCapacity d capacity').takeAllOver items = .ok store' ∧
      store'.size = store.size ∧
      (∀ typeName space, (store'.list typeName space).map (List.map Entry.identity) =
        (store.list typeName space).map (List.map Entry.identity)) ∧
      (∀ revision e, (revision, e) ∈ items →
        store'.get? e.identity = some (e.withRevision revision)) ∧
      ∀ i, (store'.get? i).map (·.withRevision "") = (store.get? i).map (·.withRevision "") := by
  intro store
  have hsound : store.contents.Sound d := MemoryStore.sound_contents_after d capacity calls
  have haccepts : ∀ x ∈ items, d.Accepts x.2 :=
    fun x hx => hsound.accepts ((MemoryStore.find?_contents store _).trans (h.get?_of_mem hx))
  obtain ⟨hfold, hheld, hkept⟩ :=
    MemoryStore.takeAllOver_of_accepts (s := .withCapacity d capacity') haccepts h.nodup_identity
      fun _ _ => rfl
  set store' := MemoryStore.operations.after (.withCapacity d capacity')
    (MemoryStore.creations items)
  have hsame := h.map_get?_eq hsound hheld hkept
  have hd : store.descriptor = d := MemoryStore.descriptor_after _ calls
  have hd' : store'.descriptor = d := MemoryStore.descriptor_after _ (MemoryStore.creations items)
  have hsound' : store'.contents.Sound d := MemoryStore.sound_contents_after d capacity' _
  obtain ⟨hsize, hlists⟩ := MemoryStore.size_eq_and_list_eq hd' hd hsound' hsound hsame
  exact ⟨store', hfold, hsize, hlists, fun revision e => hheld (revision, e), hsame⟩

/-- What a store holds in the end after its objects have been updated, removed and created again,
with the revisions that the entries are to have in another store. -/
def Broker.moved : List (String × Entry) :=
  [("7", Broker.planEntry "x" "a" "large" ["second"] "5"),
    ("8", Broker.classEntry "x" "a" "second" "3")]

theorem takeOver_moved :
    let store := MemoryStore.operations.after (.withCapacity Broker.known 1) Broker.namesakes
    store.Inventory (Broker.moved.map Prod.snd) ∧
    ∃ store' : MemoryStore,
      (MemoryStore.withCapacity Broker.known 1).takeAllOver Broker.moved = .ok store' ∧
      store'.size = store.size ∧
      (∀ typeName space, (store'.list typeName space).map (List.map Entry.identity) =
        (store.list typeName space).map (List.map Entry.identity)) ∧
      (∀ revision e, (revision, e) ∈ Broker.moved →
        store'.get? e.identity = some (e.withRevision revision)) ∧
      ∀ i, (store'.get? i).map (·.withRevision "") = (store.get? i).map (·.withRevision "") := by
  intro store
  have hsound : store.contents.Sound Broker.known := MemoryStore.sound_contents_after _ _ _
  have hinventory : store.Inventory (Broker.moved.map Prod.snd) :=
    (MemoryStore.inventory_iff_perm hsound).mpr (by decide +kernel)
  exact ⟨hinventory, takeOver_inventory Broker.known 1 1 Broker.namesakes hinventory⟩

end ConfigRegistry
