/-
# Sorted trees

Sorting a tree keeps what stands under every key, provided that no key comes twice in an object.
-/
import ConfigRegistry.Proofs.Json.Tree
import ConfigRegistry.Proofs.SortedMap

namespace ConfigRegistry.Json

mutual

/-- No object of the tree has a key twice. -/
def DistinctKeys : Json → Prop
  | array items => DistinctKeysItems items
  | object members => (members.map Prod.fst).Nodup ∧ DistinctKeysMembers members
  | _ => True

/-- No object of the items has a key twice. -/
def DistinctKeysItems : List Json → Prop
  | [] => True
  | x :: xs => DistinctKeys x ∧ DistinctKeysItems xs

/-- No object of the values of the members has a key twice. -/
def DistinctKeysMembers : List (String × Json) → Prop
  | [] => True
  | (_, v) :: ms => DistinctKeys v ∧ DistinctKeysMembers ms

end

lemma distinctKeysItems_iff {items : List Json} :
    DistinctKeysItems items ↔ ∀ x ∈ items, x.DistinctKeys := by
  induction items with
  | nil => simp [DistinctKeysItems]
  | cons x xs ih => rw [DistinctKeysItems, ih, List.forall_mem_cons]

lemma distinctKeysMembers_iff {members : List (String × Json)} :
    DistinctKeysMembers members ↔ ∀ m ∈ members, m.2.DistinctKeys := by
  induction members with
  | nil => simp [DistinctKeysMembers]
  | cons m ms ih => rw [DistinctKeysMembers, ih, List.forall_mem_cons]

/-- The members of a sorted object are those of a map. -/
lemma sortedMembers_toList (m : SortedMap String Json) (members : List (String × Json)) :
    sortedMembers m.toList members =
      ((mapValues sorted members).foldl (fun m e => m.insert e.1 e.2) m).toList := by
  induction members generalizing m with
  | nil => rfl
  | cons e ms ih => exact ih (m.insert e.1 e.2.sorted)

lemma sortedMembers_nil (members : List (String × Json)) :
    sortedMembers [] members = (SortedMap.ofList (mapValues sorted members)).toList :=
  sortedMembers_toList ∅ members

lemma nodup_keys_sortedMembers (members : List (String × Json)) :
    ((sortedMembers [] members).map Prod.fst).Nodup := by
  rw [sortedMembers_nil]
  exact SortedMap.nodup_keys _

/-- Under each key stands what stood there, sorted. -/
lemma lookup_sortedMembers {members : List (String × Json)} (h : (members.map Prod.fst).Nodup)
    (k : String) : (sortedMembers [] members).lookup k = (members.lookup k).map sorted := by
  have hkeys : ((mapValues sorted members).map Prod.fst).Nodup := by
    rw [map_fst_mapValues]
    exact h
  rw [sortedMembers_nil, SortedMap.lookup_toList, SortedMap.find?_ofList_eq_lookup hkeys,
    lookup_mapValues]

/-- Sorting brings in no key that was not there. -/
lemma key_mem_of_mem_sortedMembers {members : List (String × Json)}
    (h : (members.map Prod.fst).Nodup) {m : String × Json} (hm : m ∈ sortedMembers [] members) :
    ∃ v, (m.1, v) ∈ members := by
  -- what is a member can be looked up, and a look-up goes back to the members before sorting
  have hlookup := (SortedMap.lookup_eq_some_iff_mem (nodup_keys_sortedMembers members)).mpr hm
  rw [lookup_sortedMembers h] at hlookup
  obtain ⟨v, hv, -⟩ := Option.map_eq_some_iff.mp hlookup
  exact ⟨v, (SortedMap.lookup_eq_some_iff_mem h).mp hv⟩

lemma sorted_ne_null {j : Json} (h : j ≠ null) : j.sorted ≠ null := by
  cases j <;> simp_all [sorted]

/-- A map of texts holds the same texts when its keys are sorted. -/
lemma sorted_texts (entries : List (String × String)) :
    sorted (object (mapValues string entries)) =
      object (mapValues string (SortedMap.ofList entries).toList) := by
  have hvalues : mapValues sorted (mapValues string entries) = mapValues string entries := by
    simp [mapValues, Function.comp_def, sorted]
  rw [sorted, sortedMembers_nil, hvalues, SortedMap.toList_ofList_mapValues]

/-! ## Trees that are sorted -/

lemma sortedItems_eq_map (items : List Json) : sortedItems items = items.map sorted := by
  induction items with
  | nil => rfl
  | cons x xs ih => rw [sortedItems, ih, List.map_cons]

mutual

/-- Sorting a sorted tree changes nothing. -/
theorem sorted_sorted : (j : Json) → j.sorted.sorted = j.sorted
  | null | bool _ | number _ | string _ => rfl
  | array items => congrArg array (sortedItems_sortedItems items)
  | object members => by
    rw [sorted, sorted, sortedMembers_nil, sortedMembers_nil, ← SortedMap.toList_ofList_mapValues,
      mapValues_sorted_mapValues members, SortedMap.ofList_toList]

lemma sortedItems_sortedItems : (items : List Json) →
    sortedItems (sortedItems items) = sortedItems items
  | [] => rfl
  | x :: xs => by
    rw [sortedItems, sortedItems, sorted_sorted x, sortedItems_sortedItems xs]

lemma mapValues_sorted_mapValues : (members : List (String × Json)) →
    mapValues sorted (mapValues sorted members) = mapValues sorted members
  | [] => rfl
  | (k, v) :: ms => congrArg₂ List.cons (congrArg (Prod.mk k) (sorted_sorted v))
      (mapValues_sorted_mapValues ms)

end

lemma sorted_array_iff {items : List Json} :
    sorted (array items) = array items ↔ ∀ x ∈ items, x.sorted = x := by
  have hmap := List.map_inj_left (f := sorted) (g := id) (l := items)
  rw [List.map_id] at hmap
  rw [sorted, array.injEq, sortedItems_eq_map]
  exact hmap

/-- The members of a sorted object are those of a map, in which every tree is sorted. -/
lemma sorted_object_iff {members : List (String × Json)} :
    sorted (object members) = object members ↔
      (SortedMap.ofList members).toList = members ∧ ∀ m ∈ members, m.2.sorted = m.2 := by
  have hvalues : mapValues sorted members = members ↔ ∀ m ∈ members, m.2.sorted = m.2 := by
    have hmap := List.map_inj_left (f := fun m : String × Json => (m.1, m.2.sorted)) (g := id)
      (l := members)
    rw [List.map_id] at hmap
    rw [mapValues, hmap]
    exact ⟨fun h m hm => congrArg Prod.snd (h m hm), fun h m hm => Prod.ext rfl (h m hm)⟩
  rw [sorted, object.injEq, sortedMembers_nil, ← hvalues]
  constructor
  · intro h
    have hlist : (SortedMap.ofList members).toList = members := by
      rw [← h, SortedMap.ofList_toList]
    refine ⟨hlist, ?_⟩
    rw [SortedMap.toList_ofList_mapValues, hlist] at h
    exact h
  · rintro ⟨hlist, hsame⟩
    rw [hsame, hlist]

end ConfigRegistry.Json
