/-
# Further facts on finite maps

What a filtered map holds, how many entries a map has after an insertion, and what becomes of a
list of entries that is read into a map: nothing is lost exactly if no key comes twice
(`SortedMap.size_ofList_eq_length_iff`).  The list of a map is what any arrangement of its entries
becomes when it is sorted by the keys (`SortedMap.sortByKey_of_perm`).
-/
import Mathlib.Tactic.Common
import Mathlib.Data.List.Induction
import Mathlib.Data.List.Nodup
import ConfigRegistry.SortedMap

namespace ConfigRegistry

lemma length_insertEntry {κ α : Type} [Ord κ] (k : κ) (v : α) (l : List (κ × α)) :
    (insertEntry k v l).length = if (findEntry k l).isSome then l.length else l.length + 1 := by
  induction l with
  | nil => rfl
  | cons e l ih =>
    obtain ⟨k', v'⟩ := e
    rw [insertEntry, findEntry]
    cases compare k k' with
    | lt => simp
    | eq => simp
    | gt =>
      simp only [List.length_cons, ih]
      split <;> rfl

namespace SortedMap

variable {κ α : Type} [Ord κ]

@[simp] lemma toList_empty : (∅ : SortedMap κ α).toList = [] := rfl

lemma size_eq_length_values (m : SortedMap κ α) : m.size = m.values.length := by
  simp [size, values]

variable [Std.TransOrd κ] [Std.LawfulEqOrd κ]

/-- A filtered map holds a value exactly if the map holds it and it passes the test. -/
lemma find?_filter (p : κ → α → Bool) (m : SortedMap κ α) (k : κ) :
    (m.filter p).find? k = (m.find? k).filter (p k) := by
  ext v
  rw [Option.filter_eq_some_iff, ← mem_toList_iff, ← mem_toList_iff]
  simp [filter]

lemma mem_values_iff {m : SortedMap κ α} {v : α} :
    v ∈ m.values ↔ ∃ k, m.find? k = some v := by
  constructor
  · intro h
    obtain ⟨⟨k, v'⟩, hmem, rfl⟩ := List.mem_map.mp h
    exact ⟨k, (mem_toList_iff m k v').mp hmem⟩
  · rintro ⟨k, h⟩
    exact List.mem_map.mpr ⟨(k, v), (mem_toList_iff m k v).mpr h, rfl⟩

/-- A new key makes the map larger by one. -/
lemma size_insert (m : SortedMap κ α) (k : κ) (v : α) :
    (m.insert k v).size = if (m.find? k).isSome then m.size else m.size + 1 :=
  length_insertEntry k v m.toList

/-! ## Reading a list into a map -/

@[simp] lemma ofList_nil : (ofList [] : SortedMap κ α) = ∅ := rfl

lemma ofList_append_singleton (l : List (κ × α)) (k : κ) (v : α) :
    ofList (l ++ [(k, v)]) = (ofList l).insert k v := by
  simp [ofList]

lemma size_ofList_le (l : List (κ × α)) : (ofList l).size ≤ l.length := by
  induction l using List.reverseRecOn with
  | nil => simp [size]
  | append_singleton l e ih =>
    rw [ofList_append_singleton, size_insert, List.length_append, List.length_singleton]
    split <;> omega

variable [DecidableEq κ]

lemma find?_ofList_eq_none_iff {l : List (κ × α)} {k : κ} :
    (ofList l).find? k = none ↔ k ∉ l.map Prod.fst := by
  induction l using List.reverseRecOn with
  | nil => simp
  | append_singleton l e ih =>
    obtain ⟨k', v⟩ := e
    rw [ofList_append_singleton, find?_insert]
    by_cases hk : k = k'
    · simp [hk]
    · simpa [hk] using ih

/-- If no key comes twice, the map holds what the list says. -/
lemma find?_ofList_of_mem {l : List (κ × α)} (hnd : (l.map Prod.fst).Nodup) {k : κ} {v : α}
    (hmem : (k, v) ∈ l) : (ofList l).find? k = some v := by
  induction l using List.reverseRecOn with
  | nil => simp at hmem
  | append_singleton l e ih =>
    obtain ⟨k', v'⟩ := e
    rw [List.map_append, List.nodup_append] at hnd
    obtain ⟨hnd, -, hdisj⟩ := hnd
    rw [ofList_append_singleton, find?_insert]
    -- the last entry has a key of its own, so it does not hide the entry looked for
    rcases List.mem_append.mp hmem with hmem | hmem
    · have hne : k ≠ k' := hdisj k (List.mem_map_of_mem hmem) k' (by simp)
      rw [if_neg hne, ih hnd hmem]
    · obtain ⟨rfl, rfl⟩ : k = k' ∧ v = v' := by simpa using hmem
      rw [if_pos rfl]

/-- Of entries with the same key the last one counts. -/
lemma find?_ofList_append_cons {l more : List (κ × α)} {k : κ} (v : α)
    (h : k ∉ more.map Prod.fst) : (ofList (l ++ (k, v) :: more)).find? k = some v := by
  induction more using List.reverseRecOn with
  | nil => rw [ofList_append_singleton, find?_insert, if_pos rfl]
  | append_singleton more e ih =>
    obtain ⟨k', v'⟩ := e
    rw [List.map_append, List.mem_append, not_or] at h
    have hne : k ≠ k' := by simpa using h.2
    rw [← List.cons_append, ← List.append_assoc, ofList_append_singleton, find?_insert,
      if_neg hne, ih h.1]

/-- The map has as many entries as the list exactly if no key comes twice. -/
lemma size_ofList_eq_length_iff (l : List (κ × α)) :
    (ofList l).size = l.length ↔ (l.map Prod.fst).Nodup := by
  induction l using List.reverseRecOn with
  | nil => simp [size]
  | append_singleton l e ih =>
    obtain ⟨k, v⟩ := e
    have hle := size_ofList_le l
    rw [ofList_append_singleton, size_insert, List.length_append, List.length_singleton,
      List.map_append, List.nodup_append_comm]
    -- a key that is there already does not make the map larger, and it comes twice in the list
    cases hfind : (ofList l).find? k with
    | some v' =>
      have hmem : k ∈ l.map Prod.fst := by
        by_contra hk
        rw [find?_ofList_eq_none_iff.mpr hk] at hfind
        cases hfind
      simp only [Option.isSome_some, if_true, List.map_cons, List.map_nil, List.cons_append,
        List.nil_append, List.nodup_cons, hmem, not_true, false_and, iff_false]
      omega
    | none =>
      have hk : k ∉ l.map Prod.fst := find?_ofList_eq_none_iff.mp hfind
      simp only [Option.isSome_none, Bool.false_eq_true, if_false, List.map_cons, List.map_nil,
        List.cons_append, List.nil_append, List.nodup_cons, hk, not_false_eq_true, true_and,
        ← ih]
      omega

/-! ## The list of a map -/

omit [Std.TransOrd κ] [DecidableEq κ] in
lemma nodup_keys (m : SortedMap κ α) : (m.toList.map Prod.fst).Nodup := by
  refine List.pairwise_map.mpr (m.ascending.imp fun {a b} hlt heq => ?_)
  simp [heq, Std.ReflCmp.compare_self] at hlt

/-- A map is read from its own list. -/
lemma ofList_toList (m : SortedMap κ α) : ofList m.toList = m := by
  refine ext_find fun k => ?_
  cases hk : m.find? k with
  | some v => exact find?_ofList_of_mem m.nodup_keys ((mem_toList_iff m k v).mpr hk)
  | none =>
    rw [find?_ofList_eq_none_iff, List.mem_map]
    rintro ⟨⟨k', v⟩, hmem, rfl⟩
    rw [(mem_toList_iff m k' v).mp hmem] at hk
    cases hk

/-- Sorts by the keys. -/
def sortByKey (l : List (κ × α)) : List (κ × α) := l.mergeSort fun a b => (compare a.1 b.1).isLE

omit [DecidableEq κ] in
lemma sortByKey_of_perm {m : SortedMap κ α} {l : List (κ × α)} (h : l.Perm m.toList) :
    sortByKey l = m.toList := by
  have htotal : ∀ a b : κ × α, ((compare a.1 b.1).isLE || (compare b.1 a.1).isLE) = true := by
    intro a b
    have hswap : compare b.1 a.1 = (compare a.1 b.1).swap := Std.OrientedCmp.eq_swap
    rw [hswap]
    cases compare a.1 b.1 <;> rfl
  have hsorted : (sortByKey l).Pairwise fun a b => (compare a.1 b.1).isLE = true :=
    List.pairwise_mergeSort (fun _ _ _ => Std.TransCmp.isLE_trans) htotal l
  have hlist : m.toList.Pairwise fun a b => (compare a.1 b.1).isLE = true :=
    m.ascending.imp fun hlt => by rw [hlt]; rfl
  have hperm : (sortByKey l).Perm m.toList := (List.mergeSort_perm l _).trans h
  refine List.Perm.eq_of_pairwise (fun a b ha hb hab hba => ?_) hsorted hlist hperm
  -- entries of which neither comes before the other have one key, and so they are one entry
  have hkey : a.1 = b.1 := Std.LawfulEqCmp.eq_of_compare (Std.OrientedCmp.isLE_antisymm hab hba)
  exact List.inj_on_of_nodup_map m.nodup_keys (hperm.mem_iff.mp ha) hb hkey

section Lookup

variable [BEq κ] [LawfulBEq κ]

/-- If no key comes twice, what a look-up finds is what the list says. -/
lemma lookup_eq_some_iff_mem {l : List (κ × α)} (hnd : (l.map Prod.fst).Nodup) {k : κ} {v : α} :
    l.lookup k = some v ↔ (k, v) ∈ l := by
  induction l with
  | nil => simp
  | cons e l ih =>
    obtain ⟨k', v'⟩ := e
    obtain ⟨hk', hnd⟩ := List.nodup_cons.mp hnd
    rw [List.lookup_cons, List.mem_cons]
    by_cases hk : k = k'
    · subst hk
      have hnot : (k, v) ∉ l := fun h => hk' (List.mem_map.mpr ⟨(k, v), h, rfl⟩)
      simp [hnot, eq_comm]
    · simp [hk, beq_eq_false_iff_ne.mpr hk, ih hnd]

lemma lookup_toList (m : SortedMap κ α) (k : κ) : m.toList.lookup k = m.find? k := by
  ext v
  rw [lookup_eq_some_iff_mem m.nodup_keys, mem_toList_iff]

/-- If no key comes twice, the map and the list hold the same. -/
lemma find?_ofList_eq_lookup {l : List (κ × α)} (hnd : (l.map Prod.fst).Nodup) (k : κ) :
    (ofList l).find? k = l.lookup k := by
  cases hk : l.lookup k with
  | some v => exact find?_ofList_of_mem hnd ((lookup_eq_some_iff_mem hnd).mp hk)
  | none =>
    rw [find?_ofList_eq_none_iff, List.mem_map]
    rintro ⟨⟨k', v⟩, hmem, rfl⟩
    rw [(lookup_eq_some_iff_mem hnd).mpr hmem] at hk
    cases hk

end Lookup

end SortedMap

/-! ## Changing the values -/

section Values

variable {κ α β : Type} [Ord κ]

/-- The entries with every value changed. -/
def mapValues (f : α → β) (l : List (κ × α)) : List (κ × β) := l.map fun e => (e.1, f e.2)

omit [Ord κ] in
@[simp] lemma map_fst_mapValues (f : α → β) (l : List (κ × α)) :
    (mapValues f l).map Prod.fst = l.map Prod.fst := by
  simp [mapValues]

lemma insertEntry_mapValues (f : α → β) (k : κ) (v : α) (l : List (κ × α)) :
    insertEntry k (f v) (mapValues f l) = mapValues f (insertEntry k v l) := by
  induction l with
  | nil => rfl
  | cons e l ih =>
    obtain ⟨k', v'⟩ := e
    show insertEntry k (f v) ((k', f v') :: mapValues f l) = mapValues f (insertEntry k v _)
    rw [insertEntry, insertEntry]
    cases compare k k' with
    | lt => rfl
    | eq => rfl
    | gt =>
      show (k', f v') :: insertEntry k (f v) (mapValues f l) = _
      rw [ih]
      rfl

omit [Ord κ] in
lemma lookup_mapValues [BEq κ] (f : α → β) (l : List (κ × α)) (k : κ) :
    (mapValues f l).lookup k = (l.lookup k).map f := by
  induction l with
  | nil => rfl
  | cons e l ih =>
    obtain ⟨k', v⟩ := e
    show List.lookup k ((k', f v) :: mapValues f l) = _
    rw [List.lookup_cons, List.lookup_cons]
    cases k == k' with
    | true => rfl
    | false => exact ih

lemma ascending_mapValues (f : α → β) {l : List (κ × α)} (h : Ascending l) :
    Ascending (mapValues f l) :=
  List.pairwise_map.mpr h

lemma findEntry_mapValues (f : α → β) (l : List (κ × α)) (k : κ) :
    findEntry k (mapValues f l) = (findEntry k l).map f := by
  induction l with
  | nil => rfl
  | cons e l ih =>
    obtain ⟨k', v⟩ := e
    show findEntry k ((k', f v) :: mapValues f l) = _
    rw [findEntry, findEntry]
    cases compare k k' with
    | lt => rfl
    | eq => rfl
    | gt => exact ih

variable [Std.TransOrd κ] [Std.LawfulEqOrd κ]

/-- Of two maps the lists are the same, up to what a function does not see of the values, exactly
if the maps hold the same for each key, up to that. -/
lemma SortedMap.mapValues_toList_eq_iff {f : α → β} {m m' : SortedMap κ α} :
    mapValues f m.toList = mapValues f m'.toList ↔
      ∀ k, (m.find? k).map f = (m'.find? k).map f := by
  simp only [find?, ← findEntry_mapValues]
  constructor
  · intro h k
    rw [h]
  · exact eq_of_findEntry_eq (ascending_mapValues f m.ascending)
      (ascending_mapValues f m'.ascending)

/-- Reading a list into a map does not look at the values. -/
lemma SortedMap.toList_ofList_mapValues (f : α → β) (l : List (κ × α)) :
    (ofList (mapValues f l)).toList = mapValues f (ofList l).toList := by
  induction l using List.reverseRecOn with
  | nil => rfl
  | append_singleton l e ih =>
    have happend : mapValues f (l ++ [e]) = mapValues f l ++ [(e.1, f e.2)] := by
      simp [mapValues]
    rw [happend, ofList_append_singleton, ofList_append_singleton]
    show insertEntry e.1 (f e.2) (ofList (mapValues f l)).toList =
      mapValues f (insertEntry e.1 e.2 (ofList l).toList)
    rw [ih, insertEntry_mapValues]

end Values

end ConfigRegistry
