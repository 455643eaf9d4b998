/-
# Finite maps with a canonical form

A finite map is a list of entries in strictly ascending key order.  Each map then has exactly
one representation, so two maps are equal as soon as they agree on every key: equality of
labels, of generic trees and of stored tables is plain equality of Lean values.

The operations come in two layers.  `insertEntry`, `eraseEntry` and `findEntry` work on bare
lists of entries, which nested types such as `Json` hold directly; `SortedMap` bundles such a
list with the proof that it ascends.  The main statements are `find?_insert`, `find?_erase` and
`SortedMap.ext_find`.
-/

namespace ConfigRegistry

variable {κ α β : Type} [Ord κ]

/-- Keys ascend strictly from entry to entry. -/
def Ascending (l : List (κ × α)) : Prop :=
  l.Pairwise fun a b => compare a.1 b.1 = .lt

instance (l : List (κ × α)) : Decidable (Ascending l) :=
  inferInstanceAs (Decidable (l.Pairwise _))

/-- Puts a value at its place in an ascending list, over any value already held for the key. -/
def insertEntry (k : κ) (v : α) : List (κ × α) → List (κ × α)
  | [] => [(k, v)]
  | (k', v') :: rest =>
    match compare k k' with
    | .lt => (k, v) :: (k', v') :: rest
    | .eq => (k, v) :: rest
    | .gt => (k', v') :: insertEntry k v rest

/-- Removes the entry of a key, if there is one. -/
def eraseEntry (k : κ) : List (κ × α) → List (κ × α)
  | [] => []
  | (k', v') :: rest =>
    match compare k k' with
    | .lt => (k', v') :: rest
    | .eq => rest
    | .gt => (k', v') :: eraseEntry k rest

/-- The value held for a key. -/
def findEntry (k : κ) : List (κ × α) → Option α
  | [] => none
  | (k', v') :: rest =>
    match compare k k' with
    | .lt => none
    | .eq => some v'
    | .gt => findEntry k rest

section Lists

theorem ascending_nil : Ascending ([] : List (κ × α)) := .nil

theorem Ascending.tail {e : κ × α} {l : List (κ × α)} (h : Ascending (e :: l)) : Ascending l :=
  List.Pairwise.of_cons h

theorem ascending_cons {e : κ × α} {l : List (κ × α)} :
    Ascending (e :: l) ↔ (∀ a ∈ l, compare e.1 a.1 = .lt) ∧ Ascending l :=
  List.pairwise_cons

theorem mem_insertEntry {k : κ} {v : α} {e : κ × α} {l : List (κ × α)}
    (h : e ∈ insertEntry k v l) : e = (k, v) ∨ e ∈ l := by
  induction l with
  | nil => simpa [insertEntry] using h
  | cons hd tl ih =>
    obtain ⟨k', v'⟩ := hd
    rw [insertEntry] at h
    split at h <;> simp only [List.mem_cons] at h ⊢
    · exact h
    · exact h.imp id .inr
    · rcases h with h | h
      · exact .inr (.inl h)
      · exact (ih h).imp id .inr

theorem eraseEntry_sublist (k : κ) (l : List (κ × α)) : (eraseEntry k l).Sublist l := by
  induction l with
  | nil => exact List.Sublist.refl _
  | cons hd tl ih =>
    obtain ⟨k', v'⟩ := hd
    rw [eraseEntry]
    split
    · exact List.Sublist.refl _
    · exact List.sublist_cons_self _ _
    · exact ih.cons_cons _

theorem ascending_eraseEntry (k : κ) {l : List (κ × α)} (h : Ascending l) :
    Ascending (eraseEntry k l) :=
  List.Pairwise.sublist (eraseEntry_sublist k l) h

variable [Std.TransOrd κ]

theorem ascending_insertEntry [Std.LawfulEqOrd κ] (k : κ) (v : α) {l : List (κ × α)}
    (h : Ascending l) : Ascending (insertEntry k v l) := by
  induction l with
  | nil => exact List.pairwise_singleton _ _
  | cons hd tl ih =>
    obtain ⟨k', v'⟩ := hd
    obtain ⟨hlt, htl⟩ := ascending_cons.1 h
    rw [insertEntry]
    split
    · next hk =>
      refine ascending_cons.2 ⟨fun a ha => ?_, h⟩
      rcases List.mem_cons.1 ha with rfl | ha
      · exact hk
      · exact Std.TransCmp.lt_trans hk (hlt a ha)
    · next hk =>
      cases Std.LawfulEqCmp.eq_of_compare hk
      exact ascending_cons.2 ⟨hlt, htl⟩
    · next hk =>
      refine ascending_cons.2 ⟨fun a ha => ?_, ih htl⟩
      rcases mem_insertEntry ha with rfl | ha
      · exact Std.OrientedCmp.lt_of_gt hk
      · exact hlt a ha

omit [Std.TransOrd κ] in
/-- A key below every key of the list is not held. -/
theorem findEntry_eq_none_of_forall_lt {k : κ} {l : List (κ × α)}
    (h : ∀ a ∈ l, compare k a.1 = .lt) : findEntry k l = none := by
  cases l with
  | nil => rfl
  | cons hd tl => simp [findEntry, h hd (List.mem_cons_self ..)]

theorem findEntry_insertEntry_self (k : κ) (v : α) (l : List (κ × α)) :
    findEntry k (insertEntry k v l) = some v := by
  induction l with
  | nil => simp [insertEntry, findEntry, Std.ReflCmp.compare_self]
  | cons hd tl ih =>
    obtain ⟨k', v'⟩ := hd
    rw [insertEntry]
    split
    · simp [findEntry, Std.ReflCmp.compare_self]
    · simp [findEntry, Std.ReflCmp.compare_self]
    · next hk => simp [findEntry, hk, ih]

variable [Std.LawfulEqOrd κ]

theorem findEntry_insertEntry_of_ne {k k' : κ} (v : α) (l : List (κ × α)) (hne : k' ≠ k) :
    findEntry k' (insertEntry k v l) = findEntry k' l := by
  have hcmp : compare k' k ≠ .eq := fun h => hne (Std.LawfulEqCmp.eq_of_compare h)
  induction l with
  | nil =>
    simp only [insertEntry, findEntry]
    split <;> simp_all
  | cons hd tl ih =>
    obtain ⟨a, x⟩ := hd
    rw [insertEntry]
    split
    · next hk =>
      simp only [findEntry]
      cases h : compare k' k with
      | eq => exact absurd h hcmp
      | gt => rfl
      | lt => simp [Std.TransCmp.lt_trans h hk]
    · next hk =>
      cases Std.LawfulEqCmp.eq_of_compare hk
      simp only [findEntry]
      split <;> simp_all
    · simp only [findEntry]
      split <;> simp_all

theorem findEntry_insertEntry (k k' : κ) (v : α) (l : List (κ × α)) [DecidableEq κ] :
    findEntry k' (insertEntry k v l) = if k' = k then some v else findEntry k' l := by
  split
  · next h => subst h; exact findEntry_insertEntry_self _ _ _
  · next h => exact findEntry_insertEntry_of_ne v l h

theorem findEntry_eraseEntry (k k' : κ) {l : List (κ × α)} [DecidableEq κ] (h : Ascending l) :
    findEntry k' (eraseEntry k l) = if k' = k then none else findEntry k' l := by
  induction l with
  | nil => simp [eraseEntry, findEntry]
  | cons hd tl ih =>
    obtain ⟨a, x⟩ := hd
    obtain ⟨hlt, htl⟩ := ascending_cons.1 h
    rw [eraseEntry]
    split
    · next hk =>
      split
      · next he =>
        subst he
        exact findEntry_eq_none_of_forall_lt fun b hb => by
          rcases List.mem_cons.1 hb with rfl | hb
          · exact hk
          · exact Std.TransCmp.lt_trans hk (hlt b hb)
      · rfl
    · next hk =>
      cases Std.LawfulEqCmp.eq_of_compare hk
      split
      · next he => subst he; exact findEntry_eq_none_of_forall_lt hlt
      · next he =>
        simp only [findEntry]
        cases hc : compare k' k with
        | eq => exact absurd (Std.LawfulEqCmp.eq_of_compare hc) he
        | gt => rfl
        | lt =>
          exact findEntry_eq_none_of_forall_lt fun b hb => Std.TransCmp.lt_trans hc (hlt b hb)
    · next hk =>
      simp only [findEntry, ih htl]
      split <;> split <;> simp_all

theorem findEntry_eq_some_iff {k : κ} {v : α} {l : List (κ × α)} (h : Ascending l) :
    findEntry k l = some v ↔ (k, v) ∈ l := by
  induction l with
  | nil => simp [findEntry]
  | cons hd tl ih =>
    obtain ⟨a, x⟩ := hd
    obtain ⟨hlt, htl⟩ := ascending_cons.1 h
    have below : compare k a = .lt → (k, v) ∉ tl := fun hk hm => by
      have h1 := Std.TransCmp.lt_trans hk (hlt _ hm)
      simp [Std.ReflCmp.compare_self] at h1
    simp only [findEntry]
    cases hk : compare k a with
    | lt =>
      have hne : k ≠ a := fun e => by simp [e, Std.ReflCmp.compare_self] at hk
      simp [hne, below hk]
    | eq =>
      cases Std.LawfulEqCmp.eq_of_compare hk
      have : (k, v) ∉ tl := fun hm => by
        have h1 := hlt _ hm
        simp [Std.ReflCmp.compare_self] at h1
      simp [this, eq_comm]
    | gt =>
      have hne : k ≠ a := fun e => by simp [e, Std.ReflCmp.compare_self] at hk
      simp [ih htl, hne]

/-- Ascending lists that agree on every key are equal. -/
theorem eq_of_findEntry_eq {l₁ l₂ : List (κ × α)} (h₁ : Ascending l₁) (h₂ : Ascending l₂)
    (h : ∀ k, findEntry k l₁ = findEntry k l₂) : l₁ = l₂ := by
  induction l₁ generalizing l₂ with
  | nil =>
    cases l₂ with
    | nil => rfl
    | cons hd tl => simpa [findEntry, Std.ReflCmp.compare_self] using h hd.1
  | cons e₁ t₁ ih =>
    cases l₂ with
    | nil => simpa [findEntry, Std.ReflCmp.compare_self] using (h e₁.1).symm
    | cons e₂ t₂ =>
      obtain ⟨a₁, x₁⟩ := e₁
      obtain ⟨a₂, x₂⟩ := e₂
      obtain ⟨hlt₁, ht₁⟩ := ascending_cons.1 h₁
      obtain ⟨hlt₂, ht₂⟩ := ascending_cons.1 h₂
      have k₁ := h a₁
      have k₂ := h a₂
      simp only [findEntry, Std.ReflCmp.compare_self] at k₁ k₂
      cases hc : compare a₁ a₂ with
      | lt => simp [hc] at k₁
      | gt => simp [Std.OrientedCmp.lt_of_gt hc] at k₂
      | eq =>
        cases Std.LawfulEqCmp.eq_of_compare hc
        have hx : x₁ = x₂ := by simpa [Std.ReflCmp.compare_self] using k₁
        subst hx
        congr 1
        refine ih ht₁ ht₂ fun k => ?_
        have hk := h k
        simp only [findEntry] at hk
        cases hc' : compare k a₁ with
        | gt => simpa [hc'] using hk
        | eq =>
          cases Std.LawfulEqCmp.eq_of_compare hc'
          rw [findEntry_eq_none_of_forall_lt hlt₁, findEntry_eq_none_of_forall_lt hlt₂]
        | lt =>
          rw [findEntry_eq_none_of_forall_lt fun b hb => Std.TransCmp.lt_trans hc' (hlt₁ b hb),
            findEntry_eq_none_of_forall_lt fun b hb => Std.TransCmp.lt_trans hc' (hlt₂ b hb)]

end Lists

/-- A finite map: entries in strictly ascending key order. -/
structure SortedMap (κ α : Type) [Ord κ] where
  /-- The entries, in ascending key order. -/
  toList : List (κ × α)
  /-- No key is repeated and the order is that of the keys. -/
  ascending : Ascending toList

namespace SortedMap

theorem ext_toList {m₁ m₂ : SortedMap κ α} (h : m₁.toList = m₂.toList) : m₁ = m₂ := by
  cases m₁; cases m₂; simp_all

instance [DecidableEq κ] [DecidableEq α] : DecidableEq (SortedMap κ α) := fun m₁ m₂ =>
  if h : m₁.toList = m₂.toList then .isTrue (ext_toList h)
  else .isFalse fun e => h (e ▸ rfl)

/-- The map without entries. -/
def empty : SortedMap κ α := ⟨[], ascending_nil⟩

instance : EmptyCollection (SortedMap κ α) := ⟨empty⟩

instance : Inhabited (SortedMap κ α) := ⟨empty⟩

/-- The number of entries. -/
def size (m : SortedMap κ α) : Nat := m.toList.length

/-- Whether the map has no entries. -/
def isEmpty (m : SortedMap κ α) : Bool := m.toList.isEmpty

/-- The value held for a key. -/
def find? (m : SortedMap κ α) (k : κ) : Option α := findEntry k m.toList

/-- Whether a value is held for a key. -/
def contains (m : SortedMap κ α) (k : κ) : Bool := (m.find? k).isSome

/-- The keys, ascending. -/
def keys (m : SortedMap κ α) : List κ := m.toList.map Prod.fst

/-- The values, in the order of their keys. -/
def values (m : SortedMap κ α) : List α := m.toList.map Prod.snd

/-- Keeps the entries that pass a test. -/
def filter (p : κ → α → Bool) (m : SortedMap κ α) : SortedMap κ α where
  toList := m.toList.filter fun e => p e.1 e.2
  ascending := List.Pairwise.filter _ m.ascending

/-- Removes the entry of a key, if there is one. -/
def erase (m : SortedMap κ α) (k : κ) : SortedMap κ α :=
  ⟨eraseEntry k m.toList, ascending_eraseEntry k m.ascending⟩

@[simp] theorem find?_empty (k : κ) : (∅ : SortedMap κ α).find? k = none := rfl

variable [Std.TransOrd κ] [Std.LawfulEqOrd κ]

/-- Holds a value for a key, in place of any earlier one. -/
def insert (m : SortedMap κ α) (k : κ) (v : α) : SortedMap κ α :=
  ⟨insertEntry k v m.toList, ascending_insertEntry k v m.ascending⟩

/-- The map of a list of entries, read from left to right: of a repeated key the last value
counts. -/
def ofList (l : List (κ × α)) : SortedMap κ α :=
  l.foldl (fun m e => m.insert e.1 e.2) empty

theorem find?_insert [DecidableEq κ] (m : SortedMap κ α) (k k' : κ) (v : α) :
    (m.insert k v).find? k' = if k' = k then some v else m.find? k' :=
  findEntry_insertEntry k k' v m.toList

theorem find?_erase [DecidableEq κ] (m : SortedMap κ α) (k k' : κ) :
    (m.erase k).find? k' = if k' = k then none else m.find? k' :=
  findEntry_eraseEntry k k' m.ascending

theorem mem_toList_iff (m : SortedMap κ α) (k : κ) (v : α) :
    (k, v) ∈ m.toList ↔ m.find? k = some v :=
  (findEntry_eq_some_iff m.ascending).symm

/-- Maps that agree on every key are equal. -/
theorem ext_find {m₁ m₂ : SortedMap κ α} (h : ∀ k, m₁.find? k = m₂.find? k) : m₁ = m₂ :=
  ext_toList (eq_of_findEntry_eq m₁.ascending m₂.ascending h)

section

variable [DecidableEq κ] {m : SortedMap κ α} {k : κ} {v : α}

theorem insert_of_find?_eq_some (h : m.find? k = some v) : m.insert k v = m := by
  refine ext_find fun k' => ?_
  rw [find?_insert]
  split
  · next hk => rw [hk, h]
  · rfl

theorem erase_of_find?_eq_none (h : m.find? k = none) : m.erase k = m := by
  refine ext_find fun k' => ?_
  rw [find?_erase]
  split
  · next hk => rw [hk, h]
  · rfl

@[simp] theorem insert_insert (m : SortedMap κ α) (k : κ) (v v' : α) :
    (m.insert k v).insert k v' = m.insert k v' := by
  refine ext_find fun k' => ?_
  simp only [find?_insert]
  split <;> rfl

end

end SortedMap

/-- A finite map from texts to texts, ordered by the code points of the keys. -/
abbrev TextMap := SortedMap String String

end ConfigRegistry
