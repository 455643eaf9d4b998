/-
# The contents of a store as one flat map

The simplest store there could be is a single finite map from identities to entries.  This file
says what such a store answers, and shows two things about it that hold however it is used: every
entry is held under its own identity, and every entry held is one that the descriptor accepts.
-/
import ConfigRegistry.Proofs.Model.Validation
import ConfigRegistry.Proofs.SortedMap
import ConfigRegistry.Proofs.Store.Memory
import ConfigRegistry.Proofs.Store.Run

namespace ConfigRegistry

namespace Identity

/-- Identities are ordered by type, within a type by namespace, and then by name. -/
instance : Ord Identity where
  compare := compareLex (compareOn Identity.typeName) (compareOn Identity.slot)

instance : Std.TransOrd Identity := inferInstanceAs (Std.TransCmp (compareLex _ _))

instance : Std.LawfulEqOrd Identity where
  eq_of_compare {a b} h := by
    obtain ⟨h₁, h₂⟩ := compareLex_eq_eq.mp h
    have typeName : a.typeName = b.typeName := Std.LawfulEqOrd.eq_of_compare h₁
    have slot : a.slot = b.slot := Std.LawfulEqOrd.eq_of_compare h₂
    exact eq_iff.mpr ⟨typeName, slot⟩

/-- The identity of an entry in the table of a type. -/
def ofSlot (typeName : String) (slot : Slot) : Identity := ⟨typeName, slot.space, slot.name⟩

lemma compare_eq (i j : Identity) :
    compare i j = (compare i.typeName j.typeName).then (compare i.slot j.slot) := rfl

/-- Within a type, identities are ordered as their slots are. -/
lemma compare_of_typeName_eq {i j : Identity} (h : i.typeName = j.typeName) :
    compare i j = compare i.slot j.slot := by
  simp [compare_eq, h, Std.ReflCmp.compare_self]

/-- A type that comes earlier has all its identities earlier. -/
lemma compare_of_typeName_lt {i j : Identity} (h : compare i.typeName j.typeName = .lt) :
    compare i j = .lt := by
  simp [compare_eq, h]

end Identity

/-- What a store holds: a flat map from identities to entries. -/
abbrev Contents : Type := SortedMap Identity Entry

namespace Contents

variable (d : Descriptor) (m : Contents)

/-- The entries of a type in a namespace; the empty namespace stands for all. -/
def list (typeName space : String) : Except StoreError (List Entry) :=
  match d.schemaOfType? typeName with
  | none => .error (.model (.unknownType typeName))
  | some _ =>
    .ok (m.filter fun i _ => i.typeName == typeName && (space.isEmpty || i.space == space)).values

/-- Maps the identity of a valid entry to it, unless the identity is mapped already. -/
def create (revision : String) (e : Entry) : Except StoreError Unit × Contents :=
  match (d.validate e).outcome, m.find? e.identity with
  | .error fault, _ => (.error (.model fault), m)
  | .ok _, some _ => (.error (.alreadyExists e.identity), m)
  | .ok _, none => (.ok (), m.insert e.identity (e.withRevision revision))

/-- Maps the identity of a valid entry to it, if it is mapped to an entry of the same revision. -/
def update (revision : String) (e : Entry) : Except StoreError Unit × Contents :=
  match (d.validate e).outcome, m.find? e.identity with
  | .error fault, _ => (.error (.model fault), m)
  | .ok _, none => (.error (.notFound e.identity), m)
  | .ok _, some current =>
    if current.metadata.revision = e.metadata.revision then
      (.ok (), m.insert e.identity (e.withRevision revision))
    else (.error (.conflict e.identity current.metadata.revision e.metadata.revision), m)

/-- Takes an identity of a known type out of the map. -/
def delete (i : Identity) : Except StoreError Unit × Contents :=
  match d.schemaOfType? i.typeName, m.find? i with
  | none, _ => (.error (.model (.unknownType i.typeName)), m)
  | some _, none => (.error (.notFound i), m)
  | some _, some _ => (.ok (), m.erase i)

/-- The operations of a flat map as a store. -/
def operations : Operations Contents where
  create := create d
  update := update d
  delete := delete d
  get? := SortedMap.find?
  list := list d
  size := SortedMap.size

variable {d m}

/-! ## What a change does -/

lemma update_eq_ok {revision : String} {e : Entry} {m' : Contents}
    (h : m.update d revision e = (.ok (), m')) :
    d.Accepts e ∧
      (∃ current, m.find? e.identity = some current ∧
        current.metadata.revision = e.metadata.revision) ∧
      m' = m.insert e.identity (e.withRevision revision) := by
  rw [update] at h
  split at h
  · cases h
  · cases h
  · next s current hs hsome =>
    split at h
    · next hrev =>
      cases h
      exact ⟨⟨s, hs⟩, ⟨current, hsome, hrev⟩, rfl⟩
    · cases h

/-- A step leaves the map as it is, or maps the identity of an accepted entry to it, or takes an
identity out; which of the three, its exchange tells. -/
lemma step_cases (m : Contents) (c : Call) :
    let x : Exchange := ⟨c, ((operations d).step m c).1⟩
    let m' := ((operations d).step m c).2
    (x.written? = none ∧ x.removed? = none ∧ m' = m) ∨
      (∃ e, x.written? = some (e.identity, e.metadata.revision) ∧ x.removed? = none ∧
        d.Accepts e ∧ m' = m.insert e.identity e) ∨
      ∃ i, x.written? = none ∧ x.removed? = some i ∧ m' = m.erase i := by
  cases c with
  | create revision e =>
    have h : (operations d).create m revision e = m.create d revision e := rfl
    rw [create] at h
    split at h
    · rw [Operations.step_create_error h]
      exact Or.inl ⟨rfl, rfl, rfl⟩
    · rw [Operations.step_create_error h]
      exact Or.inl ⟨rfl, rfl, rfl⟩
    · next s hs _ =>
      rw [Operations.step_create_ok h]
      exact Or.inr (Or.inl ⟨e.withRevision revision, rfl, rfl, ⟨s, hs⟩, rfl⟩)
  | update revision e =>
    have h : (operations d).update m revision e = m.update d revision e := rfl
    rw [update] at h
    split at h
    · rw [Operations.step_update_error h]
      exact Or.inl ⟨rfl, rfl, rfl⟩
    · rw [Operations.step_update_error h]
      exact Or.inl ⟨rfl, rfl, rfl⟩
    · next s current hs _ =>
      split at h
      · rw [Operations.step_update_ok h]
        exact Or.inr (Or.inl ⟨e.withRevision revision, rfl, rfl, ⟨s, hs⟩, rfl⟩)
      · rw [Operations.step_update_error h]
        exact Or.inl ⟨rfl, rfl, rfl⟩
  | delete i =>
    have h : (operations d).delete m i = m.delete d i := rfl
    rw [delete] at h
    split at h
    · rw [Operations.step_delete_error h]
      exact Or.inl ⟨rfl, rfl, rfl⟩
    · rw [Operations.step_delete_error h]
      exact Or.inl ⟨rfl, rfl, rfl⟩
    · rw [Operations.step_delete_ok h]
      exact Or.inr (Or.inr ⟨i, rfl, rfl, rfl⟩)
  | get i => exact Or.inl ⟨rfl, rfl, rfl⟩
  | list typeName space => exact Or.inl ⟨rfl, rfl, rfl⟩
  | size => exact Or.inl ⟨rfl, rfl, rfl⟩

/-! ## What every map that comes up holds -/

/-- Every entry is held under its own identity, and is one that the descriptor accepts. -/
structure Sound (d : Descriptor) (m : Contents) : Prop where
  identity_eq : ∀ {i e}, m.find? i = some e → e.identity = i
  accepts : ∀ {i e}, m.find? i = some e → d.Accepts e

lemma sound_empty : Sound d ∅ := ⟨by simp, by simp⟩

lemma Sound.insert (h : m.Sound d) {e : Entry} (he : d.Accepts e) :
    Sound d (m.insert e.identity e) where
  identity_eq := by
    intro i e' hfind
    rw [SortedMap.find?_insert] at hfind
    split at hfind
    · next hi => cases hfind; exact hi.symm
    · exact h.identity_eq hfind
  accepts := by
    intro i e' hfind
    rw [SortedMap.find?_insert] at hfind
    split at hfind
    · cases hfind; exact he
    · exact h.accepts hfind

lemma Sound.erase (h : m.Sound d) (i : Identity) : Sound d (m.erase i) where
  identity_eq := by
    intro j e hfind
    rw [SortedMap.find?_erase] at hfind
    split at hfind
    · cases hfind
    · exact h.identity_eq hfind
  accepts := by
    intro j e hfind
    rw [SortedMap.find?_erase] at hfind
    split at hfind
    · cases hfind
    · exact h.accepts hfind

lemma Sound.step (h : m.Sound d) (c : Call) : Sound d ((operations d).step m c).2 := by
  rcases step_cases (d := d) m c with ⟨-, -, hm⟩ | ⟨e, -, -, he, hm⟩ | ⟨i, -, -, hm⟩
  · rw [hm]
    exact h
  · rw [hm]
    exact h.insert he
  · rw [hm]
    exact h.erase i

lemma sound_after (calls : List Call) : Sound d ((operations d).after ∅ calls) :=
  Operations.after_induction _ _ sound_empty (fun _ c h => h.step c) calls

/-- Nothing is held of a type that the descriptor does not know. -/
lemma Sound.find?_eq_none (h : m.Sound d) {i : Identity}
    (hi : d.schemaOfType? i.typeName = none) : m.find? i = none := by
  cases hfind : m.find? i with
  | none => rfl
  | some e =>
    obtain ⟨s, hs, -⟩ := (h.accepts hfind).exists_schema
    have htype : e.metadata.typeName = i.typeName :=
      congrArg Identity.typeName (h.identity_eq hfind)
    rw [htype, hi] at hs
    cases hs

/-! ## Listing -/

/-- The entries are those that the map holds of a type in a namespace, where the empty namespace
stands for all: each of them once, in ascending order of namespace and name. -/
structure Lists (m : Contents) (typeName space : String) (entries : List Entry) : Prop where
  mem_iff : ∀ e, e ∈ entries ↔
    m.find? e.identity = some e ∧ e.metadata.typeName = typeName ∧
      (space = "" ∨ e.metadata.space = space)
  ascending : entries.Pairwise fun a b => compare a.identity.slot b.identity.slot = .lt

lemma Sound.lists_values (h : m.Sound d) (typeName space : String) :
    m.Lists typeName space
      (m.filter fun i _ => i.typeName == typeName && (space.isEmpty || i.space == space)).values
    where
  mem_iff e := by
    simp only [SortedMap.mem_values_iff, SortedMap.find?_filter, Option.filter_eq_some_iff,
      Bool.and_eq_true, Bool.or_eq_true, beq_iff_eq, String.isEmpty_iff]
    constructor
    · rintro ⟨i, hfind, htype, hspace⟩
      obtain rfl := h.identity_eq hfind
      exact ⟨hfind, htype, hspace⟩
    · rintro ⟨hfind, htype, hspace⟩
      exact ⟨e.identity, hfind, htype, hspace⟩
  ascending := by
    set shown := m.filter fun i _ => i.typeName == typeName && (space.isEmpty || i.space == space)
      with hshown
    -- what is shown is held under its own identity, and that is of the type asked for
    have hkey : ∀ {i e}, (i, e) ∈ shown.toList → e.identity = i ∧ i.typeName = typeName := by
      intro i e hmem
      rw [SortedMap.mem_toList_iff, hshown, SortedMap.find?_filter,
        Option.filter_eq_some_iff] at hmem
      obtain ⟨hfind, hp⟩ := hmem
      simp only [Bool.and_eq_true, beq_iff_eq] at hp
      exact ⟨h.identity_eq hfind, hp.1⟩
    rw [SortedMap.values, List.pairwise_map]
    refine List.Pairwise.imp_of_mem ?_ shown.ascending
    rintro ⟨i, a⟩ ⟨j, b⟩ ha hb hlt
    obtain ⟨rfl, hi⟩ := hkey ha
    obtain ⟨rfl, hj⟩ := hkey hb
    rwa [← Identity.compare_of_typeName_eq (hi.trans hj.symm)]

/-- What is listed of a type is determined by what the map holds of this type; and if only a part
of each entry is looked at, by this part of what it holds. -/
lemma Sound.map_list_eq {γ : Type} {f : Entry → γ} {m' : Contents} (h : m.Sound d)
    (h' : m'.Sound d) {typeName : String}
    (hf : ∀ i, i.typeName = typeName → (m.find? i).map f = (m'.find? i).map f) (space : String) :
    (m.list d typeName space).map (List.map fun e => (e.identity, f e)) =
      (m'.list d typeName space).map (List.map fun e => (e.identity, f e)) := by
  have hpairs : ∀ {m : Contents}, m.Sound d → ∀ p : Identity → Entry → Bool,
      (m.filter p).values.map (fun e => (e.identity, f e)) = mapValues f (m.filter p).toList := by
    intro m h p
    rw [SortedMap.values, List.map_map]
    refine List.map_congr_left fun q hmem => ?_
    rw [SortedMap.mem_toList_iff, SortedMap.find?_filter, Option.filter_eq_some_iff] at hmem
    exact Prod.ext (h.identity_eq hmem.1) rfl
  rw [list, list]
  cases d.schemaOfType? typeName with
  | none => rfl
  | some _ =>
    refine congrArg Except.ok ?_
    rw [hpairs h, hpairs h', SortedMap.mapValues_toList_eq_iff]
    -- whether an entry is shown depends on its identity alone
    have hfilter : ∀ (shown : Bool) (o : Option Entry),
        (o.filter fun _ => shown) = if shown then o else none := by
      intro shown o
      cases o <;> cases shown <;> rfl
    intro i
    rw [SortedMap.find?_filter, SortedMap.find?_filter, hfilter, hfilter]
    split
    · next hshown => exact hf i (eq_of_beq (Bool.and_eq_true_iff.mp hshown).1)
    · rfl

end Contents

end ConfigRegistry
