/-
# Which trees a shape accepts

For every shape, the trees that a value can be read from, and the value.
-/
import ConfigRegistry.Proofs.SortedMap
import ConfigRegistry.Proofs.Steps
import ConfigRegistry.Shape.Tree

namespace ConfigRegistry

namespace Fields

variable {α β σ : Type}

/-- Reads one more member of a record. -/
def takeMember (fields : Fields β σ) (strict : Bool) (found : σ) (m : String × Json) :
    Except Mismatch σ := do
  match ← fields.memberOfTree m.1 m.2 found with
  | some found => return found
  | none => if strict then .error (.unknownField m.1 fields.names) else return found

/-- A strict record has a field for every member. -/
lemma takeMember_eq_ok_iff {fields : Fields β σ} {found found' : σ} {m : String × Json} :
    fields.takeMember true found m = .ok found' ↔
      fields.memberOfTree m.1 m.2 found = .ok (some found') := by
  rw [takeMember, bind_eq_ok_iff]
  constructor
  · rintro ⟨o, ho, h⟩
    cases o with
    | none => cases h
    | some found₁ =>
      cases h
      exact ho
  · intro h
    exact ⟨_, h, rfl⟩

section Cons

variable {name : String} {presence : Presence α} {content : Shape α} {more : Fields β σ}

/-- A member is read into the first field if the key is its name and nothing has been found for
it, and otherwise into one of the other fields. -/
lemma memberOfTree_cons_iff {k : String} {v : Json} {o o' : Option α} {found found' : σ} :
    (Fields.cons name presence content more).memberOfTree k v (o, found) =
        .ok (some (o', found')) ↔
      (k = name ∧ o = none ∧ found' = found ∧ ∃ a, content.ofTree v = .ok a ∧ o' = some a) ∨
        (k ≠ name ∧ o' = o ∧ more.memberOfTree k v found = .ok (some found')) := by
  rw [Fields.memberOfTree.eq_def]
  dsimp only
  by_cases hk : k = name
  · subst hk
    simp only [beq_self_eq_true, if_true, true_and, ne_eq, not_true_eq_false, false_and, or_false]
    cases o with
    | some a => simp
    | none =>
      rw [bind_eq_ok_iff]
      constructor
      · rintro ⟨a, ha, h⟩
        cases h
        exact ⟨rfl, rfl, a, ha, rfl⟩
      · rintro ⟨-, rfl, a, ha, rfl⟩
        exact ⟨a, ha, rfl⟩
  · simp only [beq_iff_eq, hk, if_false, false_and, false_or, ne_eq, not_false_eq_true, true_and]
    rw [bind_eq_ok_iff]
    constructor
    · rintro ⟨rest, hrest, h⟩
      cases rest with
      | none => cases h
      | some found₁ =>
        cases h
        exact ⟨rfl, hrest⟩
    · rintro ⟨rfl, h⟩
      exact ⟨_, h, rfl⟩

/-- A field takes the next item, or its default if there are no items left. -/
lemma positionalOfTree_cons_iff {record : String} {count index : Nat} {items left : List Json}
    {a : α} {b : β} :
    (Fields.cons name presence content more).positionalOfTree record count index items =
        .ok ((a, b), left) ↔
      (∃ v rest, items = v :: rest ∧ content.ofTree v = .ok a ∧
        more.positionalOfTree record count (index + 1) rest = .ok (b, left)) ∨
      (items = [] ∧ presence.fallback = some a ∧
        more.positionalOfTree record count (index + 1) [] = .ok (b, left)) := by
  rw [Fields.positionalOfTree.eq_def]
  constructor
  · intro h
    cases items with
    | cons v rest =>
      obtain ⟨a', ha, h⟩ := bind_eq_ok_iff.mp h
      obtain ⟨⟨b', left'⟩, hb, h⟩ := bind_eq_ok_iff.mp h
      cases h
      exact Or.inl ⟨v, rest, rfl, ha, hb⟩
    | nil =>
      dsimp only at h
      cases hfallback : presence.fallback with
      | none =>
        rw [hfallback] at h
        cases h
      | some a' =>
        rw [hfallback] at h
        obtain ⟨⟨b', left'⟩, hb, h⟩ := bind_eq_ok_iff.mp h
        cases h
        exact Or.inr ⟨rfl, rfl, hb⟩
  · rintro (⟨v, rest, rfl, ha, hb⟩ | ⟨rfl, ha, hb⟩)
    · exact bind_eq_ok_iff.mpr ⟨a, ha, bind_eq_ok_iff.mpr ⟨_, hb, rfl⟩⟩
    · dsimp only
      rw [ha]
      exact bind_eq_ok_iff.mpr ⟨_, hb, rfl⟩

end Cons

end Fields

namespace Shape

variable {α β σ : Type} {j : Json}

attribute [local simp] Shape.ofTree

lemma ofTree_text_iff {a : String} : Shape.text.ofTree j = .ok a ↔ j = .string a := by
  cases j <;> simp

lemma ofTree_path_iff {a : String} : Shape.path.ofTree j = .ok a ↔ j = .string a := by
  cases j <;> simp

lemma ofTree_flag_iff {b : Bool} : Shape.flag.ofTree j = .ok b ↔ j = .bool b := by
  cases j <;> simp

/-- A choice is given by its name, alone or as the key of `null`. -/
lemma ofTree_choice_iff {names : List String} {i : Fin names.length} :
    (Shape.choice names).ofTree j = .ok i ↔
      ∃ name, variant names name = .ok i ∧ (j = .string name ∨ j = .object [(name, .null)]) := by
  cases j with
  | string name => simp
  | object members =>
    cases members with
    | nil => simp
    | cons m members =>
      cases members with
      | cons m' members => simp
      | nil =>
        obtain ⟨name, content⟩ := m
        rw [Shape.ofTree, bind_eq_ok_iff]
        cases content <;> simp [Json.isNull]
  | _ => simp

/-- Texts under keys are given by an object of texts. -/
lemma ofTree_texts_iff {m : TextMap} :
    Shape.texts.ofTree j = .ok m ↔ ∃ entries : List (String × String),
      j = .object (mapValues .string entries) ∧ m = .ofList entries := by
  cases j with
  | object members =>
    rw [Shape.ofTree, bind_eq_ok_iff]
    constructor
    · rintro ⟨entries, h, hm⟩
      refine ⟨entries, congrArg Json.object ?_, (Except.ok.inj hm).symm⟩
      rw [mapM_eq_ok_iff] at h
      clear hm
      induction h with
      | nil => rfl
      | @cons member entry _ _ head _ ih =>
        obtain ⟨k, v⟩ := member
        cases v with
        | string a =>
          cases head
          rw [ih]
          rfl
        | _ => cases head
    · rintro ⟨entries, h, rfl⟩
      cases h
      refine ⟨entries, mapM_eq_ok_iff.mpr ?_, rfl⟩
      rw [mapValues, List.forall₂_map_left_iff, List.forall₂_same]
      exact fun e _ => rfl
  | _ => simp

/-- `null` is no value; anything else is read as the content. -/
lemma ofTree_option_iff {content : Shape α} {o : Option α} :
    (Shape.option content).ofTree j = .ok o ↔
      (j = .null ∧ o = none) ∨ (j ≠ .null ∧ ∃ a, content.ofTree j = .ok a ∧ o = some a) := by
  cases j with
  | null => simp [eq_comm (a := o)]
  | _ => simp [map_eq_ok_iff, eq_comm (a := o)]

lemma ofTree_list_iff {item : Shape α} {l : List α} :
    (Shape.list item).ofTree j = .ok l ↔
      ∃ items, j = .array items ∧ List.Forall₂ (fun j a => item.ofTree j = .ok a) items l := by
  cases j with
  | array items => simp [mapM_eq_ok_iff]
  | _ => simp

/-- A record is read member by member from an object, or field by field from an array. -/
lemma ofTree_record_iff {name : String} {strict : Bool} {fields : Fields β σ} {b : β} :
    (Shape.record name strict fields).ofTree j = .ok b ↔
      (∃ members found, j = .object members ∧
        members.foldlM (fields.takeMember strict) fields.noneFound = .ok found ∧
          fields.settle found = .ok b) ∨
      ∃ items, j = .array items ∧
        fields.positionalOfTree name fields.names.length 0 items = .ok (b, []) := by
  cases j with
  | object members =>
    rw [Shape.ofTree, bind_eq_ok_iff]
    constructor
    · rintro ⟨found, hfound, h⟩
      exact Or.inl ⟨members, found, rfl, hfound, h⟩
    · rintro (⟨members, found, h, hfound, hsettle⟩ | ⟨items, h, -⟩)
      · cases h
        exact ⟨found, hfound, hsettle⟩
      · cases h
  | array items =>
    rw [Shape.ofTree, bind_eq_ok_iff]
    constructor
    · rintro ⟨⟨b', left⟩, hpositional, h⟩
      dsimp only at h
      split at h
      · next hleft =>
        cases h
        rw [List.isEmpty_iff] at hleft
        rw [hleft] at hpositional
        exact Or.inr ⟨items, rfl, hpositional⟩
      · cases h
    · rintro (⟨members, found, h, -⟩ | ⟨items, h, hpositional⟩)
      · cases h
      · cases h
        exact ⟨_, hpositional, rfl⟩
  | _ => simp

lemma ofTree_via_iff {content : Shape β} {pack : β → α} {unpack : α → β}
    {h : ∀ a, pack (unpack a) = a} {a : α} :
    (Shape.via content pack unpack h).ofTree j = .ok a ↔
      ∃ b, content.ofTree j = .ok b ∧ pack b = a := by
  rw [Shape.ofTree, map_eq_ok_iff]

end Shape

end ConfigRegistry
