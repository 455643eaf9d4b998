/-
# When two identities have one key

The key of an identity joins type, namespace and name by slashes, and nothing keeps slashes out of
the parts.  So an identity can be read off its key only up to a choice: of the slashes that follow
the type, any one may be the one between namespace and name.  Two identities of a type have one
key exactly if they are the same or differ by that choice, and as long as namespaces have no
slashes in them, or names have none, there is no choice.
-/
import Mathlib.Tactic.Common
import ConfigRegistry.Model.Metadata

namespace ConfigRegistry

/-- Two ways to cut a list at a separator are the same, or one of them cuts later. -/
lemma append_cons_eq_append_cons_iff {α : Type*} {sep : α} {a b a' b' : List α} :
    a ++ sep :: b = a' ++ sep :: b' ↔
      (a = a' ∧ b = b') ∨ (∃ part, a' = a ++ sep :: part ∧ b = part ++ sep :: b') ∨
        ∃ part, a = a' ++ sep :: part ∧ b' = part ++ sep :: b := by
  constructor
  · intro h
    -- one beginning goes on from the other; if it does so by nothing, the cuts are the same
    rcases List.append_eq_append_iff.mp h with ⟨c, rfl, hb⟩ | ⟨c, rfl, hb⟩
    · cases c with
      | nil =>
        simp only [List.nil_append, List.cons.injEq, true_and] at hb
        exact Or.inl ⟨by simp, hb⟩
      | cons x part =>
        simp only [List.cons_append, List.cons.injEq] at hb
        obtain ⟨rfl, rfl⟩ := hb
        exact Or.inr (Or.inl ⟨part, rfl, rfl⟩)
    · cases c with
      | nil =>
        simp only [List.nil_append, List.cons.injEq, true_and] at hb
        exact Or.inl ⟨by simp, hb.symm⟩
      | cons x part =>
        simp only [List.cons_append, List.cons.injEq] at hb
        obtain ⟨rfl, rfl⟩ := hb
        exact Or.inr (Or.inr ⟨part, rfl, rfl⟩)
  · rintro (⟨rfl, rfl⟩ | ⟨part, rfl, rfl⟩ | ⟨part, rfl, rfl⟩) <;> simp

namespace Identity

/-- The second identity has a part of the name in its namespace: a later slash of the key stands
between namespace and name. -/
def Shifted (i j : Identity) : Prop :=
  ∃ part, j.space = i.space ++ "/" ++ part ∧ i.name = part ++ "/" ++ j.name

variable {i j : Identity}

lemma key_toList (i : Identity) :
    i.key.toList = (i.typeName.toList ++ ['/']) ++ (i.space.toList ++ '/' :: i.name.toList) := by
  simp [key]

lemma shifted_iff :
    i.Shifted j ↔ ∃ part : List Char, j.space.toList = i.space.toList ++ '/' :: part ∧
      i.name.toList = part ++ '/' :: j.name.toList := by
  constructor
  · rintro ⟨part, hspace, hname⟩
    exact ⟨part.toList, by simp [hspace], by simp [hname]⟩
  · rintro ⟨part, hspace, hname⟩
    refine ⟨String.ofList part, ?_, ?_⟩
    · apply String.toList_inj.mp
      simp [hspace]
    · apply String.toList_inj.mp
      simp [hname]

/-- Identities of one type share a key exactly if they are the same or one is the other with a
later slash between namespace and name. -/
lemma key_eq_iff (htype : i.typeName = j.typeName) :
    i.key = j.key ↔ i = j ∨ i.Shifted j ∨ j.Shifted i := by
  have heq : i = j ↔ i.space.toList = j.space.toList ∧ i.name.toList = j.name.toList := by
    rw [String.toList_inj, String.toList_inj]
    cases i; cases j
    simp_all
  rw [← String.toList_inj, key_toList, key_toList, htype, List.append_cancel_left_eq,
    append_cons_eq_append_cons_iff, heq, shifted_iff, shifted_iff]

lemma not_shifted_self (i : Identity) : ¬ i.Shifted i := by
  rw [shifted_iff]
  rintro ⟨part, hspace, -⟩
  have hlength := congrArg List.length hspace
  simp at hlength

lemma not_shifted_of_space (h : '/' ∉ j.space.toList) : ¬ i.Shifted j := by
  rw [shifted_iff]
  rintro ⟨part, hspace, -⟩
  exact h (by rw [hspace]; simp)

lemma not_shifted_of_name (h : '/' ∉ i.name.toList) : ¬ i.Shifted j := by
  rw [shifted_iff]
  rintro ⟨part, -, hname⟩
  exact h (by rw [hname]; simp)

end Identity

end ConfigRegistry
