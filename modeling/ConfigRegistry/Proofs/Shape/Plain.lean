/-
# Plain shapes

A shape is *plain* if it is made of texts, truth values, names, options, lists and records that
know all their fields.  Every tree that such a shape accepts is one that can be printed and read
again without a second thought: it has no numbers, and it is nested no deeper than the shape is.
-/
import ConfigRegistry.Proofs.Json.Tree
import ConfigRegistry.Proofs.Shape.Tree

namespace ConfigRegistry

open Json

mutual

/-- The shape has no numbers, no trees of any kind, and no records that pass over fields. -/
def Shape.Plain : {α : Type} → Shape α → Prop
  | _, .text | _, .path | _, .flag | _, .choice _ | _, .texts => True
  | _, .word | _, .tree => False
  | _, .option content => content.Plain
  | _, .list item => item.Plain
  | _, .record _ strict fields => strict = true ∧ fields.Plain
  | _, .via content _ _ _ => content.Plain

/-- The shape of every field is plain. -/
def Fields.Plain : {β σ : Type} → Fields β σ → Prop
  | _, _, .nil => True
  | _, _, .cons _ _ content more => content.Plain ∧ more.Plain

end

mutual

/-- How many lists and objects may stand inside each other. -/
def Shape.height : {α : Type} → Shape α → Nat
  | _, .text | _, .path | _, .flag | _, .word | _, .tree => 0
  | _, .choice _ | _, .texts => 1
  | _, .option content => content.height
  | _, .list item => item.height + 1
  | _, .record _ _ fields => fields.height + 1
  | _, .via content _ _ _ => content.height

/-- The height of the highest field. -/
def Fields.height : {β σ : Type} → Fields β σ → Nat
  | _, _, .nil => 0
  | _, _, .cons _ _ content more => max content.height more.height

end

/-- The tree has no numbers and at most the given nesting. -/
structure Json.Fits (height : Nat) (j : Json) : Prop where
  numberless : j.Numberless
  nesting_le : j.nesting ≤ height

namespace Json.Fits

variable {m n : Nat} {j : Json}

lemma mono (h : j.Fits m) (hmn : m ≤ n) : j.Fits n :=
  ⟨h.numberless, Nat.le_trans h.nesting_le hmn⟩

lemma array {items : List Json} (h : ∀ x ∈ items, x.Fits n) : (Json.array items).Fits (n + 1) := by
  have hitems : NumberlessItems items ∧ nestingItems items ≤ n := by
    induction items with
    | nil => exact ⟨trivial, Nat.zero_le n⟩
    | cons x xs ih =>
      obtain ⟨hx, hxs⟩ := List.forall_mem_cons.mp h
      obtain ⟨hnumber, hnesting⟩ := ih hxs
      exact ⟨⟨hx.numberless, hnumber⟩, Nat.max_le.mpr ⟨hx.nesting_le, hnesting⟩⟩
  exact ⟨hitems.1, Nat.succ_le_succ hitems.2⟩

lemma object {members : List (String × Json)} (h : ∀ m ∈ members, m.2.Fits n) :
    (Json.object members).Fits (n + 1) := by
  have hmembers : NumberlessMembers members ∧ nestingMembers members ≤ n := by
    induction members with
    | nil => exact ⟨trivial, Nat.zero_le n⟩
    | cons m ms ih =>
      obtain ⟨hm, hms⟩ := List.forall_mem_cons.mp h
      obtain ⟨hnumber, hnesting⟩ := ih hms
      exact ⟨⟨hm.numberless, hnumber⟩, Nat.max_le.mpr ⟨hm.nesting_le, hnesting⟩⟩
  exact ⟨hmembers.1, Nat.succ_le_succ hmembers.2⟩

lemma of_array {items : List Json} (h : (Json.array items).Fits n) :
    ∃ m, n = m + 1 ∧ ∀ x ∈ items, x.Fits m := by
  obtain ⟨hnumberless, hnesting⟩ := h
  rw [nesting] at hnesting
  obtain ⟨m, rfl⟩ := Nat.exists_eq_add_of_le' (show 1 ≤ n by omega)
  replace hnesting : nestingItems items ≤ m := by omega
  refine ⟨m, rfl, ?_⟩
  induction items with
  | nil => simp
  | cons x xs ih =>
    obtain ⟨hx, hxs⟩ := Nat.max_le.mp hnesting
    exact List.forall_mem_cons.mpr ⟨⟨hnumberless.1, hx⟩, ih hnumberless.2 hxs⟩

lemma of_object {members : List (String × Json)} (h : (Json.object members).Fits n) :
    ∃ m, n = m + 1 ∧ ∀ e ∈ members, e.2.Fits m := by
  obtain ⟨hnumberless, hnesting⟩ := h
  rw [nesting] at hnesting
  obtain ⟨m, rfl⟩ := Nat.exists_eq_add_of_le' (show 1 ≤ n by omega)
  replace hnesting : nestingMembers members ≤ m := by omega
  refine ⟨m, rfl, ?_⟩
  induction members with
  | nil => simp
  | cons e ms ih =>
    obtain ⟨he, hms⟩ := Nat.max_le.mp hnesting
    exact List.forall_mem_cons.mpr ⟨⟨hnumberless.1, he⟩, ih hnumberless.2 hms⟩

lemma string (a : String) : (Json.string a).Fits 0 := ⟨trivial, Nat.le_refl 0⟩

lemma null : Json.null.Fits 0 := ⟨trivial, Nat.le_refl 0⟩

end Json.Fits

/-- Every member that a strict record has taken was taken by a field. -/
lemma Fields.exists_memberOfTree {β σ : Type} {fields : Fields β σ}
    {members : List (String × Json)} {found found' : σ}
    (h : members.foldlM (fields.takeMember true) found = .ok found') :
    ∀ m ∈ members, ∃ found₁ found₂, fields.memberOfTree m.1 m.2 found₁ = .ok (some found₂) := by
  induction members generalizing found with
  | nil => simp
  | cons m members ih =>
    rw [List.foldlM_cons] at h
    obtain ⟨found₁, hfirst, hrest⟩ := bind_eq_ok_iff.mp h
    refine List.forall_mem_cons.mpr ⟨?_, ih hrest⟩
    exact ⟨found, found₁, takeMember_eq_ok_iff.mp hfirst⟩

mutual

/-- What a plain shape accepts has no numbers and is nested no deeper than the shape. -/
theorem Shape.fits : {α : Type} → (shape : Shape α) → shape.Plain → {j : Json} → {a : α} →
    shape.ofTree j = .ok a → j.Fits shape.height
  | _, .text, _, j, a, h => by
    rw [Shape.ofTree_text_iff] at h
    subst h
    exact Fits.string a
  | _, .path, _, j, a, h => by
    rw [Shape.ofTree_path_iff] at h
    subst h
    exact Fits.string a
  | _, .flag, _, j, b, h => by
    rw [Shape.ofTree_flag_iff] at h
    subst h
    exact ⟨trivial, Nat.le_refl 0⟩
  | _, .word, hplain, _, _, _ => hplain.elim
  | _, .choice names, _, j, i, h => by
    obtain ⟨name, -, rfl | rfl⟩ := Shape.ofTree_choice_iff.mp h
    · exact (Fits.string name).mono (Nat.zero_le _)
    · refine Fits.object fun m hm => ?_
      rw [List.mem_singleton.mp hm]
      exact Fits.null
  | _, .tree, hplain, _, _, _ => hplain.elim
  | _, .texts, _, j, m, h => by
    obtain ⟨entries, rfl, -⟩ := Shape.ofTree_texts_iff.mp h
    refine Fits.object fun m hm => ?_
    obtain ⟨e, -, rfl⟩ := List.mem_map.mp hm
    exact Fits.string e.2
  | _, .option content, hplain, j, o, h => by
    rcases Shape.ofTree_option_iff.mp h with ⟨rfl, -⟩ | ⟨-, a, ha, -⟩
    · exact Fits.null.mono (Nat.zero_le _)
    · exact content.fits hplain ha
  | _, .list item, hplain, j, l, h => by
    obtain ⟨items, rfl, hitems⟩ := Shape.ofTree_list_iff.mp h
    refine Fits.array ?_
    clear h
    induction hitems with
    | nil => simp
    | cons ha _ ih => exact List.forall_mem_cons.mpr ⟨item.fits hplain ha, ih⟩
  | _, .record name strict fields, hplain, j, b, h => by
    obtain ⟨rfl, hplain⟩ := hplain
    rcases Shape.ofTree_record_iff.mp h with ⟨members, found, rfl, hfound, -⟩ | ⟨items, rfl, hb⟩
    · refine Fits.object fun m hm => ?_
      -- a strict record passes over nothing, so some field has accepted the member
      obtain ⟨found₁, found₂, hmember⟩ := Fields.exists_memberOfTree hfound m hm
      exact fields.fits_member hplain hmember
    · exact Fits.array (fields.fits_positional hplain hb)
  | _, .via content _ _ _, hplain, j, a, h => by
    obtain ⟨b, hb, -⟩ := Shape.ofTree_via_iff.mp h
    exact content.fits hplain hb

theorem Fields.fits_member : {β σ : Type} → (fields : Fields β σ) → fields.Plain →
    {k : String} → {v : Json} → {found found' : σ} →
    fields.memberOfTree k v found = .ok (some found') → v.Fits fields.height
  | _, _, .nil, _, _, _, _, _, h => by cases h
  | _, _, .cons name presence content more, hplain, k, v, (o, found), (o', found'), h => by
    rcases Fields.memberOfTree_cons_iff.mp h with ⟨-, -, -, a, ha, -⟩ | ⟨-, -, hmore⟩
    · exact (content.fits hplain.1 ha).mono (Nat.le_max_left _ _)
    · exact (more.fits_member hplain.2 hmore).mono (Nat.le_max_right _ _)

theorem Fields.fits_positional : {β σ : Type} → (fields : Fields β σ) → fields.Plain →
    {record : String} → {count index : Nat} → {items : List Json} → {b : β} →
    fields.positionalOfTree record count index items = .ok (b, []) →
    ∀ x ∈ items, x.Fits fields.height
  | _, _, .nil, _, _, _, _, _, _, h => by
    cases h
    simp
  | _, _, .cons name presence content more, hplain, record, count, index, items, (a, b), h => by
    rcases Fields.positionalOfTree_cons_iff.mp h with ⟨v, rest, rfl, ha, hb⟩ | ⟨rfl, -, -⟩
    · refine List.forall_mem_cons.mpr ⟨?_, fun x hx => ?_⟩
      · exact (content.fits hplain.1 ha).mono (Nat.le_max_left _ _)
      · exact (more.fits_positional hplain.2 hb x hx).mono (Nat.le_max_right _ _)
    · simp

end

end ConfigRegistry
