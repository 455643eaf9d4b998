/-
# What is written is read back

A shape is *lawful* if nothing is lost when a value is written: the fields of a record have
different names, a field is left out only when it has its default value, and the content of an
option is never written as `null`.  From the tree that a value of a lawful shape is written as,
that value is read.
-/
import ConfigRegistry.Proofs.Json.Sorted
import ConfigRegistry.Proofs.Shape.Members
import ConfigRegistry.Proofs.Shape.Plain
import ConfigRegistry.Shape.Encode

namespace ConfigRegistry

open Json

/-- A field that is left out has its default value. -/
def Presence.Lawful {α : Type} (presence : Presence α) : Prop :=
  ∀ a, presence.omits a = true → presence.fallback = some a

mutual

/-- Every value can be told from the tree that it is written as. -/
def Shape.Lawful : {α : Type} → Shape α → Prop
  | _, .text | _, .path | _, .flag | _, .word | _, .tree | _, .texts => True
  | _, .choice names => names.Nodup
  | _, .option content => (∀ a, content.encode a ≠ .null) ∧ content.Lawful
  | _, .list item => item.Lawful
  | _, .record _ _ fields => fields.names.Nodup ∧ fields.Lawful
  | _, .via content _ _ _ => content.Lawful

/-- Every field can be left out or be told from the tree that it is written as. -/
def Fields.Lawful : {β σ : Type} → Fields β σ → Prop
  | _, _, .nil => True
  | _, _, .cons _ presence content more =>
    presence.Lawful ∧ content.Lawful ∧ more.Lawful

end

/-! ## Names and numbers -/

/-- Among different names, each is found at its own place. -/
lemma variant_get {names : List String} (h : names.Nodup) (i : Fin names.length) :
    variant names (names.get i) = .ok i := by
  have hfind : names.findIdx? (· == names.get i) = some i.1 := by
    refine List.findIdx?_eq_some_iff_getElem.mpr ⟨i.2, by simp, fun k hk => ?_⟩
    have hne : names[k] ≠ names.get i := fun heq =>
      Nat.ne_of_lt hk ((List.Nodup.getElem_inj_iff h).mp heq)
    simpa using hne
  rw [variant]
  split
  · next n hn =>
    rw [hfind] at hn
    cases hn
    rfl
  · next hn =>
    rw [hfind] at hn
    cases hn

lemma wordOf_toNat (n : UInt16) : wordOf (.integer n.toNat) = .ok n := by
  have hlt : (n.toNat : Int) < twoTo 16 := Int.ofNat_lt.mpr n.toNat_lt
  simp [wordOf, hlt]

namespace Fields

variable {β σ : Type}

/-- The members that are written are those of different fields. -/
lemma keys_encode_sublist : {β σ : Type} → (fields : Fields β σ) → (b : β) →
    ((fields.encode b).map Prod.fst).Sublist fields.names
  | _, _, .nil, () => .slnil
  | _, _, .cons name presence content more, (a, b) => by
    have hmore := more.keys_encode_sublist b
    rw [Fields.encode]
    split
    · exact hmore.cons name
    · exact hmore.cons_cons name

lemma lookup_encode_eq_none {fields : Fields β σ} {name : String} (h : name ∉ fields.names)
    (b : β) : (fields.encode b).lookup name = none := by
  refine List.lookup_eq_none_iff.mpr fun m hm => ?_
  rw [bne_iff_ne]
  rintro rfl
  exact h ((fields.keys_encode_sublist b).subset (List.mem_map_of_mem hm))

end Fields

/-! ## The round trip -/

mutual

/-- A value is read from the tree that it is written as. -/
theorem Shape.ofTree_encode : {α : Type} → (shape : Shape α) → shape.Lawful → (a : α) →
    shape.ofTree (shape.encode a) = .ok a
  | _, .text, _, _ => rfl
  | _, .path, _, _ => rfl
  | _, .flag, _, _ => rfl
  | _, .word, _, n => wordOf_toNat n
  | _, .choice _, h, i => variant_get h i
  | _, .tree, _, _ => rfl
  | _, .texts, _, m => Shape.ofTree_texts_iff.mpr ⟨m.toList, rfl, m.ofList_toList.symm⟩
  | _, .option _, _, none => rfl
  | _, .option content, h, some a =>
    Shape.ofTree_option_iff.mpr (Or.inr ⟨h.1 a, a, content.ofTree_encode h.2 a, rfl⟩)
  | _, .list item, h, l => by
    refine Shape.ofTree_list_iff.mpr ⟨l.map item.encode, rfl, ?_⟩
    rw [List.forall₂_map_left_iff, List.forall₂_same]
    exact fun a _ => item.ofTree_encode h a
  | _, .record name strict fields, h, b => by
    have hkeys := fields.keys_encode_sublist b
    refine (Shape.ofTree_object_iff h.1 (hkeys.nodup h.1)).mpr ⟨fun _ m hm => ?_, ?_⟩
    · exact hkeys.subset (List.mem_map_of_mem hm)
    · exact fields.gathers_encode h.1 h.2 b
  | _, .via content _ unpack pack_unpack, h, a =>
    Shape.ofTree_via_iff.mpr ⟨unpack a, content.ofTree_encode h (unpack a), pack_unpack a⟩

theorem Fields.gathers_encode : {β σ : Type} → (fields : Fields β σ) → fields.names.Nodup →
    fields.Lawful → (b : β) → fields.Gathers (fun k => (fields.encode b).lookup k) b
  | _, _, .nil, _, _, () => trivial
  | _, _, .cons name presence content more, hnames, h, (a, b) => by
    obtain ⟨hname, hnames⟩ := List.nodup_cons.mp hnames
    have hmore := more.gathers_encode hnames h.2.2 b
    have hnone := Fields.lookup_encode_eq_none hname b
    rw [Fields.encode, Fields.Gathers]
    by_cases homits : presence.omits a = true
    · rw [if_pos homits, hnone]
      exact ⟨h.1 a homits, hmore⟩
    · rw [if_neg homits, List.lookup_cons_self]
      refine ⟨content.ofTree_encode h.2.1 a, (more.gathers_congr fun n hn => ?_).mpr hmore⟩
      have hne : n ≠ name := ne_of_mem_of_not_mem hn hname
      rw [List.lookup_cons, beq_eq_false_iff_ne.mpr hne]

end

namespace Shape

variable {α : Type} {shape : Shape α}

/-- Different values are written as different trees. -/
lemma encode_injective (hlawful : shape.Lawful) : Function.Injective shape.encode := by
  intro a b h
  have ha := shape.ofTree_encode hlawful a
  rw [h, shape.ofTree_encode hlawful b] at ha
  exact (Except.ok.inj ha).symm

lemma fits_encode_of_plain (hplain : shape.Plain) (hlawful : shape.Lawful) (a : α) :
    (shape.encode a).Fits shape.height :=
  shape.fits hplain (shape.ofTree_encode hlawful a)

end Shape

end ConfigRegistry
