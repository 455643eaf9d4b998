/-
# Entries as documents

An entry that a descriptor accepts is written as a document, and the document reads as the entry
(`Descriptor.accepts_iff_ofYaml_toYaml`).  Nothing is asked of the texts in it.
-/
import ConfigRegistry.Proofs.Model.Acceptance
import ConfigRegistry.Proofs.Shape.Document
import ConfigRegistry.Proofs.Yaml.Node.Block

namespace ConfigRegistry

open Yaml (Document TellsTexts nestingLimit)

/-! ## The layout of objects -/

namespace Fields

variable {α β σ : Type} {name : String} {presence : Presence α} {content : Shape α}
  {more : Fields β σ} {a : α} {b : β}

lemma fits_encode_cons {n : ℕ} (ha : (content.encode a).Fits n)
    (hb : ∀ m ∈ more.encode b, m.2.Fits n) :
    ∀ m ∈ (Fields.cons name presence content more).encode (a, b), m.2.Fits n := by
  rw [Fields.encode]
  split
  · exact hb
  · exact List.forall_mem_cons.mpr ⟨ha, hb⟩

lemma encode_cons_ne_nil (h : more.encode b ≠ []) :
    (Fields.cons name presence content more).encode (a, b) ≠ [] := by
  rw [Fields.encode]
  split
  · exact h
  · exact List.cons_ne_nil _ _

end Fields

namespace Metadata

lemma lawful_textsField : textsField.Lawful := by
  intro m h
  have hempty : m = ∅ := SortedMap.ext_toList (List.isEmpty_iff.mp h)
  rw [hempty]
  rfl

end Metadata

namespace ConfigObject

lemma lawful_shape : shape.Lawful := by
  have hspec : (Presence.omittedWhen Json.isNull .null).Lawful := by
    intro j h
    cases j <;> first | rfl | cases h
  exact ⟨by decide, Presence.lawful_text, trivial, Presence.lawful_text, trivial,
    Presence.lawful_text, trivial, Presence.lawful_text, trivial, Metadata.lawful_textsField,
    trivial, Metadata.lawful_textsField, trivial, Presence.lawful_text, trivial, hspec, trivial,
    trivial⟩

variable {o : ConfigObject} {n : ℕ}

lemma sorted_shape (h : o.spec.sorted = o.spec) : shape.Sorted o :=
  ⟨trivial, trivial, trivial, trivial, trivial, trivial, trivial, h, trivial⟩

lemma fits_encode_texts (l : TextMap) : (Shape.texts.encode l).Fits (n + 1) := by
  refine Json.Fits.object fun e he => ?_
  obtain ⟨e, -, rfl⟩ := List.mem_map.mp he
  exact (Json.Fits.string e.2).mono (Nat.zero_le n)

lemma fits_encode (h : o.spec.Fits (n + 1)) : (shape.encode o).Fits (n + 2) := by
  have htext (s : String) : (Shape.text.encode s).Fits (n + 1) :=
    (Json.Fits.string s).mono (Nat.zero_le _)
  refine Json.Fits.object <| Fields.fits_encode_cons (htext _) <|
    Fields.fits_encode_cons (htext _) <| Fields.fits_encode_cons (htext _) <|
    Fields.fits_encode_cons (htext _) <| Fields.fits_encode_cons (fits_encode_texts _) <|
    Fields.fits_encode_cons (fits_encode_texts _) <| Fields.fits_encode_cons (htext _) <|
    Fields.fits_encode_cons h ?_
  exact List.forall_mem_nil _

/-- An object with a payload has entries. -/
lemma exists_encode_eq_object (h : o.spec ≠ .null) :
    ∃ members, members ≠ [] ∧ shape.encode o = .object members := by
  refine ⟨_, ?_, rfl⟩
  -- the payload comes after the seven fields of the metadata, each of which may be left out
  iterate 7 refine Fields.encode_cons_ne_nil ?_
  have hnull : o.spec.isNull = false := by
    cases hj : o.spec <;> first | rfl | exact absurd hj h
  rw [Fields.encode]
  show (if o.spec.isNull = true then _ else _) ≠ _
  rw [hnull, if_neg Bool.false_ne_true]
  exact List.cons_ne_nil _ _

end ConfigObject

/-! ## The object of an entry -/

namespace Entry

variable (e : Entry)

lemma sorted_shown : e.shown.spec.sorted = e.shown.spec := Json.sorted_sorted _

lemma fits_spec_shown : e.shown.spec.Fits (nestingLimit - 1) := by
  have hplain := e.payload.kind.plain_shape
  have hlawful := e.payload.kind.lawful_shape
  have hread := Shape.ofTree_encode _ hlawful e.payload.body
  have hdistinct := Shape.distinctKeys_encode _ hplain hlawful e.payload.body
  have hsorted := (Shape.ofTree_sorted_iff _ hplain hlawful hdistinct).mpr hread
  exact (Shape.fits _ hplain hsorted).mono (Nat.le_of_lt_succ e.payload.kind.height_shape_lt)

lemma spec_shown_ne_null : e.shown.spec ≠ .null := by
  obtain ⟨members, hmembers⟩ := e.payload.kind.exists_encode_eq_object e.payload.body
  refine Json.sorted_ne_null ?_
  rw [hmembers]
  exact Json.noConfusion

/-- The document of an entry reads as the object that shows it. -/
lemma ofDocument_shown {style : String → Yaml.Style} (hstyle : TellsTexts style) :
    ConfigObject.shape.ofDocument (Document.ofTree style (ConfigObject.shape.encode e.shown)) =
      .ok e.shown :=
  Shape.ofDocument_encode hstyle ConfigObject.lawful_shape
    (ConfigObject.sorted_shape e.sorted_shown) (ConfigObject.fits_encode e.fits_spec_shown)

end Entry

/-! ## Writing and reading entries -/

namespace Descriptor

variable {d : Descriptor} {e : Entry}

/-- A text that holds the document of an entry reads as the entry. -/
lemma Accepts.ofYaml_of_ofText (h : d.Accepts e) {style : String → Yaml.Style}
    (hstyle : TellsTexts style) {text : String}
    (htext : Document.ofText text =
      .ok (Document.ofTree style (ConfigObject.shape.encode e.shown))) :
    (d.ofYaml text).outcome = .ok e := by
  have hobject : ConfigObject.shape.ofYaml text = .ok e.shown := by
    rw [Shape.ofYaml, htext]
    exact e.ofDocument_shown hstyle
  rw [ofYaml, hobject, Audited.outcome_bind, Audited.outcome_ofExcept]
  exact h.ofObject_shown

/-- What is read from a document is accepted. -/
lemma accepts_of_ofYaml {text : String} (h : (d.ofYaml text).outcome = .ok e) : d.Accepts e := by
  rw [ofYaml, Audited.outcome_bind, Audited.outcome_ofExcept] at h
  obtain ⟨o, -, ho⟩ := bind_eq_ok_iff.mp h
  exact accepts_of_ofObject ho

/-- **Entries survive being written as YAML.**  An entry is accepted exactly if it can be written
and what is written reads as the entry, whatever its texts are. -/
theorem accepts_iff_ofYaml_toYaml (d : Descriptor) (e : Entry) :
    (∃ s, (d.validate e).outcome = .ok s) ↔
      ∃ text, d.toYaml e = .ok text ∧ (d.ofYaml text).outcome = .ok e := by
  constructor
  · intro h
    have haccepts : d.Accepts e := h
    have hplain : TellsTexts Yaml.styleOf := fun s hs => (Yaml.styleOf_eq_plain hs).2.2
    obtain ⟨members, hne, hmembers⟩ :=
      ConfigObject.exists_encode_eq_object e.spec_shown_ne_null
    have hfits := ConfigObject.fits_encode e.fits_spec_shown
    rw [hmembers] at hfits
    have hdocument := Document.ofText_render hne hfits.numberless
    rw [← hmembers] at hdocument
    refine ⟨e.shown.toYaml, ?_, haccepts.ofYaml_of_ofText hplain hdocument⟩
    rw [toYaml, haccepts.toObject_eq]
    rfl
  · rintro ⟨text, -, h⟩
    exact accepts_of_ofYaml h

end Descriptor

end ConfigRegistry
