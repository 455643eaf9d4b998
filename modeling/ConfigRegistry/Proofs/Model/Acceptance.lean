/-
# What can be read is what is valid

A descriptor lets an entry in by two ways.  It reads an object, decodes the payload and then checks
it; and it checks an entry that somebody has put together.  Both ways let in the same entries
(`Descriptor.accepts_iff_exists_ofObject`).  What is read has been checked last, so one direction
follows the order of the steps; for the other one an object has to be found that reads as the entry,
and the object that the entry is written as is one.
-/
import ConfigRegistry.Proofs.Model.Codec

namespace ConfigRegistry

namespace Schema

/-- The payload of a kind that a schema names is read from its own tree. -/
lemma ofTree_sorted_encode_of_known {s : Schema} {k : Kind} (hs : s.payloadType = .known k)
    (body : k.Body) : s.ofTree (k.shape.encode body).sorted = .ok ⟨k, body⟩ := by
  have hread := k.shape.ofTree_encode k.lawful_shape body
  have hdistinct := k.shape.distinctKeys_encode k.plain_shape k.lawful_shape body
  have hsorted := (k.shape.ofTree_sorted_iff k.plain_shape k.lawful_shape hdistinct).mpr hread
  have htext := ofText_render_of_known hs hsorted
  -- the tree is an object, and those are read by way of their text
  obtain ⟨members, hmembers⟩ := k.exists_encode_eq_object body
  rw [hmembers] at htext ⊢
  exact htext

end Schema

/-- The object that shows an entry: its metadata, and the tree of its payload. -/
def Entry.shown (e : Entry) : ConfigObject :=
  { metadata := e.metadata, spec := (e.payload.kind.shape.encode e.payload.body).sorted }

namespace Descriptor

variable {d : Descriptor} {e : Entry} {o : ConfigObject} {s : Schema}

/-- An object is read by the schema of its type, which decodes the payload and then checks it. -/
lemma ofObject_outcome_eq_ok_iff :
    (d.ofObject o).outcome = .ok e ↔
      ∃ s, d.schemaOfType? o.metadata.typeName = some s ∧ s.ofTree o.spec = .ok e.payload ∧
        (s.validate e.payload).outcome = .ok () ∧ e.metadata = o.metadata := by
  simp only [ofObject, Audited.outcome_bind, Audited.outcome_ofExcept, Audited.outcome_pure,
    ← schemaOfType_eq_ok_iff]
  constructor
  · intro h
    obtain ⟨s, hs, h⟩ := bind_eq_ok_iff.mp h
    obtain ⟨payload, hpayload, h⟩ := bind_eq_ok_iff.mp h
    obtain ⟨_, hvalid, h⟩ := bind_eq_ok_iff.mp h
    cases h
    exact ⟨s, hs, hpayload, hvalid, rfl⟩
  · rintro ⟨s, hs, hpayload, hvalid, hmetadata⟩
    refine bind_eq_ok_iff.mpr ⟨s, hs, bind_eq_ok_iff.mpr ⟨e.payload, hpayload, ?_⟩⟩
    refine bind_eq_ok_iff.mpr ⟨(), hvalid, ?_⟩
    rw [← hmetadata]

/-- Whatever is read from an object is valid. -/
lemma accepts_of_ofObject (h : (d.ofObject o).outcome = .ok e) : d.Accepts e := by
  obtain ⟨s, hs, -, hvalid, hmetadata⟩ := ofObject_outcome_eq_ok_iff.mp h
  exact ⟨s, validate_outcome_eq_ok_iff.mpr ⟨hmetadata ▸ hs, hvalid⟩⟩

/-- A valid entry is written as the object that shows it. -/
lemma Accepts.toObject_eq (h : d.Accepts e) : d.toObject e = .ok e.shown := by
  obtain ⟨s, hs, hvalid⟩ := h.exists_schema
  have htree := Schema.toTree_eq_of_known (Schema.payloadType_of_validate hvalid) e.payload.body
  simp only [toObject, hs]
  exact bind_eq_ok_iff.mpr ⟨_, htree, rfl⟩

/-- A valid entry is read from the object that shows it. -/
lemma Accepts.ofObject_shown (h : d.Accepts e) : (d.ofObject e.shown).outcome = .ok e := by
  obtain ⟨s, hs, hvalid⟩ := h.exists_schema
  have hread := Schema.ofTree_sorted_encode_of_known (Schema.payloadType_of_validate hvalid)
    e.payload.body
  exact ofObject_outcome_eq_ok_iff.mpr ⟨s, hs, hread, hvalid, rfl⟩

/-- **What a descriptor can read is what it validates.**  An entry is valid exactly if it is what
some object reads as.  It is valid, too, exactly if it can be written as an object that bears its
metadata as they are and reads as the entry. -/
theorem accepts_iff_exists_ofObject (d : Descriptor) (e : Entry) :
    ((∃ s, (d.validate e).outcome = .ok s) ↔ ∃ o, (d.ofObject o).outcome = .ok e) ∧
      ((∃ s, (d.validate e).outcome = .ok s) ↔
        ∃ o, d.toObject e = .ok o ∧ o.metadata = e.metadata ∧ (d.ofObject o).outcome = .ok e) := by
  constructor
  · constructor
    · intro h
      exact ⟨_, Accepts.ofObject_shown h⟩
    · rintro ⟨o, ho⟩
      exact accepts_of_ofObject ho
  · constructor
    · intro h
      exact ⟨_, Accepts.toObject_eq h, rfl, Accepts.ofObject_shown h⟩
    · rintro ⟨o, -, -, ho⟩
      exact accepts_of_ofObject ho

end Descriptor

end ConfigRegistry
