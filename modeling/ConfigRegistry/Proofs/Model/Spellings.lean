/-
# The two layouts of metadata

Metadata have a layout of their own, and their fields are spelled out once more in the layout of
objects, before the payload.  The two do not drift apart (`Metadata.spellings_agree`).  An object
that can be read has the metadata that are read from the same text, and what an object is written as
is, but for the payload, what its metadata are written as.  Since the layout of metadata reads over
the payload, it accepts texts that are no objects: a payload that cannot be read as a tree, be it
nested too deep or with a number out of range, does not matter to it.
-/
import ConfigRegistry.Proofs.Model.Agreement
import ConfigRegistry.Proofs.Model.Documents
import ConfigRegistry.Proofs.Shape.Dropping
import ConfigRegistry.Proofs.Shape.Written

namespace ConfigRegistry

open Json (OpensObject)

/-- The tree without the members under a key, if it is an object. -/
def Json.without (key : String) : Json → Json
  | object members => object (members.filter fun m => m.1 != key)
  | j => j

namespace Metadata

/-- Field by field, the layout of metadata is what is left of the layout of objects without the
payload. -/
lemma drops_spec :
    Fields.Drops "spec" ConfigObject.fields fields
      (Prod.map id <| Prod.map id <| Prod.map id <| Prod.map id <| Prod.map id <| Prod.map id <|
        Prod.map id fun _ => ())
      (Prod.map id <| Prod.map id <| Prod.map id <| Prod.map id <| Prod.map id <| Prod.map id <|
        Prod.map id fun _ => ()) :=
  Fields.Drops.last _ |>.cons (by decide) _ _ |>.cons (by decide) _ _ |>.cons (by decide) _ _
    |>.cons (by decide) _ _ |>.cons (by decide) _ _ |>.cons (by decide) _ _
    |>.cons (by decide) _ _

/-- From the text of an object its metadata are read, whatever else is in it. -/
lemma ofText_of_object {text : String} (hroot : OpensObject text) {o : ConfigObject}
    (h : ConfigObject.shape.ofText text = .ok o) : shape.ofText text = .ok o.metadata := by
  obtain ⟨u, hu⟩ := List.head?_eq_some_iff.mp hroot
  obtain ⟨rest, hgives, hend⟩ := Json.Reader.run_eq_ok_iff.mp h
  obtain ⟨row, hrow, rfl⟩ := Json.Reader.gives_map_iff.mp hgives
  have hkept := drops_spec.gives_record "ConfigMeta" hu hrow
  exact Json.Reader.run_eq_ok_iff.mpr ⟨rest, hkept.map _, hend⟩

/-- Metadata are written as an object with them, without its payload. -/
lemma encode_without_spec (o : ConfigObject) :
    (ConfigObject.shape.encode o).without "spec" = shape.encode o.metadata :=
  congrArg Json.object (drops_spec.encode o.toRow)

lemma lawful_shape : shape.Lawful :=
  ⟨by decide, Presence.lawful_text, trivial, Presence.lawful_text, trivial, Presence.lawful_text,
    trivial, Presence.lawful_text, trivial, lawful_textsField, trivial, lawful_textsField, trivial,
    Presence.lawful_text, trivial, trivial⟩

lemma textual_shape : shape.Textual := by
  simp [shape, fields, Shape.Textual, Fields.Textual]

/-- **The two layouts of metadata agree.**  Of every text of an object that is read as a
configuration object, the metadata are read as those of the object; every object is written as its
metadata are, apart from the member for the payload; and metadata are read back from their text. -/
theorem spellings_agree :
    (∀ (text : String) (o : ConfigObject), OpensObject text →
      ConfigObject.shape.ofText text = .ok o → shape.ofText text = .ok o.metadata) ∧
    (∀ o : ConfigObject,
      (ConfigObject.shape.encode o).without "spec" = shape.encode o.metadata ∧
        ((ConfigObject.shape.encode o).without "spec").render = shape.toText o.metadata) ∧
    ∀ m : Metadata, shape.ofText (shape.toText m) = .ok m := by
  refine ⟨fun text o hroot h => ofText_of_object hroot h, fun o => ⟨encode_without_spec o, ?_⟩,
    fun m => ?_⟩
  · rw [encode_without_spec, Shape.toText]
  · exact Shape.ofText_toText textual_shape lawful_shape (by decide) m

/-- Fields in another order, a field that is unknown, a label that comes twice, and numbers and a
surrogate pair in the payload. -/
theorem spellings_agree_shuffled :
    let text := " \x7b \"spec\" : [1.5e3, \"\\ud83d\\ude00\"], \"labels\":\x7b\"b\":\"c\",\"b\":\"d\"\x7d,
      \"x\":[\x7b\x7d], \"name\":\"a\" \x7d "
    ∃ o, o.metadata = { name := "a", labels := .ofList [("b", "d")] } ∧
      OpensObject text ∧ ConfigObject.shape.ofText text = .ok o ∧
        shape.ofText text = .ok o.metadata := by
  intro text
  have hroot : OpensObject text := by
    rw [OpensObject]
    decide +kernel
  have hread : (ConfigObject.shape.ofText text).toOption.map ConfigObject.metadata =
      some { name := "a", labels := .ofList [("b", "d")] } := by
    decide +kernel
  obtain ⟨o, ho, hmetadata⟩ := Option.map_eq_some_iff.mp hread
  have hok : ConfigObject.shape.ofText text = .ok o := by
    cases h : ConfigObject.shape.ofText text with
    | error e =>
      rw [h] at ho
      cases ho
    | ok o' =>
      rw [h] at ho
      cases ho
      rfl
  exact ⟨o, hmetadata, hroot, hok, spellings_agree.1 text o hroot hok⟩

/-- A payload out of range is read over. -/
example :
    let text := "\x7b\"name\":\"a\",\"spec\":1e400\x7d"
    (ConfigObject.shape.ofText text).toOption = none ∧
      (shape.ofText text).toOption = some { name := "a" } := by
  decide +kernel

end Metadata

end ConfigRegistry
