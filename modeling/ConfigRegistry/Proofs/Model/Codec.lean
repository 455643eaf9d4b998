/-
# The codec of payloads

A payload survives being written and read, by way of its canonical text as well as by way of its
generic tree.  Of the four kinds of payloads no more is used than that their layouts are plain and
lawful, and far from the nesting at which the readers give up.
-/
import ConfigRegistry.Proofs.Model.Validation
import ConfigRegistry.Proofs.Shape.Sorted
import ConfigRegistry.Proofs.Shape.Text

namespace ConfigRegistry

open Json (parse parse_render)

/-! ## The layouts of payloads -/

namespace Presence

lemma lawful_withDefault {α : Type} (a : α) : (withDefault a).Lawful := by
  intro b h
  cases h

lemma lawful_text : Presence.text.Lawful := by
  intro s h
  rw [String.isEmpty_iff.mp h]
  rfl

lemma lawful_optional {α : Type} : (Presence.optional (α := α)).Lawful := by
  intro o h
  rw [Option.isNone_iff_eq_none.mp h]
  rfl

lemma lawful_items {α : Type} : (Presence.items (α := α)).Lawful := by
  intro l h
  rw [List.isEmpty_iff.mp h]
  rfl

end Presence

open Presence

lemma CatalogEntry.lawful_shape : CatalogEntry.shape.Lawful :=
  ⟨by decide, lawful_text, trivial, lawful_text, trivial, lawful_text, trivial, trivial⟩

lemma Deployment.lawful_shape : Deployment.shape.Lawful :=
  ⟨by decide, lawful_text, trivial, trivial⟩

lemma ConfigPair.lawful_shape : ConfigPair.shape.Lawful :=
  ⟨by decide, lawful_text, trivial, lawful_text, trivial, trivial⟩

/-- An entry that is given is written as an object, even if everything in it is left out. -/
lemma CatalogEntry.encode_ne_null (e : CatalogEntry) : CatalogEntry.shape.encode e ≠ .null :=
  nofun

lemma Deployment.encode_ne_null (d : Deployment) : Deployment.shape.encode d ≠ .null :=
  nofun

namespace Kind

lemma plain_shape (k : Kind) : k.shape.Plain := by
  cases k <;> simp [shape, ServiceClass.shape, ServicePlan.shape, PairsConfig.shape,
    SwitchConfig.shape, CatalogEntry.shape, Deployment.shape, ConfigPair.shape, Shape.Plain,
    Fields.Plain]

lemma height_shape_lt (k : Kind) : k.shape.height < Json.Reader.depthLimit := by
  cases k <;> decide

lemma lawful_shape (k : Kind) : k.shape.Lawful := by
  cases k with
  | serviceClass =>
    have hdeployment := Deployment.lawful_shape
    have hentry := CatalogEntry.lawful_shape
    exact ⟨by decide, lawful_optional, ⟨Deployment.encode_ne_null, hdeployment⟩, lawful_optional,
      ⟨CatalogEntry.encode_ne_null, hentry⟩, trivial⟩
  | servicePlan =>
    have hentry := CatalogEntry.lawful_shape
    exact ⟨by decide, lawful_optional, ⟨CatalogEntry.encode_ne_null, hentry⟩, lawful_items,
      trivial, trivial⟩
  | pairs => exact ⟨by decide, lawful_text, trivial, lawful_items, ConfigPair.lawful_shape, trivial⟩
  | switch => exact ⟨by decide, lawful_withDefault false, trivial, trivial⟩

/-- The names of the fields that a payload of a kind may show. -/
def fieldNames : Kind → List String
  | serviceClass => ["deployment", "entry"]
  | servicePlan => ["plan", "services"]
  | pairs => ["key", "pairs"]
  | switch => ["enabled"]

/-- A payload is written as an object that shows fields of its kind. -/
lemma exists_encode_eq_object_fieldNames (k : Kind) (body : k.Body) :
    ∃ members, k.shape.encode body = .object members ∧ ∀ m ∈ members, m.1 ∈ k.fieldNames := by
  cases k <;> exact ⟨_, rfl, fun m hm =>
    (Fields.keys_encode_sublist _ _).subset (List.mem_map_of_mem hm)⟩

lemma exists_encode_eq_object (k : Kind) (body : k.Body) :
    ∃ members, k.shape.encode body = .object members := by
  obtain ⟨members, hmembers, -⟩ := k.exists_encode_eq_object_fieldNames body
  exact ⟨members, hmembers⟩

end Kind

/-- The canonical JSON text of a payload. -/
def Message.text (m : Message) : String := m.kind.shape.toText m.body

/-! ## The codec of a schema -/

namespace Schema

/-- The canonical text is what every schema of the type of the payload writes. -/
lemma toText_eq_text {s : Schema} {m : Message} (h : m.name = s.messageName) :
    s.toText m = .ok m.text := by
  rw [toText, checkMessage_eq_ok_iff.mpr h]
  rfl

section Known

variable {s : Schema} {k : Kind}

lemma toText_eq_of_known (hs : s.payloadType = .known k) (body : k.Body) :
    s.toText ⟨k, body⟩ = .ok (k.shape.encode body).render :=
  toText_eq_text (by rw [messageName, hs]; rfl)

lemma toTree_eq_of_known (hs : s.payloadType = .known k) (body : k.Body) :
    s.toTree ⟨k, body⟩ = .ok (k.shape.encode body).sorted := by
  obtain ⟨hnumberless, hnesting⟩ := Shape.fits_encode_of_plain k.plain_shape k.lawful_shape body
  have hparse := parse_render hnumberless (Nat.lt_of_le_of_lt hnesting k.height_shape_lt)
  rw [toTree, toText_eq_of_known hs]
  show (parse (k.shape.encode body).render).mapError _ = _
  rw [hparse]
  rfl

/-- A payload is read from a text as its layout says. -/
lemma ofText_of_known (hs : s.payloadType = .known k) (text : String) :
    s.ofText text =
      ((k.shape.ofText text).mapError fun fault => .decoding (.json fault text)).map
        fun body => ⟨k, body⟩ := by
  have hkind : s.kind = .ok k := by rw [kind, hs]; rfl
  rw [ofText, hkind]
  show (k.shape.ofText text).mapError _ >>= _ = _
  cases k.shape.ofText text <;> rfl

/-- If the kind of payloads is known, a text is refused only because it cannot be decoded. -/
lemma decoding_of_ofText (hs : s.payloadType = .known k) {text : String} {fault : ModelError}
    (h : s.ofText text = .error fault) : ∃ cause, fault = .decoding cause := by
  rw [ofText_of_known hs] at h
  cases htext : k.shape.ofText text with
  | error fault' =>
    rw [htext] at h
    exact ⟨_, (Except.error.inj h).symm⟩
  | ok body =>
    rw [htext] at h
    cases h

/-- A payload is read from a text exactly if its layout reads it. -/
lemma ofText_eq_ok_iff_of_known (hs : s.payloadType = .known k) {text : String} {m : Message} :
    s.ofText text = .ok m ↔ ∃ body, k.shape.ofText text = .ok body ∧ m = ⟨k, body⟩ := by
  rw [ofText_of_known hs]
  cases k.shape.ofText text with
  | error fault => simp [Except.mapError, Except.map]
  | ok body => simp [Except.mapError, Except.map, eq_comm]

/-- A payload is read from the printed text of any tree that its layout accepts. -/
lemma ofText_render_of_known (hs : s.payloadType = .known k) {j : Json} {body : k.Body}
    (h : k.shape.ofTree j = .ok body) : s.ofText j.render = .ok ⟨k, body⟩ :=
  (ofText_eq_ok_iff_of_known hs).mpr
    ⟨body, Shape.ofText_render k.plain_shape k.height_shape_lt h, rfl⟩

end Known

/-- A payload of the kind that a schema names is read back from its canonical text and from its
generic tree, and neither fails to be written. -/
theorem codec_roundTrip (typeName plural : String) (validator : Option Validator) (m : Message) :
    let s : Schema := ⟨typeName, plural, .known m.kind, validator⟩
    (∃ text, s.toText m = .ok text ∧ s.ofText text = .ok m) ∧
      ∃ members, s.toTree m = .ok (.object members) ∧ s.ofTree (.object members) = .ok m := by
  intro s
  obtain ⟨k, body⟩ := m
  have hs : s.payloadType = .known k := rfl
  have hlawful := k.lawful_shape
  have hread := k.shape.ofTree_encode hlawful body
  constructor
  · exact ⟨_, toText_eq_of_known hs body, ofText_render_of_known hs hread⟩
  · -- the tree is read by way of its text, so it is enough that the layout accepts it
    have hdistinct := k.shape.distinctKeys_encode k.plain_shape hlawful body
    have hsorted := (k.shape.ofTree_sorted_iff k.plain_shape hlawful hdistinct).mpr hread
    have htree := toTree_eq_of_known hs body
    obtain ⟨members, hmembers⟩ := k.exists_encode_eq_object body
    rw [hmembers] at hsorted htree
    exact ⟨Json.sortedMembers [] members, htree, ofText_render_of_known hs hsorted⟩

end Schema

end ConfigRegistry
