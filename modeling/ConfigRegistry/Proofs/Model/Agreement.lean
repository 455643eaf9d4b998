/-
# Texts and trees of payloads

A payload is read from a text in one pass, as it stands there.  From a generic tree it is read by
way of the text of the tree, in which the members of objects are sorted, and which has forgotten all
but the last value of a repeated key.  The two ways agree on every text that is an object and
repeats no key (`Schema.ofText_agrees_ofTree`), for a payload is read from a text exactly if it is
read from the tree that the text is written as.  A text that repeats a key is where they part: as a
text it is no payload, and as a tree it may be one.
-/
import ConfigRegistry.Proofs.Json.Written
import ConfigRegistry.Proofs.Model.Codec
import ConfigRegistry.Proofs.Shape.Recognition

namespace ConfigRegistry

open Json (Written parse parse_eq_ok_iff)

/-- A value is read from a text exactly if it is read from the tree that the text is written as. -/
theorem Shape.ofText_eq_ok_iff {α : Type} {shape : Shape α} (hplain : shape.Plain)
    (hheight : shape.height < Json.Reader.depthLimit) {text : String} {a : α} :
    shape.ofText text = .ok a ↔ ∃ j, Written j text ∧ shape.ofTree j = .ok a := by
  rw [ofText, Json.Reader.run_eq_ok_iff]
  constructor
  · rintro ⟨rest, hgives, hend⟩
    obtain ⟨j, hspells, hj⟩ := shape.exists_spells hplain hgives
    exact ⟨j, ⟨rest, hspells, hend⟩, hj⟩
  · rintro ⟨j, ⟨rest, hspells, hend⟩, hj⟩
    have hnesting := Nat.lt_of_le_of_lt (shape.fits hplain hj).nesting_le hheight
    exact ⟨rest, shape.reads hplain hj hnesting hspells, hend⟩

lemma Kind.knowsKeys_shape (k : Kind) : k.shape.KnowsKeys := by
  cases k <;> simp [shape, ServiceClass.shape, ServicePlan.shape, PairsConfig.shape,
    SwitchConfig.shape, CatalogEntry.shape, Deployment.shape, ConfigPair.shape, Shape.KnowsKeys,
    Fields.KnowsKeys]

namespace Json

/-- The first token of the text opens an object. -/
def OpensObject (text : String) : Prop := (afterBlanks text.toList).head? = some '{'

/-- No object in the text has a key twice. -/
def RepeatsNoKey (text : String) : Prop := ∀ j, Written j text → j.DistinctKeys

lemma Written.exists_eq_object {j : Json} {text : String} (h : Written j text)
    (hroot : OpensObject text) : ∃ members, j = object members := by
  obtain ⟨rest, hspells, -⟩ := h
  obtain ⟨t, ht⟩ := List.head?_eq_some_iff.mp hroot
  obtain ⟨members, _, rfl, -⟩ := hspells.of_brace ht
  exact ⟨members, rfl⟩

lemma Written.repeatsNoKey {j : Json} {text : String} (h : Written j text) (hj : j.DistinctKeys) :
    RepeatsNoKey text := by
  intro j' hj'
  rw [h.unique hj']
  exact hj

end Json

namespace Schema

variable {s : Schema} {k : Kind}

/-- From the text of a tree a payload is read as from the tree itself. -/
lemma ofText_render_eq_ok_iff (hs : s.payloadType = .known k) {j : Json} {m : Message} :
    s.ofText j.render = .ok m ↔ ∃ body, k.shape.ofTree j = .ok body ∧ m = ⟨k, body⟩ := by
  simp only [ofText_eq_ok_iff_of_known hs,
    Shape.ofText_render_iff k.plain_shape k.height_shape_lt]

/-- From the sorted tree of an object a payload is read as its layout reads the object itself. -/
lemma ofTree_sorted_object_eq_ok_iff (hs : s.payloadType = .known k)
    {members : List (String × Json)} (hmembers : (Json.object members).DistinctKeys)
    {m : Message} : s.ofTree (Json.object members).sorted = .ok m ↔
      ∃ body, k.shape.ofTree (.object members) = .ok body ∧ m = ⟨k, body⟩ := by
  have hsorted : ∀ body, k.shape.ofTree (Json.object members).sorted = .ok body ↔
      k.shape.ofTree (.object members) = .ok body :=
    fun _ => k.shape.ofTree_sorted_iff k.plain_shape k.lawful_shape hmembers
  show s.ofText (Json.object members).sorted.render = .ok m ↔ _
  simp only [ofText_render_eq_ok_iff hs, hsorted]

/-- **Texts and trees agree.**  Take a schema whose kind of payloads is known, and a text that is an
object.  A payload is read from the text exactly if the text is read as a tree, no object in it has
a key twice, and the payload is read from the tree. -/
theorem ofText_agrees_ofTree (hs : s.payloadType = .known k) {text : String}
    (hroot : Json.OpensObject text) (m : Message) :
    s.ofText text = .ok m ↔
      ∃ v, parse text = .ok v ∧ Json.RepeatsNoKey text ∧ s.ofTree v = .ok m := by
  rw [ofText_eq_ok_iff_of_known hs]
  constructor
  · rintro ⟨body, hbody, rfl⟩
    obtain ⟨j, hwritten, hj⟩ :=
      (Shape.ofText_eq_ok_iff k.plain_shape k.height_shape_lt).mp hbody
    obtain ⟨members, rfl⟩ := hwritten.exists_eq_object hroot
    -- a layout that knows its keys reads no key twice, and it is not high
    have hdistinct := k.shape.distinctKeys_of_ofTree k.knowsKeys_shape k.lawful_shape hj
    have hnesting :=
      Nat.lt_of_le_of_lt (k.shape.fits k.plain_shape hj).nesting_le k.height_shape_lt
    exact ⟨_, parse_eq_ok_iff.mpr ⟨_, hwritten, hnesting, rfl⟩, hwritten.repeatsNoKey hdistinct,
      (ofTree_sorted_object_eq_ok_iff hs hdistinct).mpr ⟨body, hj, rfl⟩⟩
  · rintro ⟨v, hparse, hkeys, hv⟩
    obtain ⟨j, hwritten, -, rfl⟩ := parse_eq_ok_iff.mp hparse
    obtain ⟨members, rfl⟩ := hwritten.exists_eq_object hroot
    obtain ⟨body, hj, rfl⟩ := (ofTree_sorted_object_eq_ok_iff hs (hkeys _ hwritten)).mp hv
    exact ⟨body, (Shape.ofText_eq_ok_iff k.plain_shape k.height_shape_lt).mpr
      ⟨_, hwritten, hj⟩, rfl⟩

/-- A schema of service plans. -/
def ofPlans : Schema :=
  { typeName := "plan", plural := "plans", payloadType := .known .servicePlan }

theorem ofText_agrees_spaced :
    let text := " \x7b \"s\\u0065rvices\" : [\"a\"], \"plan\":null \x7d "
    let m : Message := ⟨.servicePlan, { services := ["a"] }⟩
    ofPlans.payloadType = .known .servicePlan ∧ Json.OpensObject text ∧
      ofPlans.ofText text = .ok m ∧
        ∃ v, parse text = .ok v ∧ Json.RepeatsNoKey text ∧ ofPlans.ofTree v = .ok m := by
  intro text m
  have hs : ofPlans.payloadType = .known .servicePlan := rfl
  have hroot : Json.OpensObject text := by
    rw [Json.OpensObject]
    decide +kernel
  have hread : ofPlans.ofText text = .ok m := by decide +kernel
  exact ⟨hs, hroot, hread, (ofText_agrees_ofTree hs hroot m).mp hread⟩

/-- A text with a key that comes twice is no payload, but the tree that it is read as is one. -/
example :
    let text := "\x7b\"services\":[\"a\"],\"services\":[\"b\"]\x7d"
    (ofPlans.ofText text).toOption = none ∧
      (parse text).toOption.map ofPlans.ofTree =
        some (.ok ⟨.servicePlan, { services := ["b"] }⟩) := by
  decide +kernel

end Schema

end ConfigRegistry
