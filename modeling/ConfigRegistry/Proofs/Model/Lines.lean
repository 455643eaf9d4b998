/-
# Objects that are written line by line

The metadata of an object are texts, and maps of texts, so the lines of a mapping tell them as they
are written: a field has the text of its scalar, whatever that scalar would stand for in a generic
tree (`ConfigObject.ofDocument_ofLines`).  All that is asked of the lines is that no field of the
metadata is given twice, that each is given what it can hold, and that there is no payload.  Other
keys may have any values.
-/
import ConfigRegistry.Proofs.Model.Acceptance
import ConfigRegistry.Proofs.Shape.Document
import ConfigRegistry.Proofs.Yaml.Node.Lines

namespace ConfigRegistry

open Yaml (Node Document EntryLines LineKey valuesUnder)

/-! ## Texts of lines -/

namespace Yaml.EntryLines

/-- The name that an entry is given under. -/
def name (e : EntryLines) : String := e.key.name

/-- The text of the value of an entry, if the value is a scalar. -/
def text? (e : EntryLines) : Option String := (e.node : Node Nat).text?

/-- The texts in the value of an entry, if the value is a mapping of scalars. -/
def texts? (e : EntryLines) : Option (List (String × String)) := (e.node : Node Nat).texts?

/-- The entry under a name. -/
def under (name : String) (lines : List EntryLines) : Option EntryLines :=
  lines.find? fun e => e.name == name

variable {f : String} {lines before after : List EntryLines} {e : EntryLines}
  {l : List (String × String)}

lemma text?_key (e : EntryLines) : (e.key.node : Node Nat).text? = some e.name := rfl

lemma valuesUnder_nodes (f : String) (lines : List EntryLines) :
    valuesUnder f (nodes lines) = (lines.filter fun e => e.name == f).map node := by
  induction lines with
  | nil => rfl
  | cons e lines ih =>
    rw [nodes]
    by_cases hname : e.name = f
    · rw [valuesUnder_cons_self (by rw [← hname]; exact e.text?_key), ih]
      simp [hname]
    · rw [valuesUnder_cons_of_ne e.text?_key hname, ih]
      simp [hname]

/-- If a name comes once at most, the entry under it is the only one. -/
lemma filter_eq_toList_under (h : (lines.filter fun e => e.name == f).length ≤ 1) :
    (lines.filter fun e => e.name == f) = (under f lines).toList := by
  rw [under, ← List.head?_filter]
  generalize (lines.filter fun e => e.name == f) = found at h ⊢
  match found, h with
  | [], _ => rfl
  | [e], _ => rfl

lemma under_eq_some (h : (lines.filter fun e => e.name == f).length ≤ 1) (he : e ∈ lines)
    (hname : e.name = f) : under f lines = some e := by
  have hmem : e ∈ lines.filter fun e => e.name == f :=
    List.mem_filter.mpr ⟨he, beq_iff_eq.mpr hname⟩
  rw [filter_eq_toList_under h] at hmem
  exact Option.mem_toList.mp hmem

lemma mem_of_under (h : under f lines = some e) : e ∈ lines ∧ e.name = f :=
  ⟨List.mem_of_find?_eq_some h, by simpa using List.find?_some h⟩

/-- The texts of entries whose values are scalars. -/
def textsOf (lines : List EntryLines) : Option (List (String × String)) :=
  (nodes lines : List (Node Nat × Node Nat)).mapM Node.textEntry?

lemma textsOf_cons_eq_some_iff : textsOf (e :: lines) = some l ↔
    ∃ s more, e.text? = some s ∧ textsOf lines = some more ∧ l = (e.name, s) :: more := by
  have hentry : Node.textEntry? ((e.key.node, e.node) : Node Nat × Node Nat) =
      e.text?.map fun s => (e.name, s) := by
    cases h : e.text? <;> rw [text?] at h <;> simp [Node.textEntry?, h, text?_key]
  rw [textsOf, nodes, List.mapM_cons, hentry, textsOf]
  cases e.text? <;> cases (nodes lines : List (Node Nat × Node Nat)).mapM Node.textEntry? <;>
    simp [eq_comm]

lemma map_fst_of_textsOf (h : textsOf lines = some l) : l.map Prod.fst = lines.map name := by
  induction lines generalizing l with
  | nil =>
    cases h
    rfl
  | cons e lines ih =>
    obtain ⟨s, more, -, hmore, rfl⟩ := textsOf_cons_eq_some_iff.mp h
    rw [List.map_cons, List.map_cons, ih hmore]

/-- The text of an entry counts if no later entry has the same name. -/
lemma find?_ofList_of_textsOf {s : String} (h : textsOf (before ++ e :: after) = some l)
    (hs : e.text? = some s) (hlast : ∀ x ∈ after, x.name ≠ e.name) :
    (SortedMap.ofList l).find? e.name = some s := by
  obtain ⟨l₁, l₂, hsplit, rfl⟩ : ∃ l₁ l₂, textsOf (e :: after) = some l₂ ∧ l = l₁ ++ l₂ := by
    induction before generalizing l with
    | nil => exact ⟨[], l, h, rfl⟩
    | cons b before ih =>
      obtain ⟨t, more, -, hmore, rfl⟩ := textsOf_cons_eq_some_iff.mp h
      obtain ⟨l₁, l₂, hsplit, rfl⟩ := ih hmore
      exact ⟨(b.name, t) :: l₁, l₂, hsplit, rfl⟩
  obtain ⟨s', more, hs', hmore, rfl⟩ := textsOf_cons_eq_some_iff.mp hsplit
  obtain rfl : s = s' := Option.some.inj (hs.symm.trans hs')
  refine SortedMap.find?_ofList_append_cons s ?_
  rw [map_fst_of_textsOf hmore, List.mem_map]
  rintro ⟨x, hx, hname⟩
  exact hlast x hx hname

end Yaml.EntryLines

namespace Metadata

open Yaml

/-- The names of the fields that hold a text. -/
def textNames : List String := ["type", "name", "namespace", "istioNamespace", "resourceVersion"]

/-- The names of the fields that hold texts under keys. -/
def mapNames : List String := ["labels", "annotations"]

/-- Lines of an object without a payload from which the metadata can be told. -/
structure Legible (lines : List EntryLines) : Prop where
  /-- No field of the metadata is given twice. -/
  once : ∀ f ∈ textNames ++ mapNames, (lines.filter fun e => e.name == f).length ≤ 1
  /-- A field for a text is given a scalar. -/
  texts : ∀ e ∈ lines, e.name ∈ textNames → e.text?.isSome = true
  /-- A field for texts under keys is given a mapping of scalars. -/
  maps : ∀ e ∈ lines, e.name ∈ mapNames → e.texts?.isSome = true
  /-- There is no payload. -/
  noSpec : ∀ e ∈ lines, e.name ≠ "spec"

/-- The text under a name. -/
def textOf (lines : List EntryLines) (f : String) : Option String :=
  (EntryLines.under f lines).bind EntryLines.text?

/-- The map under a name. -/
def mapOf (lines : List EntryLines) (f : String) : Option TextMap :=
  ((EntryLines.under f lines).bind EntryLines.texts?).map SortedMap.ofList

/-- The metadata that lines tell. -/
def ofLines (lines : List EntryLines) : Metadata where
  typeName := (textOf lines "type").getD ""
  name := (textOf lines "name").getD ""
  space := (textOf lines "namespace").getD ""
  controlSpace := (textOf lines "istioNamespace").getD ""
  labels := (mapOf lines "labels").getD ∅
  annotations := (mapOf lines "annotations").getD ∅
  revision := (textOf lines "resourceVersion").getD ""

variable {lines : List EntryLines} {f : String} {e : EntryLines} {d : Document} {depth : ℕ}

namespace Legible

lemma valuesUnder_eq (h : Legible lines) (hf : f ∈ textNames ++ mapNames) :
    valuesUnder f (EntryLines.nodes lines) =
      ((EntryLines.under f lines).toList.map EntryLines.node) := by
  rw [EntryLines.valuesUnder_nodes, EntryLines.filter_eq_toList_under (h.once f hf)]

lemma findsAt_text (h : Legible lines) (hf : f ∈ textNames) :
    Fields.FindsAt d depth f .text (EntryLines.nodes lines) (textOf lines f) := by
  have hvalues := h.valuesUnder_eq (List.mem_append_left _ hf)
  cases hunder : EntryLines.under f lines with
  | none => simpa [textOf, hunder, Fields.FindsAt] using hvalues
  | some e =>
    obtain ⟨he, hname⟩ := EntryLines.mem_of_under hunder
    obtain ⟨s, hs⟩ := Option.isSome_iff_exists.mp (h.texts e he (hname ▸ hf))
    have htext : textOf lines f = some s := by rw [textOf, hunder]; exact hs
    rw [htext]
    exact ⟨e.node, by simpa [hunder] using hvalues, Shape.ofNode_text hs⟩

lemma findsAt_texts (h : Legible lines) (hf : f ∈ mapNames) :
    Fields.FindsAt d (depth + 1) f .texts (EntryLines.nodes lines) (mapOf lines f) := by
  have hvalues := h.valuesUnder_eq (List.mem_append_right _ hf)
  cases hunder : EntryLines.under f lines with
  | none => simpa [mapOf, hunder, Fields.FindsAt] using hvalues
  | some e =>
    obtain ⟨he, hname⟩ := EntryLines.mem_of_under hunder
    obtain ⟨l, hl⟩ := Option.isSome_iff_exists.mp (h.maps e he (hname ▸ hf))
    have hmap : mapOf lines f = some (.ofList l) := by rw [mapOf, hunder, Option.bind_some, hl]; rfl
    rw [hmap]
    exact ⟨e.node, by simpa [hunder] using hvalues, Shape.ofNode_texts hl⟩

/-- The entry of a field tells its text. -/
lemma textOf_eq (h : Legible lines) (he : e ∈ lines) (hname : e.name = f) (hf : f ∈ textNames) :
    textOf lines f = e.text? := by
  rw [textOf, EntryLines.under_eq_some (h.once f (List.mem_append_left _ hf)) he hname]
  rfl

/-- The entry of a field tells the texts under its keys. -/
lemma mapOf_eq (h : Legible lines) (he : e ∈ lines) (hname : e.name = f) (hf : f ∈ mapNames) :
    mapOf lines f = e.texts?.map SortedMap.ofList := by
  rw [mapOf, EntryLines.under_eq_some (h.once f (List.mem_append_right _ hf)) he hname]
  rfl

/-- In the block of a field an entry tells the text under its key, if no later one has the same
key. -/
lemma find?_mapOf {field : LineKey} {margin : Margin} {deeper : ℕ} {first : EntryLines}
    {more before after : List EntryLines} {s : String} (h : Legible lines)
    (hblock : .block field margin deeper first more ∈ lines)
    (hname : (EntryLines.block field margin deeper first more).name = f) (hf : f ∈ mapNames)
    (hsplit : first :: more = before ++ e :: after) (hs : e.text? = some s)
    (hlast : ∀ x ∈ after, x.name ≠ e.name) :
    ((mapOf lines f).getD ∅).find? e.name = some s := by
  have htexts : (EntryLines.block field margin deeper first more).texts? =
      EntryLines.textsOf (before ++ e :: after) := by
    rw [← hsplit]
    rfl
  obtain ⟨l, hl⟩ := Option.isSome_iff_exists.mp (h.maps _ hblock (hname ▸ hf))
  rw [h.mapOf_eq hblock hname hf, hl]
  exact EntryLines.find?_ofList_of_textsOf (htexts ▸ hl) hs hlast

end Legible

end Metadata

/-! ## Objects -/

lemma Presence.settle_of_fallback {α : Type} {presence : Presence α} {a : α}
    (h : presence.fallback = some a) (name : String) (o : Option α) :
    presence.settle name o = .ok (o.getD a) := by
  cases o <;> simp [Presence.settle, h]

namespace ConfigObject

open Yaml
open Metadata hiding shape fields toRow

variable {lines : List EntryLines}

/-- What lines tell is read, and there is no payload. -/
lemma ofNode_nodes (h : Legible lines) (d : Document) (depth : ℕ) :
    shape.ofNode d (depth + 2) (.mapping none none (EntryLines.nodes lines)) =
      pure { metadata := ofLines lines } := by
  have hspec : valuesUnder "spec" (EntryLines.nodes lines) = [] := by
    rw [EntryLines.valuesUnder_nodes, List.map_eq_nil_iff, List.filter_eq_nil_iff]
    exact fun e he => by simpa using h.noSpec e he
  have hkeys : ∀ e ∈ (EntryLines.nodes lines : List (Node Nat × Node Nat)),
      ∃ k, e.1.text? = some k := by
    rw [EntryLines.nodes_eq_map]
    rintro _ hmem
    obtain ⟨e, -, rfl⟩ := List.mem_map.mp hmem
    exact ⟨_, e.text?_key⟩
  have hfinds : fields.Finds d (depth + 1) (EntryLines.nodes lines)
      (textOf lines "type", textOf lines "name", textOf lines "namespace",
        textOf lines "istioNamespace", mapOf lines "labels", mapOf lines "annotations",
        textOf lines "resourceVersion", none, ()) :=
    ⟨h.findsAt_text (by decide), h.findsAt_text (by decide), h.findsAt_text (by decide),
      h.findsAt_text (by decide), h.findsAt_texts (by decide), h.findsAt_texts (by decide),
      h.findsAt_text (by decide), hspec, trivial⟩
  have hsettle : fields.settle
      (textOf lines "type", textOf lines "name", textOf lines "namespace",
        textOf lines "istioNamespace", mapOf lines "labels", mapOf lines "annotations",
        textOf lines "resourceVersion", none, ()) = .ok (toRow { metadata := ofLines lines }) := by
    have htext : textField.fallback = some "" := rfl
    have htexts : textsField.fallback = some ∅ := rfl
    simp only [fields, Fields.settle, Presence.settle_of_fallback htext,
      Presence.settle_of_fallback htexts]
    rfl
  have hrecord : (Shape.record "ObjectWire" false fields).ofNode d (depth + 2)
      (.mapping none none (EntryLines.nodes lines)) = pure (toRow { metadata := ofLines lines }) :=
    Shape.ofNode_record (by decide) hkeys hfinds hsettle
  rw [shape, Shape.ofNode.eq_def]
  dsimp only
  rw [hrecord]
  rfl

/-- A document is an object with the metadata that its lines tell. -/
theorem ofDocument_ofLines (h : Legible lines) :
    shape.ofDocument (Document.ofLines lines) = .ok { metadata := ofLines lines } :=
  Shape.ofDocument_of_ofNode (ofNode_nodes h _ 126)

/-- The document is not empty, so it may be asked for an object or nothing. -/
theorem ofDocument_option_ofLines (h : Legible lines) :
    (Shape.option shape).ofDocument (Document.ofLines lines) =
      .ok (some { metadata := ofLines lines }) := by
  have hread := ofNode_nodes h (Document.ofLines lines) 126
  refine Shape.ofDocument_of_ofNode ?_
  rw [Shape.ofNode_option]
  show shape.ofNode _ (126 + 2) (.mapping none none (EntryLines.nodes lines)) >>= _ = _
  rw [hread]
  rfl

end ConfigObject

namespace Descriptor

open Yaml

variable {d : Descriptor} {first : EntryLines} {more : List EntryLines} {s : Schema}
  {payload : Message}

/-- The lines of an object without a payload are the entry of its metadata with the payload that the
schema takes for nothing. -/
theorem ofYaml_document (idle : List IdleLine) (h : Metadata.Legible (first :: more))
    (hs : d.schemaOfType? (Metadata.ofLines (first :: more)).typeName = some s)
    (hpayload : s.ofTree .null = .ok payload) (hvalid : (s.validate payload).outcome = .ok ()) :
    (d.ofObject { metadata := Metadata.ofLines (first :: more) }).outcome =
        .ok ⟨Metadata.ofLines (first :: more), payload⟩ ∧
      (d.ofYaml (EntryLines.document idle (first :: more))).outcome =
        .ok ⟨Metadata.ofLines (first :: more), payload⟩ := by
  have hobject : (d.ofObject { metadata := Metadata.ofLines (first :: more) }).outcome =
      .ok ⟨Metadata.ofLines (first :: more), payload⟩ :=
    ofObject_outcome_eq_ok_iff.mpr ⟨s, hs, hpayload, hvalid, rfl⟩
  have htext : ConfigObject.shape.ofYaml (EntryLines.document idle (first :: more)) =
      .ok { metadata := Metadata.ofLines (first :: more) } := by
    rw [Shape.ofYaml, Document.ofText, Document.allOfText_document]
    exact ConfigObject.ofDocument_ofLines h
  refine ⟨hobject, ?_⟩
  rw [ofYaml, htext]
  exact hobject

end Descriptor

end ConfigRegistry
