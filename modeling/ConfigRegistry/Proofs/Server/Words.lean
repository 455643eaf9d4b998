/-
# Words in configuration files

A name may be spelled like something else than a text: a class may be called `null`, and its
namespace `0x1F`.  In a generic tree such a word would be null, or a number; but the metadata of an
object are texts, and a field of them has the word itself (`Broker.words_readAsWritten`).  So a file
with such an object puts it into a store under just this name and namespace.
-/
import ConfigRegistry.Proofs.Model.Lines
import ConfigRegistry.Proofs.Server.Loading

namespace ConfigRegistry

open Yaml (BareWord EntryLines IdleLine LineKey Margin Document)

/-! ## Files with one object -/

namespace Loading

variable {fs : FileSystem} {path : Path} {s : MemoryStore} {text : String}
  {d : Document} {o : ConfigObject} {e : Entry}

/-- A file with one document is loaded by the creation of its object. -/
lemma file_of_singleton (revisions : Revisions) (htext : fs.readText path = .ok text)
    (hdocuments : Document.allOfText text = [.ok d])
    (hobject : (Shape.option ConfigObject.shape).ofDocument d = .ok (some o))
    (hentry : (s.descriptor.ofObject o).outcome = .ok e) (hfree : s.get? e.identity = none) :
    let l := file revisions fs { store := s } path
    l.outcome = .ok 1 ∧ l.store = s.put .add (e.withRevision (revisions 0)) := by
  intro l
  have hl : l = Loading.object revisions path 0 o { store := s } := by
    have hreading : reading (.ok d) = .ok (some o) := hobject
    show file revisions fs { store := s } path = _
    rw [file_of_readText rfl htext, hdocuments, documents_singleton rfl, document_eq, hreading]
  obtain ⟨hfailure, hadds⟩ : l.failure = none ∧ Adds revisions { store := s } [e] l := by
    rw [hl]
    exact object_of_free hentry hfree
  refine ⟨outcome_eq_ok_iff.mpr ⟨hfailure, hadds.created_eq⟩, ?_⟩
  obtain ⟨s', hcreate, hnil⟩ := bind_eq_ok_iff.mp hadds.createAll_eq
  cases hnil
  exact (MemoryStore.create_eq_ok hcreate).2.2

end Loading

namespace Broker

/-- For an object of either type, no payload counts as the one in which nothing is given. -/
lemma exists_schema_of_null {typeName : String}
    (h : typeName = serviceClassType ∨ typeName = servicePlanType) :
    ∃ s payload, known.schemaOfType? typeName = some s ∧ s.ofTree .null = .ok payload ∧
      (s.validate payload).outcome = .ok () := by
  rcases h with rfl | rfl
  · exact ⟨serviceClassSchema, .blank .serviceClass, schemaOfType?_serviceClassType, rfl, by decide⟩
  · exact ⟨servicePlanSchema, .blank .servicePlan, schemaOfType?_servicePlanType, rfl, by decide⟩

/-- **Words in metadata are read as they are written.**  Take any lines of an object of either type
that has no payload: the entry that they describe is accepted, and wherever a word stands in them
without quotes, as the name, a namespace, the revision, or under a label or an annotation, the entry
has this word in that place, whatever the word is spelled like.  A file with these lines is loaded
into a store in which the identity is free, and the store then holds the entry under this name and
namespace. -/
theorem words_readAsWritten (idle : List IdleLine) {lines : List EntryLines} {typeName : String}
    (hlegible : Metadata.Legible lines)
    (htype : ∃ e ∈ lines, e.name = "type" ∧ e.text? = some typeName)
    (hknown : typeName = serviceClassType ∨ typeName = servicePlanType) :
    ∃ e : Entry, (known.ofYaml (EntryLines.document idle lines)).outcome = .ok e ∧
      e.metadata.typeName = typeName ∧
      (∀ (field : LineKey) (gap : ℕ) (w : BareWord) (margin : Margin),
        .line field (.text gap (.word w) margin) ∈ lines →
        (field.name = "name" → e.metadata.name = w.text) ∧
          (field.name = "namespace" → e.metadata.space = w.text) ∧
          (field.name = "istioNamespace" → e.metadata.controlSpace = w.text) ∧
          (field.name = "resourceVersion" → e.metadata.revision = w.text)) ∧
      (∀ (field : LineKey) (behind : Margin) (deeper : ℕ) (first : EntryLines)
          (more before after : List EntryLines) (key : LineKey) (gap : ℕ) (w : BareWord)
          (margin : Margin), .block field behind deeper first more ∈ lines →
        first :: more = before ++ .line key (.text gap (.word w) margin) :: after →
        (∀ x ∈ after, x.name ≠ key.name) →
        (field.name = "labels" → e.metadata.labels.find? key.name = some w.text) ∧
          (field.name = "annotations" → e.metadata.annotations.find? key.name = some w.text)) ∧
      ∀ (revisions : Loading.Revisions) (fs : FileSystem) (path : Path) (s : MemoryStore),
        s.descriptor = known → fs.readText path = .ok (EntryLines.document idle lines) →
        s.get? e.identity = none →
        let l := Loading.file revisions fs { store := s } path
        l.outcome = .ok 1 ∧ l.store.get? ⟨typeName, e.metadata.space, e.metadata.name⟩ =
          some (e.withRevision (revisions 0)) := by
  obtain ⟨x, hx, hname, htext⟩ := htype
  obtain ⟨first, more, rfl⟩ := List.exists_cons_of_ne_nil (List.ne_nil_of_mem hx)
  set lines := first :: more
  have htypeName : (Metadata.ofLines lines).typeName = typeName := by
    simp only [Metadata.ofLines, hlegible.textOf_eq hx hname (by decide), htext, Option.getD_some]
  obtain ⟨schema, payload, hschema, hpayload, hvalid⟩ := exists_schema_of_null hknown
  rw [← htypeName] at hschema
  obtain ⟨hobject, hyaml⟩ := Descriptor.ofYaml_document idle hlegible hschema hpayload hvalid
  refine ⟨⟨Metadata.ofLines lines, payload⟩, hyaml, htypeName, ?words, ?entries, ?loaded⟩
  case words =>
    intro field gap w margin hline
    have hfield {f : String} (hf : f ∈ Metadata.textNames) (hname : field.name = f) :
        (Metadata.textOf lines f).getD "" = w.text := by
      rw [hlegible.textOf_eq hline hname hf]
      rfl
    exact ⟨hfield (by decide), hfield (by decide), hfield (by decide), hfield (by decide)⟩
  case entries =>
    intro field behind deeper first' more' before after key gap w margin hblock hsplit hlast
    have hfield {f : String} (hf : f ∈ Metadata.mapNames) (hname : field.name = f) :
        ((Metadata.mapOf lines f).getD ∅).find? key.name = some w.text :=
      hlegible.find?_mapOf hblock hname hf hsplit rfl hlast
    exact ⟨hfield (by decide), hfield (by decide)⟩
  case loaded =>
    intro revisions fs path s hdescriptor hfile hfree l
    rw [← hdescriptor] at hobject
    obtain ⟨houtcome, hstore⟩ := Loading.file_of_singleton revisions hfile
      (Document.allOfText_document idle first more)
      (ConfigObject.ofDocument_option_ofLines hlegible)
      hobject hfree
    refine ⟨houtcome, ?_⟩
    rw [hstore, MemoryStore.get?_put, ← htypeName]
    exact if_pos rfl

/-- A class whose name and namespaces, revision, label and annotation are words that would be no
texts in a generic tree. -/
def wordLines : List EntryLines :=
  [.line (.printed "type" (by decide)) (.text 0 (.quoted serviceClassType (by decide)) .newLine),
    .line (.printed "name" (by decide)) (.text 0 (.word ⟨"null", by decide⟩) .newLine),
    .line (.printed "namespace" (by decide))
      (.text 2 (.word ⟨"0x1F", by decide⟩) ⟨1, [.empty 0, .comment 1 " octal" (by decide)]⟩),
    .line (.printed "istioNamespace" (by decide)) (.text 0 (.word ⟨"0o17", by decide⟩) .newLine),
    .line (.printed "resourceVersion" (by decide)) (.text 0 (.word ⟨"1.5", by decide⟩) .newLine),
    .block (.printed "labels" (by decide)) .newLine 1
      (.line (.word ⟨"1.0", by decide⟩ (by decide)) (.text 0 (.word ⟨"true", by decide⟩) .newLine))
      [],
    .line (.printed "status" (by decide))
      (.printed (.array [.string "a: b", .null]) ⟨trivial, trivial, trivial⟩),
    .block (.printed "annotations" (by decide)) .newLine 3
      (.line (.printed "note" (by decide)) (.printed (.string "a: b") trivial))
      [.line (.word ⟨"size", by decide⟩ (by decide))
        (.text 0 (.word ⟨"99999999999999999999", by decide⟩) .newLine)]]

/-- A word counts as it is written also where it is spelled like null, a truth value or a number. -/
theorem words_readAsWritten_spelled :
    let text := "# a class\ntype: \"service-class\"\nname: null\nnamespace:   0x1F \n\n # octal\n" ++
      "istioNamespace: 0o17\nresourceVersion: 1.5\nlabels:\n  1.0: true\nstatus:\n- 'a: b'\n" ++
      "- null\nannotations:\n    note: 'a: b'\n    size: 99999999999999999999\n"
    let fs : FileSystem :=
      { readDirectory := fun _ => .ok [], isFile := fun _ => true, read := fun _ => .ok text.toUTF8 }
    let l := Loading.file (fun n => toString n) fs { store := MemoryStore.empty known } ⟨"a.yaml"⟩
    EntryLines.document [.comment 0 " a class" (by decide)] wordLines = text ∧
      Metadata.Legible wordLines ∧
      ∃ e : Entry, (known.ofYaml text).outcome = .ok e ∧
        e.metadata.name = "null" ∧ e.metadata.space = "0x1F" ∧ e.metadata.controlSpace = "0o17" ∧
        e.metadata.revision = "1.5" ∧ e.metadata.labels.find? "1.0" = some "true" ∧
        e.metadata.annotations.find? "size" = some "99999999999999999999" ∧
        l.outcome = .ok 1 ∧
        l.store.get? ⟨serviceClassType, "0x1F", "null"⟩ = some (e.withRevision "0") := by
  intro text fs l
  have htext : EntryLines.document [.comment 0 " a class" (by decide)] wordLines = text := by
    decide +kernel
  have hlegible : Metadata.Legible wordLines :=
    ⟨by decide +kernel, by decide +kernel, by decide +kernel, by decide +kernel⟩
  have hfile : fs.readText ⟨"a.yaml"⟩ =
      .ok (EntryLines.document [.comment 0 " a class" (by decide)] wordLines) := by decide +kernel
  obtain ⟨e, he, -, hwords, hentries, hloaded⟩ := words_readAsWritten
    [.comment 0 " a class" (by decide)] hlegible ⟨_, .head _, rfl, rfl⟩ (.inl rfl)
  have hname := (hwords _ 0 ⟨"null", by decide⟩ _ (List.mem_of_getElem? (i := 1) rfl)).1 rfl
  have hspace := (hwords _ 2 ⟨"0x1F", by decide⟩ _ (List.mem_of_getElem? (i := 2) rfl)).2.1 rfl
  have hcontrol := (hwords _ 0 ⟨"0o17", by decide⟩ _ (List.mem_of_getElem? (i := 3) rfl)).2.2.1 rfl
  have hrevision := (hwords _ 0 ⟨"1.5", by decide⟩ _ (List.mem_of_getElem? (i := 4) rfl)).2.2.2 rfl
  have hlabel := (hentries _ _ 1 _ [] [] [] _ 0 ⟨"true", by decide⟩ _
    (List.mem_of_getElem? (i := 5) rfl) rfl (by simp)).1 rfl
  have hannotation := (hentries _ _ 3 _ _ [_] [] _ 0 ⟨"99999999999999999999", by decide⟩ _
    (List.mem_of_getElem? (i := 7) rfl) rfl (by simp)).2 rfl
  obtain ⟨houtcome, hheld⟩ :=
    hloaded (fun n => toString n) fs ⟨"a.yaml"⟩ (MemoryStore.empty known) rfl hfile rfl
  rw [hname, hspace] at hheld
  rw [htext] at he
  exact ⟨htext, hlegible, e, he, hname, hspace, hcontrol, hrevision, hlabel, hannotation, houtcome,
    hheld⟩

/-- In a payload each of these words would be something else than a text. -/
example : (["null", "0x1F", "0o17", "true"].map Yaml.resolve) =
      [.null, .integer 31, .integer 15, .bool true] ∧
    Yaml.resolve "1.5" ≠ .text ∧ Yaml.resolve "99999999999999999999" ≠ .text := by
  decide +kernel

end Broker

end ConfigRegistry
