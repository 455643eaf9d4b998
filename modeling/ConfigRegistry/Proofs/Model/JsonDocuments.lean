/-
# Entries as JSON documents

The JSON text of an entry is read as a YAML document, too.  It reads as the entry if YAML can carry
the strings in it as JSON writes them (`Descriptor.ofYaml_toText`).  Not every string is like that:
JSON leaves characters as they are that no YAML text may have, and a text with one of them is
refused.
-/
import ConfigRegistry.Proofs.Catalog.Kinds
import ConfigRegistry.Proofs.Model.Documents
import ConfigRegistry.Proofs.Yaml.Node.Flow

namespace ConfigRegistry

open Yaml (Document isAllowed jsonCarries jsonStyle)

/-! ## Characters that are not allowed -/

/-- A text with a character that is not allowed holds no document. -/
lemma Yaml.Document.ofText_of_not_isAllowed {text : String}
    (h : ∃ c ∈ text.toList, isAllowed c = false) :
    Document.ofText text = .error .controlCharacter := by
  have hall : text.toList.all isAllowed = false := by
    rw [List.all_eq_false]
    obtain ⟨c, hc, hrefused⟩ := h
    exact ⟨c, hc, ne_true_of_eq_false hrefused⟩
  have htokens : Yaml.Token.ofText text.toList = [.broken .controlCharacter] := by
    rw [Yaml.Token.ofText, Yaml.Glyph.ofText, hall]
    rfl
  rw [Document.ofText, Document.allOfText, htokens]
  rfl

namespace Descriptor

variable {d : Descriptor} {e : Entry}

/-- Nothing is read from a text with a character that is not allowed. -/
lemma ofYaml_of_not_isAllowed (d : Descriptor) {text : String}
    (h : ∃ c ∈ text.toList, isAllowed c = false) :
    (d.ofYaml text).outcome = .error (.parse .controlCharacter) := by
  have hobject : ConfigObject.shape.ofYaml text = .error .controlCharacter := by
    rw [Shape.ofYaml, Document.ofText_of_not_isAllowed h]
    rfl
  rw [ofYaml, hobject, Audited.outcome_bind, Audited.outcome_ofExcept]
  rfl

/-- The JSON text of an entry reads as the entry if its strings do. -/
lemma Accepts.ofYaml_shown (h : d.Accepts e)
    (hcarry : jsonCarries (ConfigObject.shape.encode e.shown) = true) :
    (d.ofYaml (ConfigObject.shape.toText e.shown)).outcome = .ok e := by
  have hstyle : Yaml.TellsTexts jsonStyle := fun _ hs => by cases hs
  obtain ⟨members, -, hmembers⟩ := ConfigObject.exists_encode_eq_object e.spec_shown_ne_null
  have hfits := ConfigObject.fits_encode e.fits_spec_shown
  rw [hmembers] at hfits hcarry
  have hdocument := Document.ofText_print hfits.numberless hcarry
  rw [← hmembers] at hdocument
  exact h.ofYaml_of_ofText hstyle hdocument

/-- **Entries survive being written as JSON as far as YAML can carry their strings.**  An entry that
is accepted can be written as an object.  The JSON text of the object reads as the entry, as YAML,
if every string in it is read as itself; if it has a character that is not allowed in YAML, nothing
is read from it. -/
theorem ofYaml_toText (d : Descriptor) (e : Entry) (h : ∃ s, (d.validate e).outcome = .ok s) :
    ∃ o, d.toObject e = .ok o ∧
      (jsonCarries (ConfigObject.shape.encode o) = true →
        (d.ofYaml (ConfigObject.shape.toText o)).outcome = .ok e) ∧
      ((∃ c ∈ (ConfigObject.shape.toText o).toList, isAllowed c = false) →
        (d.ofYaml (ConfigObject.shape.toText o)).outcome = .error (.parse .controlCharacter)) := by
  have haccepts : d.Accepts e := h
  exact ⟨e.shown, haccepts.toObject_eq, haccepts.ofYaml_shown, d.ofYaml_of_not_isAllowed⟩

end Descriptor

/-- A class whose name has characters that JSON escapes, and line separators that it does not. -/
def Broker.separated : Entry := Broker.classEntry "a" "\u2028\n\x01\"---\\\u2029" "null" ""

theorem ofYaml_toText_separated :
    (∃ s, (Broker.known.validate Broker.separated).outcome = .ok s) ∧
      ∃ o, Broker.known.toObject Broker.separated = .ok o ∧
        jsonCarries (ConfigObject.shape.encode o) = true ∧
        (Broker.known.ofYaml (ConfigObject.shape.toText o)).outcome = .ok Broker.separated := by
  have haccepts : Broker.known.Accepts Broker.separated :=
    ⟨_, Descriptor.validate_outcome_eq_ok_iff.mpr
      ⟨Broker.schemaOfType?_serviceClassType, by decide +kernel⟩⟩
  obtain ⟨o, ho, hread, -⟩ := Descriptor.ofYaml_toText Broker.known Broker.separated haccepts
  have hcarry : jsonCarries (ConfigObject.shape.encode o) = true := by
    obtain rfl := Except.ok.inj (haccepts.toObject_eq.symm.trans ho)
    decide +kernel
  exact ⟨haccepts, o, ho, hcarry, hread hcarry⟩

/-- A class whose name has a control character that JSON does not escape. -/
def Broker.deleting : Entry where
  metadata := { typeName := Broker.serviceClassType, name := "a\x7fb" }
  payload := .blank .serviceClass

/-- Not every accepted entry is read back from its JSON text. -/
theorem not_forall_ofYaml_toText :
    ¬∀ (d : Descriptor) (e : Entry), (∃ s, (d.validate e).outcome = .ok s) →
      ∃ o, d.toObject e = .ok o ∧ (d.ofYaml (ConfigObject.shape.toText o)).outcome = .ok e := by
  intro h
  have haccepts : Broker.known.Accepts Broker.deleting :=
    ⟨_, Descriptor.validate_outcome_eq_ok_iff.mpr
      ⟨Broker.schemaOfType?_serviceClassType, by decide +kernel⟩⟩
  obtain ⟨o, ho, hread⟩ := h Broker.known Broker.deleting haccepts
  obtain rfl := Except.ok.inj (haccepts.toObject_eq.symm.trans ho)
  have hrefused : ∃ c ∈ (ConfigObject.shape.toText Broker.deleting.shown).toList,
      isAllowed c = false := ⟨'\x7f', by decide +kernel, by decide⟩
  rw [Descriptor.ofYaml_of_not_isAllowed _ hrefused] at hread
  cases hread

end ConfigRegistry
