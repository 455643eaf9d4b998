/-
# What validation accepts

Validation of a payload is a row of checks, the first of which to fail decides.  Here stands what
it takes to pass them all: the names of the schema are labels, the payload is of the kind that the
schema names, and the validator, if there is one, has no objection.  An entry is accepted by a
descriptor if the schema of its type accepts its payload.
-/
import Mathlib.Tactic.Common
import ConfigRegistry.Model.Descriptor

namespace ConfigRegistry

lemma Kind.messageName_injective : Function.Injective Kind.messageName := by
  intro k l h
  cases k <;> cases l <;> first | rfl | (simp [Kind.messageName] at h)

namespace Schema

variable {s : Schema} {m : Message}

lemma checkMessage_eq_ok_iff : s.checkMessage m = .ok () ↔ m.name = s.messageName := by
  simp [checkMessage]

/-- The structural checks ask for labels as names, and for a payload of the kind of the schema. -/
lemma checkStructure_eq_ok_iff :
    s.checkStructure m = .ok () ↔
      isLabel s.typeName = true ∧ isLabel s.plural = true ∧ s.payloadType = .known m.kind := by
  rw [checkStructure]
  by_cases htype : isLabel s.typeName = true
  · by_cases hplural : isLabel s.plural = true
    · simp only [htype, hplural, Bool.not_true, Bool.false_eq_true, if_false, true_and, kind]
      cases hp : s.payloadType with
      | unknown name => simp [PayloadType.kind?, bind, Except.bind]
      | known k =>
        simp only [PayloadType.kind?, bind, Except.bind, checkMessage_eq_ok_iff, messageName, hp,
          PayloadType.messageName, Message.name, PayloadType.known.injEq]
        exact ⟨fun h => (Kind.messageName_injective h).symm, fun h => by rw [h]⟩
    · simp [htype, hplural]
  · simp [htype]

lemma validate_outcome_eq_ok_iff :
    (s.validate m).outcome = .ok () ↔
      s.checkStructure m = .ok () ∧ (s.runValidator m).outcome = .ok () := by
  rw [validate, Audited.outcome_bind, Audited.outcome_ofExcept]
  cases s.checkStructure m with
  | error fault => simp [Except.bind]
  | ok u => simp [Except.bind]

/-- A payload that is accepted is of the kind that the schema names. -/
lemma payloadType_of_validate (h : (s.validate m).outcome = .ok ()) :
    s.payloadType = .known m.kind :=
  (checkStructure_eq_ok_iff.mp (validate_outcome_eq_ok_iff.mp h).1).2.2

end Schema

namespace Descriptor

variable {d : Descriptor} {e : Entry} {s : Schema}

/-- The descriptor knows the type of the entry and finds its payload valid. -/
def Accepts (d : Descriptor) (e : Entry) : Prop := ∃ s, (d.validate e).outcome = .ok s

lemma schemaOfType_eq_ok_iff {typeName : String} :
    d.schemaOfType typeName = .ok s ↔ d.schemaOfType? typeName = some s := by
  rw [schemaOfType]
  cases d.schemaOfType? typeName <;> simp

lemma validate_outcome_eq_ok_iff :
    (d.validate e).outcome = .ok s ↔
      d.schemaOfType? e.metadata.typeName = some s ∧ (s.validate e.payload).outcome = .ok () := by
  rw [validate, Audited.outcome_bind, Audited.outcome_ofExcept, ← schemaOfType_eq_ok_iff]
  cases d.schemaOfType e.metadata.typeName with
  | error fault => simp [Except.bind]
  | ok s' =>
    simp only [Except.bind, Audited.outcome_bind, Audited.outcome_pure, Except.ok.injEq]
    constructor
    · intro h
      cases hv : (s'.validate e.payload).outcome with
      | error fault => rw [hv] at h; cases h
      | ok u => rw [hv] at h; cases h; exact ⟨rfl, hv⟩
    · rintro ⟨rfl, hv⟩
      rw [hv]

lemma Accepts.exists_schema (h : d.Accepts e) :
    ∃ s, d.schemaOfType? e.metadata.typeName = some s ∧
      (s.validate e.payload).outcome = .ok () := by
  obtain ⟨s, hs⟩ := h
  exact ⟨s, validate_outcome_eq_ok_iff.mp hs⟩

/-- Of a known type, only entries with payloads of its kind are accepted. -/
lemma Accepts.kind_eq (h : d.Accepts e) {k : Kind}
    (hs : d.schemaOfType? e.metadata.typeName = some s) (hk : s.payloadType = .known k) :
    e.payload.kind = k := by
  obtain ⟨s', hs', hv⟩ := h.exists_schema
  rw [hs, Option.some.injEq] at hs'
  subst hs'
  have hp := Schema.payloadType_of_validate hv
  rw [hk, PayloadType.known.injEq] at hp
  exact hp.symm

end Descriptor

end ConfigRegistry
