/-
# The tables of a store

An update writes an entry as it was submitted over the one in the tables, and an entry that is
created is told by its own metadata where to go.  Still the tables never come into disorder: every
entry stands where its metadata say, its type is registered and its payload valid, and it bears the
revision that the last write of its identity has returned, which no other entry bears.
-/
import ConfigRegistry.Proofs.Store.Revisions

namespace ConfigRegistry

namespace MemoryStore

/-- The store has an entry in the table of a type, in some slot. -/
def Holds (s : MemoryStore) (typeName : String) (slot : Slot) (e : Entry) : Prop :=
  ∃ table, s.tables.find? typeName = some table ∧ table.find? slot = some e

lemma holds_iff {s : MemoryStore} {typeName : String} {slot : Slot} {e : Entry} :
    s.Holds typeName slot e ↔ s.get? (.ofSlot typeName slot) = some e := by
  show _ ↔ ((s.tables.find? typeName).getD ∅).find? slot = some e
  rw [Holds]
  cases s.tables.find? typeName with
  | none => simp
  | some table => simp

/-- The tables are in order, after calls that have been answered in some way. -/
structure Intact (d : Descriptor) (h : List Exchange) (s : MemoryStore) : Prop where
  /-- An entry stands where its metadata say. -/
  placed : ∀ {typeName slot e}, s.Holds typeName slot e →
    e.metadata.typeName = typeName ∧ e.metadata.space = slot.space ∧ e.metadata.name = slot.name
  /-- Its type is registered, and its payload is valid, and so of the kind of its type. -/
  valid : ∀ {typeName slot e}, s.Holds typeName slot e →
    ∃ schema, d.schemaOfType? typeName = some schema ∧ (d.validate e).outcome = .ok schema ∧
      schema.payloadType = .known e.payload.kind
  /-- It bears the revision that the last write of its identity has returned. -/
  current : ∀ {typeName slot e}, s.Holds typeName slot e →
    e.metadata.revision ≠ "" ∧ Current h (.ofSlot typeName slot) e.metadata.revision
  /-- No other entry bears its revision. -/
  distinct : ∀ {typeName typeName' slot slot' e e'}, s.Holds typeName slot e →
    s.Holds typeName' slot' e' → e.metadata.revision = e'.metadata.revision →
      typeName = typeName' ∧ slot = slot'

end MemoryStore

lemma Identity.ofSlot_inj {typeName typeName' : String} {slot slot' : Slot}
    (h : Identity.ofSlot typeName slot = .ofSlot typeName' slot') :
    typeName = typeName' ∧ slot = slot' := by
  cases slot; cases slot'
  simpa [Identity.ofSlot] using h

/-- What is current is a revision that has been handed out. -/
lemma Current.exists_handedOut {h : List Exchange} {i : Identity} {revision : String}
    (hc : Current h i revision) : ∃ x ∈ h, x.handedOut? = some revision := by
  obtain ⟨before, w, since, rfl, hw, -⟩ := hc
  exact ⟨w, by simp, Exchange.handedOut?_of_written? hw⟩

/-- If no revision is handed out twice, each is current for one identity at most. -/
lemma FreshRevisions.identity_eq {h : List Exchange} (hf : FreshRevisions h) {i j : Identity}
    {revision : String} (hi : Current h i revision) (hj : Current h j revision) : i = j := by
  obtain ⟨before, w, since, rfl, hw, -⟩ := hi
  exact (hj.unique hf hw).1.symm

/-- **The tables stay in order.**  After any calls on a store that began empty, each entry stands
in the table of its type under its namespace and name, is of a registered type, and valid; it bears
the revision that its last write has returned, and no other one does, as long as no revision is
handed out twice and the empty text is none. -/
theorem intact_after (d : Descriptor) (capacity : ℕ) (calls : List Call)
    (hf : FreshRevisions (MemoryStore.operations.history (.withCapacity d capacity) calls))
    (hne : ∀ x ∈ MemoryStore.operations.history (.withCapacity d capacity) calls,
      x.handedOut? ≠ some "") :
    (MemoryStore.operations.after (.withCapacity d capacity) calls).Intact d
      (MemoryStore.operations.history (.withCapacity d capacity) calls) := by
  have hsound : ((Contents.operations d).after ∅ calls).Sound d := Contents.sound_after calls
  have hhistory := MemoryStore.history_eq_contents_history (d := d)
    (s := .withCapacity d capacity) rfl calls
  -- all that is said of the tables is said of what the flat map finds
  have hfind : ∀ {typeName slot e},
      (MemoryStore.operations.after (.withCapacity d capacity) calls).Holds typeName slot e →
      ((Contents.operations d).after ∅ calls).find? (.ofSlot typeName slot) = some e := by
    intro typeName slot e h
    rw [← MemoryStore.contents_after_empty d capacity calls, MemoryStore.find?_contents]
    exact MemoryStore.holds_iff.mp h
  have hcurrent : ∀ {typeName slot e},
      (MemoryStore.operations.after (.withCapacity d capacity) calls).Holds typeName slot e →
      Current (MemoryStore.operations.history (.withCapacity d capacity) calls)
        (.ofSlot typeName slot) e.metadata.revision := by
    intro typeName slot e h
    rw [hhistory]
    exact Contents.current_of_find?_after (hfind h)
  constructor
  case placed =>
    intro typeName slot e h
    have hidentity := hsound.identity_eq (hfind h)
    exact ⟨congrArg Identity.typeName hidentity, congrArg Identity.space hidentity,
      congrArg Identity.name hidentity⟩
  case valid =>
    intro typeName slot e h
    obtain ⟨schema, hschema⟩ := hsound.accepts (hfind h)
    obtain ⟨htype, hvalid⟩ := Descriptor.validate_outcome_eq_ok_iff.mp hschema
    have hname : e.metadata.typeName = typeName :=
      congrArg Identity.typeName (hsound.identity_eq (hfind h))
    exact ⟨schema, hname ▸ htype, hschema, Schema.payloadType_of_validate hvalid⟩
  case current =>
    intro typeName slot e h
    refine ⟨fun hempty => ?_, hcurrent h⟩
    obtain ⟨x, hx, hout⟩ := (hcurrent h).exists_handedOut
    exact hne x hx (hempty ▸ hout)
  case distinct =>
    intro typeName typeName' slot slot' e e' h h' hrevision
    have hsame := hcurrent h'
    rw [← hrevision] at hsame
    exact Identity.ofSlot_inj (hf.identity_eq (hcurrent h) hsame)

/-- Objects of two types under one name; one of them is updated, and one removed and created
again. -/
def Broker.namesakes : List Call :=
  [.create "1" (Broker.classEntry "x" "a" "first" "0"),
    .create "2" (Broker.planEntry "x" "a" "small" ["first"] ""),
    .update "3" (Broker.classEntry "x" "a" "second" "1"),
    .update "4" (Broker.planEntry "x" "a" "large" ["second"] "1"),
    .delete (Broker.planEntry "x" "a" "" [] "").identity,
    .create "5" (Broker.planEntry "x" "a" "large" ["second"] "2")]

theorem intact_namesakes :
    FreshRevisions
        (MemoryStore.operations.history (.withCapacity Broker.known 1) Broker.namesakes) ∧
      (∀ x ∈ MemoryStore.operations.history (.withCapacity Broker.known 1) Broker.namesakes,
        x.handedOut? ≠ some "") ∧
      (MemoryStore.operations.after (.withCapacity Broker.known 1) Broker.namesakes).size = 2 ∧
      (MemoryStore.operations.after (.withCapacity Broker.known 1) Broker.namesakes).Intact
        Broker.known
        (MemoryStore.operations.history (.withCapacity Broker.known 1) Broker.namesakes) := by
  have hf : FreshRevisions
      (MemoryStore.operations.history (.withCapacity Broker.known 1) Broker.namesakes) := by
    decide +kernel
  have hne : ∀ x ∈ MemoryStore.operations.history (.withCapacity Broker.known 1)
      Broker.namesakes, x.handedOut? ≠ some "" := by
    decide +kernel
  exact ⟨hf, hne, by decide +kernel, intact_after Broker.known 1 Broker.namesakes hf hne⟩

end ConfigRegistry
