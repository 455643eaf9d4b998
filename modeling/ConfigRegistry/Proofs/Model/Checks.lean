/-
# The order of the checks

Validation looks at the names of the schema, then at its message type, then at the type of the
payload, and last it has the validator look at the payload.  The first of these checks to fail
decides (`verdict`).  The validator does not run unless the others, which are called structural,
have all been passed, and then it runs once.

So it can be told from an entry, or from an object that is to be read, whether a validator runs on
it, provided that every schema has one (`Descriptor.Vetted`).
-/
import ConfigRegistry.Proofs.Model.Validation

namespace ConfigRegistry

namespace Audited

variable {ε α β : Type}

/-- What is not reached adds no run. -/
lemma runs_bind (a : Audited ε α) (f : α → Audited ε β) :
    (a >>= f).runs =
      match a.outcome with
      | .ok x => a.runs + (f x).runs
      | .error _ => a.runs := by
  obtain ⟨_ | _, _⟩ := a <;> rfl

/-- A last step that only makes a value adds no run. -/
lemma runs_bind_pure (a : Audited ε α) (f : α → β) : (a >>= fun x => pure (f x)).runs = a.runs := by
  rw [runs_bind]
  cases a.outcome <;> rfl

lemma runs_ofExcept_bind (r : Except ε α) (f : α → Audited ε β) :
    (ofExcept r >>= f).runs =
      match r with
      | .ok x => (f x).runs
      | .error _ => 0 := by
  cases r with
  | error e => rfl
  | ok a => exact Nat.zero_add _

end Audited

/-! ## Rows of checks -/

/-- A check that has been made, with the error that is due if it has failed. -/
structure Check where
  passed : Bool
  error : ModelError

/-- The verdict of a row of checks: the first one that has failed decides. -/
def verdict (cs : List Check) : Except ModelError Unit :=
  match cs.find? fun c => !c.passed with
  | some c => .error c.error
  | none => .ok ()

section Verdict

variable {cs : List Check} {e : ModelError}

lemma verdict_append (cs more : List Check) :
    verdict (cs ++ more) = verdict cs >>= fun _ => verdict more := by
  rw [verdict, verdict, List.find?_append]
  cases cs.find? fun c => !c.passed <;> rfl

lemma verdict_eq_ok_iff : verdict cs = .ok () ↔ cs.all Check.passed = true := by
  have hnone : (cs.find? fun c => !c.passed) = none ↔ cs.all Check.passed = true := by simp
  rw [verdict, ← hnone]
  cases cs.find? fun c => !c.passed <;> simp

/-- The error of a verdict is that of one of the checks. -/
lemma exists_of_verdict_eq_error (h : verdict cs = .error e) : ∃ c ∈ cs, c.error = e := by
  rw [verdict] at h
  split at h
  · next c hfind =>
    cases h
    exact ⟨c, List.mem_of_find?_eq_some hfind, rfl⟩
  · cases h

end Verdict

namespace Schema

/-! ## Validation of a payload -/

/-- The structural checks, in their order. -/
def structuralChecks (s : Schema) (m : Message) : List Check :=
  [⟨isLabel s.typeName, .invalidType s.typeName⟩,
    ⟨isLabel s.plural, .invalidPlural s.plural⟩,
    ⟨s.payloadType.kind?.isSome, .unknownMessage s.messageName⟩,
    ⟨m.name == s.messageName, .payloadMismatch s.messageName m.name⟩]

/-- What the validator has to object to a payload, as a check that has failed. -/
def objections (s : Schema) (m : Message) : List Check :=
  (s.validator.bind fun v => v.rejection m).toList.map fun reason => ⟨false, .rejected reason⟩

/-- Whether the structural checks are passed. -/
def passes (s : Schema) (m : Message) : Bool := (s.structuralChecks m).all Check.passed

/-- What validation of a payload does. -/
structure ValidatesInOrder (s : Schema) (m : Message) : Prop where
  /-- The validator is asked last. -/
  outcome_eq : (s.validate m).outcome = verdict (s.structuralChecks m ++ s.objections m)
  /-- It runs once if the structural checks are passed, and never otherwise. -/
  runs_eq : (s.validate m).runs = if s.passes m && s.validator.isSome then 1 else 0
  isValidation_of_error : ∀ e, (s.validate m).outcome = .error e → e.isValidation = true

variable {s : Schema} {m : Message}

lemma checkStructure_eq_verdict (s : Schema) (m : Message) :
    s.checkStructure m = verdict (s.structuralChecks m) := by
  rw [checkStructure, structuralChecks, kind, checkMessage]
  -- each check decides on its own whether the next one is made
  cases isLabel s.typeName with
  | false => rfl
  | true =>
    cases isLabel s.plural with
    | false => rfl
    | true =>
      cases s.payloadType.kind? with
      | none => rfl
      | some k => cases m.name == s.messageName <;> rfl

lemma runValidator_outcome (s : Schema) (m : Message) :
    (s.runValidator m).outcome = verdict (s.objections m) := by
  rw [runValidator, objections]
  cases s.validator with
  | none => rfl
  | some v =>
    simp only [Option.bind_some]
    cases v.rejection m <;> rfl

lemma runValidator_runs (s : Schema) (m : Message) :
    (s.runValidator m).runs = if s.validator.isSome then 1 else 0 := by
  rw [runValidator]
  cases s.validator with
  | none => rfl
  | some v =>
    simp only [Option.isSome_some, if_true]
    cases v.rejection m <;> rfl

lemma isValidation_of_mem {c : Check} (h : c ∈ s.structuralChecks m ++ s.objections m) :
    c.error.isValidation = true := by
  rcases List.mem_append.mp h with h | h
  · simp only [structuralChecks, List.mem_cons, List.not_mem_nil, or_false] at h
    rcases h with rfl | rfl | rfl | rfl <;> rfl
  · obtain ⟨reason, -, rfl⟩ := List.mem_map.mp h
    rfl

lemma validatesInOrder (s : Schema) (m : Message) : s.ValidatesInOrder m := by
  have houtcome : (s.validate m).outcome = verdict (s.structuralChecks m ++ s.objections m) := by
    rw [validate, Audited.outcome_bind, Audited.outcome_ofExcept, checkStructure_eq_verdict,
      verdict_append, runValidator_outcome]
    rfl
  constructor
  case outcome_eq => exact houtcome
  case runs_eq =>
    rw [validate, Audited.runs_ofExcept_bind, checkStructure_eq_verdict]
    cases hverdict : verdict (s.structuralChecks m) with
    | error e =>
      have hfails : s.passes m = false := by
        rw [← Bool.not_eq_true, passes, ← verdict_eq_ok_iff, hverdict]
        intro h
        cases h
      rw [hfails]
      rfl
    | ok u =>
      have hpasses : s.passes m = true := verdict_eq_ok_iff.mp hverdict
      rw [hpasses, Bool.true_and, runValidator_runs]
  case isValidation_of_error =>
    intro e h
    obtain ⟨c, hc, rfl⟩ := exists_of_verdict_eq_error (houtcome ▸ h)
    exact isValidation_of_mem hc

/-- With a validator, a run for each payload that passes the structural checks. -/
lemma validate_runs_of_validator (h : s.validator.isSome = true) (m : Message) :
    (s.validate m).runs = (s.passes m).toNat := by
  rw [(s.validatesInOrder m).runs_eq, h, Bool.and_true]
  cases s.passes m <;> rfl

end Schema

namespace Descriptor

/-! ## Validation of entries and objects -/

/-- Every schema has a validator. -/
def Vetted (d : Descriptor) : Prop := ∀ s ∈ d.schemas, s.validator.isSome = true

instance (d : Descriptor) : Decidable d.Vetted :=
  inferInstanceAs (Decidable (∀ s ∈ d.schemas, s.validator.isSome = true))

/-- Whether the type of an entry is known and its payload passes the structural checks. -/
def passes (d : Descriptor) (e : Entry) : Bool :=
  (d.schemaOfType? e.metadata.typeName).any fun s => s.passes e.payload

/-- Whether the type of an object is known, and the payload that the object describes can be read
and passes the structural checks. -/
def reads (d : Descriptor) (o : ConfigObject) : Bool :=
  (d.schemaOfType? o.metadata.typeName).any fun s => (s.ofTree o.spec).toOption.any s.passes

variable {d : Descriptor}

lemma mem_of_schemaOfType? {typeName : String} {s : Schema}
    (h : d.schemaOfType? typeName = some s) : s ∈ d.schemas := by
  obtain ⟨i, -, hi⟩ := Option.bind_eq_some_iff.mp h
  exact List.mem_of_getElem? hi

/-- Whatever is done with the schema of a type, nothing runs if the type is not known. -/
lemma schemaOfType_bind_runs {α : Type} (typeName : String) (f : Schema → Audited ModelError α) :
    (Audited.ofExcept (d.schemaOfType typeName) >>= f).runs =
      match d.schemaOfType? typeName with
      | some s => (f s).runs
      | none => 0 := by
  rw [Audited.runs_ofExcept_bind, schemaOfType]
  cases d.schemaOfType? typeName <;> rfl

lemma validate_runs (h : d.Vetted) (e : Entry) : (d.validate e).runs = (d.passes e).toNat := by
  rw [validate, schemaOfType_bind_runs, passes]
  cases hs : d.schemaOfType? e.metadata.typeName with
  | none => rfl
  | some s =>
    rw [Option.any_some, ← Schema.validate_runs_of_validator (h s (mem_of_schemaOfType? hs))]
    exact Audited.runs_bind_pure _ _

lemma ofObject_runs (h : d.Vetted) (o : ConfigObject) :
    (d.ofObject o).runs = (d.reads o).toNat := by
  rw [ofObject, schemaOfType_bind_runs, reads]
  cases hs : d.schemaOfType? o.metadata.typeName with
  | none => rfl
  | some s =>
    simp only [Option.any_some, Audited.runs_ofExcept_bind]
    cases s.ofTree o.spec with
    | error fault => rfl
    | ok m =>
      rw [Except.toOption, Option.any_some,
        ← Schema.validate_runs_of_validator (h s (mem_of_schemaOfType? hs))]
      exact Audited.runs_bind_pure _ _

end Descriptor

end ConfigRegistry
