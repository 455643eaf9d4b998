/-
# Counting the runs of validators

A validator is a function given from outside, and whoever gives it may care how often it is
called.  An `Audited` outcome therefore tells, besides what came of an operation, how many
validators have run on the way, also when the operation has failed.
-/

namespace ConfigRegistry

/-- The outcome of an operation, and how many times a validator has run. -/
structure Audited (ε α : Type) where
  outcome : Except ε α
  runs : Nat

namespace Audited

variable {ε ε' α β : Type}

/-- An outcome to which no validator has contributed. -/
def ofExcept (r : Except ε α) : Audited ε α := ⟨r, 0⟩

/-- A success to which no validator has contributed. -/
protected def pure (a : α) : Audited ε α := ofExcept (.ok a)

/-- A failure before any validator has run. -/
def fail (e : ε) : Audited ε α := ofExcept (.error e)

/-- One operation after another; the runs add up. -/
protected def bind (a : Audited ε α) (f : α → Audited ε β) : Audited ε β :=
  match a with
  | ⟨.ok a, n⟩ => ⟨(f a).outcome, n + (f a).runs⟩
  | ⟨.error e, n⟩ => ⟨.error e, n⟩

instance : Monad (Audited ε) where
  pure := Audited.pure
  bind := Audited.bind

/-- The same outcome with another kind of error. -/
def mapError (f : ε → ε') (a : Audited ε α) : Audited ε' α := ⟨a.outcome.mapError f, a.runs⟩

@[simp] theorem outcome_pure (a : α) : (pure a : Audited ε α).outcome = .ok a := rfl

@[simp] theorem runs_pure (a : α) : (pure a : Audited ε α).runs = 0 := rfl

@[simp] theorem outcome_ofExcept (r : Except ε α) : (ofExcept r).outcome = r := rfl

@[simp] theorem runs_ofExcept (r : Except ε α) : (ofExcept r).runs = 0 := rfl

/-- Seen by the outcome alone, operations follow one another as usual. -/
theorem outcome_bind (a : Audited ε α) (f : α → Audited ε β) :
    (a >>= f).outcome = a.outcome.bind fun x => (f x).outcome := by
  obtain ⟨_ | _, _⟩ := a <;> rfl

end Audited

end ConfigRegistry
