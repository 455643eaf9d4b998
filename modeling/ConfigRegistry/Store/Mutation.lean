/-
# Mutations

A mutation works on a store in place.  It may fail at any of its steps, and what it has done by
then is not taken back: there is a store after it in either case.  That a mutation which fails
leaves the store as it was is therefore not in the nature of mutations, but has to be seen from
each of them.
-/
import ConfigRegistry.Model.Audit
import ConfigRegistry.Store.Error

namespace ConfigRegistry

/-- What comes of a mutation of stores in `σ`: its outcome, the number of times that a validator
has run, and the store. -/
structure Mutated (σ α : Type) extends Audited StoreError α where
  /-- The store as the mutation has left it, be it at the end or where it has failed. -/
  store : σ

namespace Mutated

variable {σ τ α : Type}

/-- The outcome and the store, without the runs of validators. -/
def unaudited (r : Mutated σ α) : Except StoreError α × σ := (r.outcome, r.store)

/-- The store after a mutation that has not failed. -/
def changed (r : Mutated σ α) : Except StoreError σ := r.outcome.map fun _ => r.store

/-- The same with the store seen as another one. -/
def mapStore (f : σ → τ) (r : Mutated σ α) : Mutated τ α := ⟨r.toAudited, f r.store⟩

theorem changed_eq_ok_iff {r : Mutated σ Unit} {s : σ} :
    r.changed = .ok s ↔ r.unaudited = (.ok (), s) := by
  obtain ⟨⟨_ | _, _⟩, _⟩ := r <;> simp [changed, unaudited, Except.map]

end Mutated

/-- A mutation of stores in `σ`, which returns an `α` unless it fails. -/
def Mutation (σ α : Type) : Type := σ → Mutated σ α

namespace Mutation

variable {σ α β : Type}

/-- What comes of a mutation of a store. -/
def run (s : σ) (m : Mutation σ α) : Mutated σ α := m s

/-- The step that only returns something. -/
protected def pure (a : α) : Mutation σ α := fun s => ⟨pure a, s⟩

/-- One step after another.  The runs add up; after a failure there are no more steps, and the
store stays as it is by then. -/
protected def bind (m : Mutation σ α) (f : α → Mutation σ β) : Mutation σ β := fun s =>
  match m s with
  | ⟨⟨.ok a, n⟩, s'⟩ =>
    let rest := f a s'
    ⟨⟨rest.outcome, n + rest.runs⟩, rest.store⟩
  | ⟨⟨.error e, n⟩, s'⟩ => ⟨⟨.error e, n⟩, s'⟩

instance : Monad (Mutation σ) where
  pure := Mutation.pure
  bind := Mutation.bind

instance : MonadStateOf σ (Mutation σ) where
  get s := ⟨pure s, s⟩
  set s _ := ⟨pure (), s⟩
  modifyGet f s := ⟨pure (f s).1, (f s).2⟩

/-- The step that looks at an outcome and leaves the store alone. -/
def ofAudited (r : Audited StoreError α) : Mutation σ α := fun s => ⟨r, s⟩

instance : MonadLift (Audited StoreError) (Mutation σ) := ⟨ofAudited⟩

/-- The step that fails. -/
def fail (e : StoreError) : Mutation σ α := ofAudited (.fail e)

/-! Seen without the runs of validators, mutations are functions on stores that may fail. -/

variable (s : σ)

theorem unaudited_bind (m : Mutation σ α) (f : α → Mutation σ β) :
    (run s (m >>= f)).unaudited =
      match (run s m).unaudited with
      | (.ok a, s') => (run s' (f a)).unaudited
      | (.error e, s') => (.error e, s') := by
  show (Mutation.bind m f s).unaudited = match (m s).unaudited with
    | (.ok a, s') => (f a s').unaudited
    | (.error e, s') => (.error e, s')
  rw [Mutation.bind]
  obtain ⟨⟨_ | _, _⟩, _⟩ := m s <;> rfl

@[simp] theorem unaudited_get : (run s (get : Mutation σ σ)).unaudited = (.ok s, s) := rfl

@[simp] theorem unaudited_modify (f : σ → σ) :
    (run s (modify f : Mutation σ PUnit)).unaudited = (.ok (), f s) := rfl

@[simp] theorem unaudited_modifyGet (f : σ → α × σ) :
    (run s (modifyGet f : Mutation σ α)).unaudited = (.ok (f s).1, (f s).2) := rfl

@[simp] theorem unaudited_liftM (r : Audited StoreError α) :
    (run s (liftM r : Mutation σ α)).unaudited = (r.outcome, s) := rfl

@[simp] theorem unaudited_fail (e : StoreError) :
    (run s (fail e : Mutation σ α)).unaudited = (.error e, s) := rfl

end Mutation

end ConfigRegistry
