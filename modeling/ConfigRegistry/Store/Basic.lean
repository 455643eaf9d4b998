/-
# Stores

What every store can do, whatever it keeps its entries in.  Reading never changes a store.  Of a
mutation there is an outcome and the store after it, also if the outcome is an error; what has
become of the store by then is up to the store.
-/
import ConfigRegistry.Model.Descriptor
import ConfigRegistry.Store.Mutation

namespace ConfigRegistry

/-- A store of configuration entries. -/
class ConfigStore (σ : Type) where
  /-- The types of entries that the store accepts. -/
  descriptor : σ → Descriptor
  /-- The entry of an identity. -/
  get? : σ → Identity → Option Entry
  /-- The entries of a type in a namespace; the empty one stands for all. -/
  list : σ → (typeName space : String) → Except StoreError (List Entry)
  /-- Adds an entry, which gets a new revision. -/
  create : σ → (revision : String) → Entry → Mutated σ Unit
  /-- Replaces an entry, which has to bear the revision of the one held, and gets a new one. -/
  update : σ → (revision : String) → Entry → Mutated σ Unit
  /-- Removes the entry of an identity. -/
  delete : σ → Identity → Mutated σ Unit

/-- A store that is one of two. -/
instance {σ τ : Type} [ConfigStore σ] [ConfigStore τ] : ConfigStore (σ ⊕ τ) where
  descriptor
    | .inl s => ConfigStore.descriptor s
    | .inr s => ConfigStore.descriptor s
  get?
    | .inl s => ConfigStore.get? s
    | .inr s => ConfigStore.get? s
  list
    | .inl s => ConfigStore.list s
    | .inr s => ConfigStore.list s
  create
    | .inl s, revision, e => (ConfigStore.create s revision e).mapStore .inl
    | .inr s, revision, e => (ConfigStore.create s revision e).mapStore .inr
  update
    | .inl s, revision, e => (ConfigStore.update s revision e).mapStore .inl
    | .inr s, revision, e => (ConfigStore.update s revision e).mapStore .inr
  delete
    | .inl s, i => (ConfigStore.delete s i).mapStore .inl
    | .inr s, i => (ConfigStore.delete s i).mapStore .inr

end ConfigRegistry
