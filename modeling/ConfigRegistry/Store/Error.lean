/-
# Errors of stores

A change of a store may be refused by the model, by the state of the store, or by whatever holds
the data of the store.
-/
import ConfigRegistry.Model.Error
import ConfigRegistry.Model.Metadata

namespace ConfigRegistry

/-- An error of a store. -/
inductive StoreError where
  /-- The entry is not valid, or its type is not known. -/
  | model (error : ModelError)
  /-- An entry of this identity is held already. -/
  | alreadyExists (identity : Identity)
  /-- No entry of this identity is held. -/
  | notFound (identity : Identity)
  /-- The entry submitted does not bear the revision of the entry held. -/
  | conflict (identity : Identity) (stored submitted : String)
  /-- What holds the data of the store has failed. -/
  | backend (reason : String)
deriving DecidableEq

namespace StoreError

/-- The words for an error. -/
def message : StoreError → String
  | model error => error.message
  | alreadyExists identity => "item already exists: " ++ identity.key
  | notFound identity => "item not found: " ++ identity.key
  | conflict identity stored submitted =>
    "revision mismatch for " ++ identity.key ++ ": stored " ++ Text.quoted stored ++
      ", submitted " ++ Text.quoted submitted
  | backend reason => "backend error: " ++ reason

end StoreError

end ConfigRegistry
