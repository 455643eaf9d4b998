/-
# Starting the server

At startup the server makes an empty store for the types of a broker and, if its settings name a
directory, loads what is there.
-/
import ConfigRegistry.Server.Config
import ConfigRegistry.Server.Loading
import ConfigRegistry.Store.Memory

namespace ConfigRegistry

/-- The view of a new store with the configuration that the settings name. -/
def startUp (config : ServerConfig) (fs : FileSystem) (revisions : Loading.Revisions) :
    Except StartupError (View MemoryStore) := do
  let descriptor ← Broker.descriptor.mapError .types
  let start : Loading MemoryStore := { store := .empty descriptor }
  let loaded := match config.configDir with
    | none => start
    | some path => start.directory revisions fs path
  let _ ← loaded.outcome
  return { store := loaded.store, config := config.viewConfig }

end ConfigRegistry
