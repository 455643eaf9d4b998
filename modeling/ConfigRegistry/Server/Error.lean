/-
# Errors at startup

Loading configuration may fail for reasons of the file system, of a text, of the model or of the
store.  An error tells at which file and document it happened; what lies behind it is its cause.
-/
import ConfigRegistry.Server.Files
import ConfigRegistry.Store.Error

namespace ConfigRegistry

/-- An error at startup. -/
inductive StartupError where
  /-- The types of the broker cannot be registered. -/
  | types (error : ModelError)
  /-- A directory cannot be read. -/
  | directory (path : Path) (fault : IoFault)
  /-- The listing of a directory breaks off. -/
  | listing (path : Path) (fault : IoFault)
  /-- A file cannot be read. -/
  | file (path : Path) (fault : IoFault)
  /-- A document is no object. -/
  | document (path : Path) (index : Nat) (fault : Yaml.Fault)
  /-- An object is no entry. -/
  | object (path : Path) (index : Nat) (error : ModelError)
  /-- An entry cannot be stored. -/
  | store (path : Path) (key : String) (error : StoreError)
deriving DecidableEq

namespace StartupError

/-- The words for an error, without those for its cause. -/
def message : StartupError → String
  | types _ => "Failed to register broker config types"
  | directory path _ => "Failed to read config directory " ++ path.text
  | listing path _ => "Failed to list config directory " ++ path.text
  | file path _ => "Failed to read config file " ++ path.text
  | document path index _ =>
    "Invalid YAML in " ++ path.text ++ " (document " ++ toString index ++ ")"
  | object path index _ =>
    "Invalid config in " ++ path.text ++ " (document " ++ toString index ++ ")"
  | store path key _ => "Failed to store " ++ key ++ " from " ++ path.text

end StartupError

end ConfigRegistry
