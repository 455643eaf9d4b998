/-
# Settings of the server

All settings have a default, so any of them may be left out when they are read; when they are
written, all are.
-/
import ConfigRegistry.Catalog.View
import ConfigRegistry.Server.Path

namespace ConfigRegistry

/-- The settings of the server. -/
structure ServerConfig where
  host : String := "0.0.0.0"
  portNumber : UInt16 := 9091
  /-- The directory of files that are loaded at startup. -/
  configDir : Option Path := none
  listErrors : ListErrorPolicy := .suppress
deriving DecidableEq, Repr

namespace ServerConfig

/-- The layout of settings. -/
def shape : Shape ServerConfig :=
  .via
    (.record "ServerConfig" false <|
      .cons "host" (.withDefault "0.0.0.0") .text <|
      .cons "port" (.withDefault 9091) .word <|
      .cons "config_dir" (.withDefault none) (.option Path.shape) <|
      .cons "list_errors" (.withDefault .suppress) ListErrorPolicy.shape .nil)
    (fun (host, portNumber, configDir, listErrors, ()) => ⟨host, portNumber, configDir, listErrors⟩)
    (fun c => (c.host, c.portNumber, c.configDir, c.listErrors, ()))
    fun _ => rfl

/-- The address that the server listens at. -/
def bindAddress (c : ServerConfig) : String := c.host ++ ":" ++ toString c.portNumber.toNat

/-- The settings of the view among those of the server. -/
def viewConfig (c : ServerConfig) : ViewConfig := { listErrors := c.listErrors }

end ServerConfig

end ConfigRegistry
