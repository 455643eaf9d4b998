/-
# The command line

Reads the documents of a configuration from standard input, starts a server on them, and prints
the catalog that it would answer with.  If the configuration is at fault, the reason is printed to
standard error and the exit code is one.
-/
import ConfigRegistry.Server.FileTree
import ConfigRegistry.Server.Http
import ConfigRegistry.Server.Startup

namespace ConfigRegistry.CommandLine

/-- The directory in which the server finds what has been read. -/
def configDir : Path := ⟨"stdin"⟩

/-- What has been read, as the only file of that directory. -/
def fileSystem (bytes : ByteArray) : FileSystem :=
  (FileTree.empty.put ["config.yaml"] (some bytes)).mountedAt configDir

/-- Revisions are counted from one. -/
def revisions : Loading.Revisions := fun i => toString (i + 1)

/-- The text of the catalog of a configuration. -/
def catalogText (bytes : ByteArray) : Except StartupError String := do
  let view ← startUp { configDir := some configDir } (fileSystem bytes) revisions
  return (Http.respond view { method := "GET", target := Http.catalogPath }).body

/-- Everything that comes from a stream. -/
def readAll (input : IO.FS.Stream) : IO ByteArray := do
  let mut bytes := ByteArray.empty
  repeat
    let chunk ← input.read 65536
    if chunk.isEmpty then break
    bytes := bytes ++ chunk
  return bytes

end ConfigRegistry.CommandLine

open ConfigRegistry CommandLine

/-- Prints the catalog of the configuration on standard input. -/
def main : IO UInt32 := do
  match catalogText (← readAll (← IO.getStdin)) with
  | .ok text =>
    IO.println text
    return 0
  | .error e =>
    IO.eprintln e.message
    return 1
