/-
# Files and directories

What a server sees of a file system: directories that list paths, and files that hold bytes.  A
listing may break off at an entry that cannot be read.  Of what a directory lists only files with
one of three extensions hold configuration.
-/
import ConfigRegistry.Server.Path

namespace ConfigRegistry

/-- Why a file or directory cannot be read. -/
inductive IoKind where
  | notFound
  | permissionDenied
  | notADirectory
  | isADirectory
  /-- The bytes of a file are no text. -/
  | invalidData
  | other
deriving DecidableEq, Repr

namespace IoKind

/-- The name of a kind. -/
def name : IoKind → String
  | notFound => "NotFound"
  | permissionDenied => "PermissionDenied"
  | notADirectory => "NotADirectory"
  | isADirectory => "IsADirectory"
  | invalidData => "InvalidData"
  | other => "Other"

end IoKind

/-- An error of a file system. -/
structure IoFault where
  kind : IoKind
  message : String := ""
deriving DecidableEq, Repr

/-- A file system as it is at one time. -/
structure FileSystem where
  /-- The entries of a directory, in no particular order. -/
  readDirectory : Path → Except IoFault (List (Except IoFault Path))
  /-- Whether a path leads to a file. -/
  isFile : Path → Bool
  /-- The bytes of a file. -/
  read : Path → Except IoFault ByteArray

namespace FileSystem

/-- The text of a file. -/
def readText (fs : FileSystem) (p : Path) : Except IoFault String := do
  match String.fromUTF8? (← fs.read p) with
  | some text => return text
  | none => .error ⟨.invalidData, "stream did not contain valid UTF-8"⟩

end FileSystem

/-- The extensions of files that hold configuration. -/
def configExtensions : List String := ["yaml", "yml", "json"]

/-- Whether a path leads to a file that holds configuration, going by its name. -/
def isConfigFile (p : Path) : Bool :=
  match p.extension? with
  | some extension => configExtensions.contains extension
  | none => false

/-- The configuration files among the entries of a directory, in ascending order; an entry that
cannot be read is an error. -/
def configFiles (entries : List (Except IoFault Path)) : Except IoFault (List Path) := do
  let paths ← entries.mapM id
  return (paths.filter isConfigFile).mergeSort Path.le

end ConfigRegistry
