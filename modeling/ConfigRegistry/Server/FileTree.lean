/-
# Trees of files

A file system that is given as a value: a tree of directories with files as its leaves.
-/
import ConfigRegistry.Server.Files

namespace ConfigRegistry

/-- A file, or a directory with its entries. -/
inductive FileTree where
  | file (bytes : ByteArray)
  | directory (entries : List (String × FileTree))

namespace FileTree

/-- The directory without entries. -/
def empty : FileTree := .directory []

/-- Puts something in place of the first entry of a name, or behind all entries. -/
def putEntry (name : String) (t : FileTree) :
    List (String × FileTree) → List (String × FileTree)
  | [] => [(name, t)]
  | (other, u) :: more =>
    if other == name then (name, t) :: more else (other, u) :: putEntry name t more

/-- Writes a file, or makes a directory, with the directories on the way to it.  A directory that
is there already stays, and so does a file where a directory would be needed. -/
def put (t : FileTree) (path : List String) (content : Option ByteArray) : FileTree :=
  match path with
  | [] =>
    match content, t with
    | some bytes, _ => .file bytes
    | none, t => t
  | name :: more =>
    match t with
    | .file bytes => .file bytes
    | .directory entries =>
      .directory (putEntry name (((entries.lookup name).getD empty).put more content) entries)

/-- What is at the end of a way that begins at a directory; `above` are the directories around it,
the innermost one first. -/
def follow (t : FileTree) (above : List FileTree) :
    List Path.Component → Except IoFault FileTree
  | [] => .ok t
  | component :: more =>
    match t, component with
    | .file _, _ => .error ⟨.notADirectory, "Not a directory"⟩
    | .directory _, .current => t.follow above more
    | .directory _, .root => .error ⟨.notFound, "No such file or directory"⟩
    | .directory _, .parent =>
      match above with
      | [] => .error ⟨.notFound, "No such file or directory"⟩
      | outer :: above => outer.follow above more
    | .directory entries, .normal name =>
      match entries.lookup name with
      | some u => u.follow (t :: above) more
      | none => .error ⟨.notFound, "No such file or directory"⟩

/-- What is at a path that begins with the path of the tree itself. -/
def at? (t : FileTree) (root p : Path) : Except IoFault FileTree :=
  let components := p.components
  if components.take root.components.length == root.components then
    t.follow [] (components.drop root.components.length)
  else .error ⟨.notFound, "No such file or directory"⟩

/-- The file system that has nothing but a tree, at a path. -/
def mountedAt (t : FileTree) (root : Path) : FileSystem where
  readDirectory p := do
    match ← t.at? root p with
    | .directory entries => return entries.map fun (name, _) => .ok (p.join ⟨name⟩)
    | .file _ => .error ⟨.notADirectory, "Not a directory"⟩
  isFile p :=
    match t.at? root p with
    | .ok (.file _) => true
    | _ => false
  read p := do
    match ← t.at? root p with
    | .file bytes => return bytes
    | .directory _ => .error ⟨.isADirectory, "Is a directory"⟩

end FileTree

end ConfigRegistry
