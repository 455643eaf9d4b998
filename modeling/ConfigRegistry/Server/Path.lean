/-
# Paths

A path is a text, and is shown as it was given.  Its components are what counts when paths are
compared: doubled slashes, a slash at the end, and single dots other than a leading one make no
difference.
-/
import ConfigRegistry.Shape.Basic

namespace ConfigRegistry

/-- A path. -/
structure Path where
  text : String
deriving DecidableEq, Repr

namespace Path

/-- A component of a path. -/
inductive Component where
  /-- The slash at the beginning of an absolute path. -/
  | root
  /-- The single dot at the beginning of a relative path. -/
  | current
  /-- Two dots. -/
  | parent
  | normal (name : String)
deriving DecidableEq, Repr

namespace Component

/-- The kinds of components in ascending order. -/
def rank : Component → Nat
  | root => 0
  | current => 1
  | parent => 2
  | normal _ => 3

/-- The name of a component; only a normal one has one. -/
def name : Component → String
  | normal name => name
  | _ => ""

/-- Components are ordered by their kind, and normal ones by name. -/
instance : Ord Component where
  compare := compareLex (compareOn rank) (compareOn name)

end Component

/-- The parts of a text between slashes. -/
def segments : List Char → List (List Char)
  | [] => [[]]
  | c :: rest =>
    if c == '/' then [] :: segments rest
    else
      match segments rest with
      | [] => [[c]]
      | segment :: more => (c :: segment) :: more

/-- The component of a segment that is not the first one, unless it makes no difference. -/
def innerComponent (segment : List Char) : Option Component :=
  if segment.isEmpty || segment == ['.'] then none
  else if segment == ['.', '.'] then some .parent
  else some (.normal (String.ofList segment))

/-- The component of the first segment. -/
def firstComponent (segment : List Char) : Option Component :=
  if segment == ['.'] then some .current else innerComponent segment

/-- The components of a path. -/
def components (p : Path) : List Component :=
  let cs := p.text.toList
  match cs, segments cs with
  | '/' :: _, segments => .root :: segments.filterMap innerComponent
  | _, first :: more => (firstComponent first).toList ++ more.filterMap innerComponent
  | _, [] => []

/-- The order of paths: that of their components, one after another. -/
def compare (p q : Path) : Ordering := Ord.compare p.components q.components

/-- Whether one path may stand before another in ascending order. -/
def le (p q : Path) : Bool := p.compare q != .gt

/-- The name of the file that a path leads to: its last component, if that is a normal one. -/
def fileName? (p : Path) : Option String :=
  match p.components.getLast? with
  | some (.normal name) => some name
  | _ => none

/-- What follows the last dot of a name, unless the dot begins the name. -/
def extensionOf? (name : List Char) : Option (List Char) :=
  let reversed := name.reverse
  let extension := (reversed.takeWhile (· != '.')).reverse
  match reversed.dropWhile (· != '.') with
  | [] | ['.'] => none
  | _ => some extension

/-- The extension of the file name of a path. -/
def extension? (p : Path) : Option String :=
  p.fileName?.bind fun name => (extensionOf? name.toList).map String.ofList

/-- The path of something inside a directory; an absolute path replaces the directory. -/
def join (p q : Path) : Path :=
  if q.text.toList.head? == some '/' then q
  else if p.text.isEmpty || p.text.toList.getLast? == some '/' then ⟨p.text ++ q.text⟩
  else ⟨p.text ++ "/" ++ q.text⟩

/-- The layout of paths. -/
def shape : Shape Path := .via .path Path.mk Path.text fun _ => rfl

end Path

end ConfigRegistry
