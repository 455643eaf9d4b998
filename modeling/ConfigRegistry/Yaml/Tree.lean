/-
# Generic trees of YAML documents

What a document says is read by going through its nodes from the root.  Where an alias comes the
node it refers to is read in its place; a node may so be read many times, and may even contain
itself, so there is a bound on how often aliases are followed, and one on how deep collections
are nested.

A node becomes a generic tree like this: a plain scalar becomes what it stands for, any other
scalar its text, a sequence an array, and a mapping an object, in which of entries with the same
key the last one counts.  A tag of the standard types is heeded; a tag of another type has no
meaning for a generic tree.
-/
import ConfigRegistry.Yaml.Document
import ConfigRegistry.Yaml.Scalar.Resolution
import ConfigRegistry.Json.Basic

namespace ConfigRegistry.Yaml

/-! ## Tags -/

/-- The tag of null. -/
def nullTag : String := "tag:yaml.org,2002:null"

/-- The tag of truth values. -/
def boolTag : String := "tag:yaml.org,2002:bool"

/-- The tag of integers. -/
def intTag : String := "tag:yaml.org,2002:int"

/-- The tag of floating-point numbers. -/
def floatTag : String := "tag:yaml.org,2002:float"

/-- The name of the type that a tag outside the standard ones gives: the tag without its
exclamation mark, unless there is nothing else. -/
def localName? (tag : Option String) : Option String :=
  match tag.map String.toList with
  | some ['!'] => some "!"
  | some ('!' :: name) => some (String.ofList name)
  | _ => none

/-! ## Going through a document -/

/-- A visit of nodes; its state is the number of aliases that may still be followed. -/
abbrev Visit (α : Type) : Type := Nat → Except Fault (α × Nat)

namespace Visit

variable {α β : Type}

/-- Visits nothing. -/
protected def pure (a : α) : Visit α := fun left => .ok (a, left)

/-- Visits one thing after another. -/
protected def bind (v : Visit α) (f : α → Visit β) : Visit β := fun left =>
  match v left with
  | .ok (a, left) => f a left
  | .error e => .error e

instance : Monad Visit where
  pure := Visit.pure
  bind := Visit.bind

/-- Fails. -/
def fault (e : Fault) : Visit α := fun _ => .error e

/-- An answer that may be a fault. -/
def ofExcept (r : Except Fault α) : Visit α := fun left => r.map fun a => (a, left)

end Visit

/-- The nesting of collections that may be read. -/
def nestingLimit : Nat := 128

/-- How often each part of a document may be visited by way of aliases, on the average. -/
def visitLimit : Nat := 100

namespace Document

variable {α : Type}

/-- The node itself, or the one it refers to. -/
def follow (d : Document) : Node Nat → Visit (Node Nat)
  | .alias number => fun left =>
    match left, d.target? number with
    | 0, _ => .error .tooManyAliases
    | _, none => .error .unknownAnchor
    | left + 1, some n => .ok (n, left)
  | n => Visit.pure n

/-- The text of a scalar, whatever its style and tag. -/
def textOf (d : Document) (n : Node Nat) : Visit String := do
  match ← d.follow n with
  | .scalar _ _ _ text => Visit.pure text
  | _ => Visit.fault .wrongType

/-- The answer of a visit that begins at the root. -/
def visit (d : Document) (v : Node Nat → Visit α) : Except Fault α :=
  (v d.root (visitLimit * d.root.size)).map Prod.fst

end Document

/-! ## Generic trees -/

/-- An integer as a tree, which has no integers of more than 64 bits. -/
def treeOfInteger (i : Int) : Except Fault Json :=
  if -(twoTo 63 : Int) ≤ i && i < twoTo 64 then .ok (.number (.integer i)) else .error .wrongValue

/-- A floating-point number as a tree, which has none but finite ones. -/
def treeOfFloating : Floating → Json
  | .finite x => .number (.real x)
  | .special => .null

/-- What a plain scalar without a tag stands for, as a tree. -/
def treeOfPlain (text : String) : Except Fault Json :=
  match resolve text with
  | .null => .ok .null
  | .bool b => .ok (.bool b)
  | .integer i => treeOfInteger i
  | .floating x => .ok (treeOfFloating x)
  | .text => .ok (.string text)

/-- A scalar with a tag of a standard type as a tree. -/
def treeOfTagged (tag text : String) : Except Fault Json :=
  if tag == boolTag then
    match truthOf? text with
    | some b => .ok (.bool b)
    | none => .error .wrongValue
  else if tag == intTag then
    match (integerOf? text.toList).filter isKnownInteger with
    | some i => treeOfInteger i
    | none => .error .wrongValue
  else if tag == floatTag then
    match floatingOf? text with
    | some x => .ok (treeOfFloating x)
    | none => .error .wrongValue
  else if tag == nullTag then
    if isNullWord text then .ok .null else .error .wrongValue
  else .ok (.string text)

/-- A scalar as a tree. -/
def treeOfScalar (tag : Option String) (style : Style) (text : String) : Except Fault Json :=
  match tag, style with
  | some tag, _ => treeOfTagged tag text
  | none, .plain => treeOfPlain text
  | none, _ => .ok (.string text)

/-- The generic tree of a node, at most `depth` collections deep. -/
def Document.tree (d : Document) (depth : Nat) (n : Node Nat) : Visit Json := do
  match ← d.follow n, depth with
  | .scalar _ tag style text, _ =>
    if (localName? tag).isSome then Visit.fault .wrongType
    else Visit.ofExcept (treeOfScalar tag style text)
  | .sequence _ tag items, depth =>
    if (localName? tag).isSome then Visit.fault .wrongType
    else
      match depth with
      | 0 => Visit.fault .tooDeep
      | depth + 1 => return .array (← items.mapM (d.tree depth))
  | .mapping _ tag entries, depth =>
    if (localName? tag).isSome then Visit.fault .wrongType
    else
      match depth with
      | 0 => Visit.fault .tooDeep
      | depth + 1 => do
        let members ← entries.mapM fun (key, value) => do
          let key ← d.textOf key
          return (key, ← d.tree depth value)
        return .object (SortedMap.ofList members).toList
  | .alias _, _ => Visit.fault .unknownAnchor
termination_by structural depth

end ConfigRegistry.Yaml
