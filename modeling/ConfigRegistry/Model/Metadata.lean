/-
# Identity and metadata of configuration objects

An object is known by its identity: type, namespace and name.  The metadata carry the identity
and what else is said about the object without a look at its payload.
-/
import ConfigRegistry.Shape.Basic

namespace ConfigRegistry

/-- What tells one stored object from another. -/
structure Identity where
  /-- The short type name, such as `service-class`. -/
  typeName : String
  /-- The space for names; the empty one is global. -/
  space : String
  /-- The name, unique within the type and the space. -/
  name : String
deriving DecidableEq, Repr

namespace Identity

/-- The identity as one text, the parts joined by slashes. -/
def key (i : Identity) : String := i.typeName ++ "/" ++ i.space ++ "/" ++ i.name

end Identity

/-- What is said about an object apart from its payload. -/
structure Metadata where
  /-- The short type name. -/
  typeName : String := ""
  /-- The name within the namespace. -/
  name : String := ""
  /-- The namespace. -/
  space : String := ""
  /-- The namespace of the control plane, independent of the other one. -/
  controlSpace : String := ""
  /-- Labels. -/
  labels : TextMap := ∅
  /-- Notes of external tools, kept as given and never interpreted. -/
  annotations : TextMap := ∅
  /-- The token of the last change in a store; empty as long as the object was never stored. -/
  revision : String := ""
deriving DecidableEq

namespace Metadata

/-- The metadata of an object of which only the identity is known. -/
def ofIdentity (i : Identity) : Metadata :=
  { typeName := i.typeName, name := i.name, space := i.space }

/-- The identity among the metadata. -/
def identity (m : Metadata) : Identity := ⟨m.typeName, m.space, m.name⟩

/-- The identity as one text. -/
def key (m : Metadata) : String := m.identity.key

/-- A field for a text that is left out when it is empty. -/
def textField : Presence String := .omittedWhen String.isEmpty ""

/-- A field for texts under keys that is left out when there are none. -/
def textsField : Presence TextMap := .omittedWhen SortedMap.isEmpty ∅

/-- The values of the fields of metadata, in written order. -/
abbrev Row : Type :=
  String × String × String × String × TextMap × TextMap × String × Unit

/-- What has been found of the fields of metadata. -/
abbrev Slots : Type :=
  Option String × Option String × Option String × Option String × Option TextMap ×
    Option TextMap × Option String × Unit

/-- The fields of metadata on their own. -/
def fields : Fields Row Slots :=
  .cons "type" textField .text <|
  .cons "name" textField .text <|
  .cons "namespace" textField .text <|
  .cons "istioNamespace" textField .text <|
  .cons "labels" textsField .texts <|
  .cons "annotations" textsField .texts <|
  .cons "resourceVersion" textField .text .nil

/-- The metadata of a row. -/
def ofRow : Row → Metadata
  | (typeName, name, space, controlSpace, labels, annotations, revision, ()) =>
    { typeName, name, space, controlSpace, labels, annotations, revision }

/-- The row of metadata. -/
def toRow (m : Metadata) : Row :=
  (m.typeName, m.name, m.space, m.controlSpace, m.labels, m.annotations, m.revision, ())

/-- The layout of metadata on their own; unknown fields are read over. -/
def shape : Shape Metadata :=
  .via (.record "ConfigMeta" false fields) ofRow toRow fun _ => rfl

end Metadata

end ConfigRegistry
