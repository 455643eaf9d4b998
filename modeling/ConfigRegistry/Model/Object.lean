/-
# Configuration objects

An object is the written form of a configuration unit: its metadata, spelled out field by field,
and its payload as a generic tree under the key `spec`.  As the metadata are fields of their own,
and not part of the tree, a scalar such as `name: 2024` is read as a text.
-/
import ConfigRegistry.Model.Metadata
import ConfigRegistry.Shape.Encode
import ConfigRegistry.Shape.Text
import ConfigRegistry.Shape.Document
import ConfigRegistry.Yaml.Printer

namespace ConfigRegistry

/-- A configuration object. -/
structure ConfigObject where
  metadata : Metadata := {}
  /-- The payload. -/
  spec : Json := .null
deriving DecidableEq

namespace ConfigObject

/-- The values of the fields of an object, in written order: those of its metadata one by one, and
then the payload. -/
abbrev Row : Type :=
  String × String × String × String × TextMap × TextMap × String × Json × Unit

/-- What has been found of the fields of an object. -/
abbrev Slots : Type :=
  Option String × Option String × Option String × Option String × Option TextMap ×
    Option TextMap × Option String × Option Json × Unit

/-- The fields of an object.  Like the others, the payload is left out when there is nothing in
it. -/
def fields : Fields Row Slots :=
  .cons "type" Metadata.textField .text <|
  .cons "name" Metadata.textField .text <|
  .cons "namespace" Metadata.textField .text <|
  .cons "istioNamespace" Metadata.textField .text <|
  .cons "labels" Metadata.textsField .texts <|
  .cons "annotations" Metadata.textsField .texts <|
  .cons "resourceVersion" Metadata.textField .text <|
  .cons "spec" (.omittedWhen Json.isNull .null) .tree .nil

/-- The object of a row. -/
def ofRow : Row → ConfigObject
  | (typeName, name, space, controlSpace, labels, annotations, revision, spec, ()) =>
    { metadata := { typeName, name, space, controlSpace, labels, annotations, revision }, spec }

/-- The row of an object. -/
def toRow (o : ConfigObject) : Row :=
  let m := o.metadata
  (m.typeName, m.name, m.space, m.controlSpace, m.labels, m.annotations, m.revision, o.spec, ())

/-- The layout of objects; unknown fields are read over. -/
def shape : Shape ConfigObject :=
  .via (.record "ObjectWire" false fields) ofRow toRow fun _ => rfl

/-- The YAML text of an object. -/
def toYaml (o : ConfigObject) : String := Yaml.render (shape.encode o)

end ConfigObject

end ConfigRegistry
