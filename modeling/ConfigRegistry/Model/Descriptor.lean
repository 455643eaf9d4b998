/-
# Descriptors

A descriptor is the ordered set of the schemas that a registry knows, in which no type name and no
message name comes twice.  Two indexes lead from the names to the places of the schemas.  A
descriptor turns objects into entries, which it validates, and entries into objects.
-/
import ConfigRegistry.Model.Entry
import ConfigRegistry.Model.Object
import ConfigRegistry.Model.Schema

namespace ConfigRegistry

/-- The schemas that a registry knows. -/
structure Descriptor where
  /-- The schemas, in the order of registration. -/
  schemas : List Schema
  /-- The places of the schemas by type name. -/
  byType : SortedMap String Nat
  /-- The places of the schemas by message name. -/
  byMessage : SortedMap String Nat

namespace Descriptor

/-- The descriptor without schemas. -/
def empty : Descriptor := ⟨[], ∅, ∅⟩

/-- The number of schemas. -/
def size (d : Descriptor) : Nat := d.schemas.length

/-- Whether there is no schema. -/
def isEmpty (d : Descriptor) : Bool := d.schemas.isEmpty

/-- Adds a schema behind the others. -/
def register (d : Descriptor) (s : Schema) : Except ModelError Descriptor :=
  if d.byType.contains s.typeName then .error (.duplicateType s.typeName)
  else if d.byMessage.contains s.messageName then .error (.duplicateMessage s.messageName)
  else .ok {
    schemas := d.schemas ++ [s]
    byType := d.byType.insert s.typeName d.size
    byMessage := d.byMessage.insert s.messageName d.size }

/-- The descriptor of schemas, which are registered in order. -/
def ofSchemas (schemas : List Schema) : Except ModelError Descriptor :=
  schemas.foldlM register empty

/-- The type names, in the order of registration. -/
def types (d : Descriptor) : List String := d.schemas.map Schema.typeName

/-- The schema of a type name. -/
def schemaOfType? (d : Descriptor) (typeName : String) : Option Schema :=
  (d.byType.find? typeName).bind (d.schemas[·]?)

/-- The schema of a message name. -/
def schemaOfMessage? (d : Descriptor) (messageName : String) : Option Schema :=
  (d.byMessage.find? messageName).bind (d.schemas[·]?)

/-- The schema of a type name that has to be known. -/
def schemaOfType (d : Descriptor) (typeName : String) : Except ModelError Schema :=
  match d.schemaOfType? typeName with
  | some s => .ok s
  | none => .error (.unknownType typeName)

/-- Checks that the type of an entry is known and that its payload is valid; gives the schema of
the type. -/
def validate (d : Descriptor) (e : Entry) : Audited ModelError Schema := do
  let s ← Audited.ofExcept (d.schemaOfType e.metadata.typeName)
  s.validate e.payload
  return s

/-- The entry that an object describes. -/
def ofObject (d : Descriptor) (o : ConfigObject) : Audited ModelError Entry := do
  let s ← Audited.ofExcept (d.schemaOfType o.metadata.typeName)
  let payload ← Audited.ofExcept (s.ofTree o.spec)
  s.validate payload
  return ⟨o.metadata, payload⟩

/-- The entry that the YAML text of an object describes. -/
def ofYaml (d : Descriptor) (text : String) : Audited ModelError Entry := do
  let o ← Audited.ofExcept ((ConfigObject.shape.ofYaml text).mapError .parse)
  d.ofObject o

/-- The object that describes an entry. -/
def toObject (d : Descriptor) (e : Entry) : Except ModelError ConfigObject :=
  match d.schemaOfType? e.metadata.typeName with
  | none => .error (.missingType e.metadata.typeName)
  | some s => do return { metadata := e.metadata, spec := ← s.toTree e.payload }

/-- The YAML text that describes an entry. -/
def toYaml (d : Descriptor) (e : Entry) : Except ModelError String :=
  ConfigObject.toYaml <$> d.toObject e

end Descriptor

end ConfigRegistry
