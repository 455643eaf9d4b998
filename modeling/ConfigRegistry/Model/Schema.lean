/-
# Schemas

A schema describes one configuration type: its name, its plural, the message type of its payloads,
and perhaps a validator.  It reads and writes payloads.  All ways of doing so go by the canonical
JSON text: the generic tree of a payload is what that text reads as, and a tree is read as a
payload by way of its text.

The message name may be one for which no kind of payload is known.  Such a schema has a name to be
found by, but no payload can be made or read for it.
-/
import ConfigRegistry.Model.Audit
import ConfigRegistry.Model.Error
import ConfigRegistry.Model.Label
import ConfigRegistry.Model.Payload
import ConfigRegistry.Shape.Encode
import ConfigRegistry.Shape.Text
import ConfigRegistry.Shape.Document
import ConfigRegistry.Yaml.Printer

namespace ConfigRegistry

/-- The message type of payloads. -/
inductive PayloadType where
  /-- A kind of payload. -/
  | known (kind : Kind)
  /-- A name for which no kind is known. -/
  | unknown (messageName : String)
deriving DecidableEq, Repr

namespace PayloadType

/-- The name of the message type. -/
def messageName : PayloadType → String
  | known kind => kind.messageName
  | unknown messageName => messageName

/-- The kind of payload, if it is known. -/
def kind? : PayloadType → Option Kind
  | known kind => some kind
  | unknown _ => none

end PayloadType

/-- A check of payloads that goes beyond their layout; it tells why a payload is rejected. -/
structure Validator where
  rejection : Message → Option String

/-- A configuration type. -/
structure Schema where
  typeName : String
  plural : String
  payloadType : PayloadType
  validator : Option Validator := none

namespace Schema

/-- The name of the message type of the payloads. -/
def messageName (s : Schema) : String := s.payloadType.messageName

/-- The schema with a validator. -/
def withValidator (s : Schema) (v : Validator) : Schema := { s with validator := some v }

/-- Schemas are alike if their three names are: validators cannot be compared. -/
def isLike (s t : Schema) : Bool :=
  s.typeName == t.typeName && s.plural == t.plural && s.messageName == t.messageName

/-- The kind of the payloads. -/
def kind (s : Schema) : Except ModelError Kind :=
  match s.payloadType.kind? with
  | some kind => .ok kind
  | none => .error (.unknownMessage s.messageName)

/-- Requires a message to be of the type that the schema names. -/
def checkMessage (s : Schema) (m : Message) : Except ModelError Unit :=
  if m.name == s.messageName then .ok () else .error (.payloadMismatch s.messageName m.name)

/-! ## Writing payloads -/

/-- The payload in which nothing is given. -/
def blank (s : Schema) : Except ModelError Message := s.kind.map Message.blank

/-- The canonical JSON text of a payload. -/
def toText (s : Schema) (m : Message) : Except ModelError String := do
  s.checkMessage m
  return m.kind.shape.toText m.body

/-- The generic tree of a payload. -/
def toTree (s : Schema) (m : Message) : Except ModelError Json := do
  let text ← s.toText m
  (Json.parse text).mapError fun fault => .encoding fault text

/-- The YAML text of a payload. -/
def toYaml (s : Schema) (m : Message) : Except ModelError String := Yaml.render <$> s.toTree m

/-! ## Reading payloads -/

/-- The payload of a JSON text. -/
def ofText (s : Schema) (text : String) : Except ModelError Message := do
  let kind ← s.kind
  let body ← (kind.shape.ofText text).mapError fun fault => .decoding (.json fault text)
  return ⟨kind, body⟩

/-- The payload of a generic tree, which has to be a mapping; null counts as the empty one. -/
def ofTree (s : Schema) (tree : Json) : Except ModelError Message :=
  match tree with
  | .null => s.ofText (Json.object []).render
  | .object _ => s.ofText tree.render
  | _ => .error (.decoding (.notMapping tree))

/-- The payload of a YAML text. -/
def ofYaml (s : Schema) (text : String) : Except ModelError Message := do
  let tree ← (Shape.tree.ofYaml text).mapError fun fault => .decoding (.yaml fault)
  s.ofTree tree

/-! ## Validation -/

/-- Checks the schema itself, and that the payload is of its type. -/
def checkStructure (s : Schema) (m : Message) : Except ModelError Unit := do
  if !isLabel s.typeName then .error (.invalidType s.typeName)
  else if !isLabel s.plural then .error (.invalidPlural s.plural)
  else
    let _ ← s.kind
    s.checkMessage m

/-- Has the validator, if there is one, look at a payload. -/
def runValidator (s : Schema) (m : Message) : Audited ModelError Unit :=
  match s.validator with
  | none => .pure ()
  | some v =>
    match v.rejection m with
    | none => ⟨.ok (), 1⟩
    | some reason => ⟨.error (.rejected reason), 1⟩

/-- Checks the schema itself and then the payload.  The validator runs only when there is nothing
else to object to. -/
def validate (s : Schema) (m : Message) : Audited ModelError Unit := do
  Audited.ofExcept (s.checkStructure m)
  s.runValidator m

/-! ## Description -/

/-- The words for a truth value. -/
def truthWord (b : Bool) : String := if b then "true" else "false"

/-- The schema in one line, for messages. -/
def describe (s : Schema) : String :=
  "Schema \x7b type_name: " ++ Text.quoted s.typeName ++ ", plural: " ++ Text.quoted s.plural ++
    ", message_name: " ++ Text.quoted s.messageName ++ ", resolved: " ++
    truthWord s.payloadType.kind?.isSome ++ ", has_validator: " ++
    truthWord s.validator.isSome ++ " \x7d"

end Schema

end ConfigRegistry
