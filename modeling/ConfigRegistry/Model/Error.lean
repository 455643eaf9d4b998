/-
# Errors of the model

What can go wrong when schemas are registered and when payloads are read, written and checked.
Each error carries its cause; `ModelError.message` words it.
-/
import ConfigRegistry.Json.Fault
import ConfigRegistry.Yaml.Fault

namespace ConfigRegistry

/-- Why a payload cannot be read. -/
inductive DecodingCause where
  /-- The canonical text of the payload is at fault. -/
  | json (fault : Json.Fault) (text : String)
  /-- The tree is no mapping. -/
  | notMapping (tree : Json)
  /-- The YAML text is at fault. -/
  | yaml (fault : Yaml.Fault)
deriving DecidableEq

namespace DecodingCause

/-- The words for a cause. -/
def message : DecodingCause → String
  | json fault text => fault.message text.toList ++ ": " ++ text
  | notMapping tree => "expected a mapping, found " ++ tree.render
  | yaml fault => fault.message

end DecodingCause

/-- An error of the model. -/
inductive ModelError where
  /-- A type is not registered. -/
  | unknownType (typeName : String)
  /-- An entry names a type that is not registered, so that it cannot be written. -/
  | missingType (typeName : String)
  /-- The message name of a schema stands for no kind of payload. -/
  | unknownMessage (messageName : String)
  /-- A payload cannot be written. -/
  | encoding (fault : Json.Fault) (text : String)
  /-- A payload cannot be read. -/
  | decoding (cause : DecodingCause)
  /-- The text of an object cannot be read. -/
  | parse (fault : Yaml.Fault)
  /-- The type name of a schema is no label. -/
  | invalidType (typeName : String)
  /-- The plural of a schema is no label. -/
  | invalidPlural (plural : String)
  /-- A payload is of another message type than its schema has. -/
  | payloadMismatch (expected found : String)
  /-- A validator has rejected a payload, in its own words. -/
  | rejected (reason : String)
  /-- Two schemas have the same type name. -/
  | duplicateType (typeName : String)
  /-- Two schemas have the same message name. -/
  | duplicateMessage (messageName : String)
deriving DecidableEq

namespace ModelError

/-- The words for an error. -/
def message : ModelError → String
  | unknownType typeName => "unknown spec type " ++ typeName
  | missingType typeName => "missing type " ++ Text.quoted typeName
  | unknownMessage messageName => "unknown message type " ++ Text.quoted messageName
  | encoding fault text => "encoding error: " ++ fault.message text.toList
  | decoding cause => "decoding error: " ++ cause.message
  | parse fault => "parse error: " ++ fault.message
  | invalidType typeName => "invalid type: " ++ Text.quoted typeName
  | invalidPlural plural => "invalid plural: " ++ Text.quoted plural
  | payloadMismatch expected found =>
    "spec message type " ++ Text.quoted found ++ " does not match schema message type " ++
      Text.quoted expected
  | rejected reason => reason
  | duplicateType typeName => "duplicate type " ++ Text.quoted typeName
  | duplicateMessage messageName => "duplicate message name " ++ Text.quoted messageName

/-- Whether the error comes from checking a schema or a payload. -/
def isValidation : ModelError → Bool
  | invalidType _ | invalidPlural _ | unknownMessage _ | payloadMismatch _ _ | rejected _ => true
  | _ => false

end ModelError

end ConfigRegistry
