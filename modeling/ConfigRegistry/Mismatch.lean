/-
# Values that do not fit

When a value is read at a shape it may not fit: it is of another type, a field is unknown,
missing or repeated, and so on.  A `Mismatch` names the reason, and `Mismatch.message` words it.
Where in a text the reason was found is added by the reader of that text.
-/
import ConfigRegistry.Json.Printer
import ConfigRegistry.Text.Quoted

namespace ConfigRegistry

/-- What was found where something else was expected. -/
inductive Found where
  | null
  | bool (value : Bool)
  | number (value : Json.Number)
  | text (value : String)
  | sequence
  | mapping
deriving DecidableEq, Repr

namespace Found

/-- The words for what was found. -/
def words : Found → String
  | null => "null"
  | bool b => if b then "boolean `true`" else "boolean `false`"
  | number n@(.integer _) => "integer `" ++ String.ofList (n.print .json) ++ "`"
  | number n@(.real _) => "floating point `" ++ String.ofList (n.print .json) ++ "`"
  | text s => "string " ++ Text.quoted s
  | sequence => "sequence"
  | mapping => "map"

/-- What a generic tree is found to be. -/
def ofJson : Json → Found
  | .null => null
  | .bool b => bool b
  | .number n => number n
  | .string s => text s
  | .array _ => sequence
  | .object _ => mapping

end Found

/-- Why a value does not fit a shape. -/
inductive Mismatch where
  | wrongType (found : Found) (expected : String)
  | wrongValue (found : Found) (expected : String)
  | wrongLength (length : Nat) (expected : String)
  | unknownField (name : String) (known : List String)
  | missingField (name : String)
  | repeatedField (name : String)
  | unknownVariant (name : String) (known : List String)
deriving DecidableEq, Repr

namespace Mismatch

/-- A name between back quotes. -/
def tick (name : String) : String := "`" ++ name ++ "`"

/-- The names that would have been accepted; `nothing` stands for none at all. -/
def oneOf (nothing : String) : List String → String
  | [] => nothing
  | [a] => "expected " ++ tick a
  | [a, b] => "expected " ++ tick a ++ " or " ++ tick b
  | names => "expected one of " ++ String.intercalate ", " (names.map tick)

/-- The words for a mismatch. -/
def message : Mismatch → String
  | wrongType found expected => "invalid type: " ++ found.words ++ ", expected " ++ expected
  | wrongValue found expected => "invalid value: " ++ found.words ++ ", expected " ++ expected
  | wrongLength n expected => "invalid length " ++ toString n ++ ", expected " ++ expected
  | unknownField name known =>
    "unknown field " ++ tick name ++ ", " ++ oneOf "there are no fields" known
  | missingField name => "missing field " ++ tick name
  | repeatedField name => "duplicate field " ++ tick name
  | unknownVariant name known =>
    "unknown variant " ++ tick name ++ ", " ++ oneOf "there are no variants" known

end Mismatch

end ConfigRegistry
