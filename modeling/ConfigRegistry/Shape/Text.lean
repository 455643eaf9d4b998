/-
# Reading values of a shape from JSON text

The text is read in one pass, so a fault is the first one in the order of the text, and it points
to the place that the reader had reached.  Reading the same value by way of a generic tree finds
the same values; it differs in which fault comes first, and in that a tree has forgotten repeated
keys.
-/
import ConfigRegistry.Shape.Tree
import ConfigRegistry.Json.Tree
import ConfigRegistry.Json.Over

namespace ConfigRegistry

open Json (Reader)

namespace Json.Reader

variable {α β σ : Type}

/-- Takes blanks and looks at the character that begins a value. -/
def beginning : Reader Char := do
  match ← peekToken with
  | some c => pure c
  | none => breach .endInValue 1

/-- Fails because the value here is of another type than expected.  A value without brackets is
read to name it. -/
def otherType (expected : String) : Reader α := settle do
  match ← peek with
  | some 'n' => do skip; keyword ['u', 'l', 'l']; mismatch (.wrongType .null expected)
  | some 't' => do skip; keyword ['r', 'u', 'e']; mismatch (.wrongType (.bool true) expected)
  | some 'f' => do
    skip; keyword ['a', 'l', 's', 'e']; mismatch (.wrongType (.bool false) expected)
  | some '-' => do skip; mismatch (.wrongType (.number (← numeral true)) expected)
  | some '"' => do skip; mismatch (.wrongType (.text (← stringBody)) expected)
  | some '[' => mismatch (.wrongType .sequence expected)
  | some '{' => mismatch (.wrongType .mapping expected)
  | some c =>
    if c.isDigit then do mismatch (.wrongType (.number (← numeral false)) expected)
    else breach .valueExpected 1
  | none => breach .valueExpected 1

/-- An answer that may be a mismatch. -/
def ofExcept (r : Except Mismatch α) : Reader α :=
  match r with
  | .ok a => Reader.pure a
  | .error m => mismatch m

/-- Reads a text. -/
def text (expected : String) : Reader String := settle do
  match ← beginning with
  | '"' => do skip; stringBody
  | _ => otherType expected

/-- Reads a truth value. -/
def flag : Reader Bool := settle do
  match ← beginning with
  | 't' => do skip; keyword ['r', 'u', 'e']; pure true
  | 'f' => do skip; keyword ['a', 'l', 's', 'e']; pure false
  | _ => otherType "a boolean"

/-- Reads a natural number of 16 bits. -/
def word : Reader UInt16 := settle do
  match ← beginning with
  | '-' => do skip; ofExcept (wordOf (← numeral true))
  | c => if c.isDigit then do ofExcept (wordOf (← numeral false)) else otherType "u16"

/-- Reads `null` in place of a value. -/
def unit : Reader Unit := settle do
  match ← beginning with
  | 'n' => do skip; keyword ['u', 'l', 'l']
  | _ => otherType "unit"

/-- Reads one of several names, alone or as the only key of an object that holds `null`. -/
def choice (depth : Nat) (names : List String) : Reader (Fin names.length) := do
  let name : Reader (Fin names.length) := settle do
    match ← beginning with
    | '"' => do skip; ofExcept (variant names (← stringBody))
    | _ => otherType "variant identifier"
  match ← beginning with
  | '"' => name
  | '{' => do
    let i ← nested depth fun _ => do
      skip
      let i ← name
      colon
      unit
      pure i
    match ← peekToken with
    | some '}' => do skip; pure i
    | some _ => breach .valueExpected 0
    | none => breach .endInObject 0
  | _ => breach .valueExpected 1

/-- Reads texts under keys. -/
def texts (depth : Nat) : Reader TextMap := settle do
  match ← beginning with
  | '{' => nested depth fun _ => do
    skip
    let step (key : String) (m : TextMap) : Reader TextMap := do
      colon
      return m.insert key (← text "a string")
    (members step ∅).closedBy closeObject
  | _ => otherType "a map"

/-- Reads a value or `null`. -/
def option (content : Reader α) : Reader (Option α) := do
  match ← peekToken with
  | some 'n' => do skip; keyword ['u', 'l', 'l']; pure none
  | _ => return some (← content)

/-- Reads a list. -/
def list (depth : Nat) (item : Nat → Reader α) : Reader (List α) := settle do
  match ← beginning with
  | '[' => nested depth fun depth => do
    skip
    (items (item depth)).closedBy closeList
  | _ => otherType "a sequence"

end Json.Reader

open Json.Reader

mutual

/-- Reads a value from JSON text, at most `depth - 1` lists and objects deep. -/
def Shape.reader : {α : Type} → Shape α → Nat → Reader α
  | _, .text, _ => text "a string"
  | _, .path, _ => text "path string"
  | _, .flag, _ => flag
  | _, .word, _ => word
  | _, .choice names, depth => choice depth names
  | _, .tree, depth => Json.Reader.tree depth
  | _, .texts, depth => texts depth
  | _, .option content, depth => option (content.reader depth)
  | _, .list item, depth => list depth item.reader
  | _, .record name strict fields, depth => settle do
    match ← beginning with
    | '[' => nested depth fun depth => do
      skip
      (fields.positional name fields.names.length depth 0 true).closedBy closeList
    | '{' => nested depth fun depth => do
      skip
      let content := do
        let found ← members
          (fun key found =>
            match fields.member depth key found with
            | some field => field
            | none =>
              if strict then mismatch (.unknownField key fields.names)
              else do colon; readOver; pure found)
          fields.noneFound
        ofExcept (fields.settle found)
      content.closedBy closeObject
    | _ => otherType ("struct " ++ name)
  | _, .via content pack _ _, depth => do return pack (← content.reader depth)

/-- The reader of what follows a key, into the field of that name; none if there is no such
field. -/
def Fields.member : {β σ : Type} → Fields β σ → Nat → String → σ → Option (Reader σ)
  | _, _, .nil, _, _, _ => none
  | _, _, .cons name _ content more, depth, key, (found, rest) =>
    if key == name then
      match found with
      | some _ => some (mismatch (.repeatedField name))
      | none => some do
        colon
        return (some (← content.reader depth), rest)
    else
      match more.member depth key rest with
      | some field => some do return (found, ← field)
      | none => none

/-- Reads the fields one after another as the items of a list. -/
def Fields.positional : {β σ : Type} → Fields β σ → String → Nat → Nat → Nat → Bool → Reader β
  | _, _, .nil, _, _, _, _, _ => Reader.pure ()
  | _, _, .cons _ presence content more, record, count, depth, index, first => do
    if ← nextItem first then
      let a ← content.reader depth
      return (a, ← more.positional record count depth (index + 1) false)
    else
      match presence.fallback with
      | some a => return (a, ← more.positional record count depth (index + 1) first)
      | none => mismatch (.wrongLength index (recordWithElements record count))

end

/-- The value that a JSON text stands for. -/
def Shape.ofText {α : Type} (shape : Shape α) (text : String) : Except Json.Fault α :=
  (shape.reader Json.Reader.depthLimit).run text

end ConfigRegistry
