/-
# Reading values of a shape from YAML

A text field takes the text of any scalar as it is written, whatever it would stand for in a
generic tree.  Where nothing is written, at the value of a key or in a whole document, a record
has only its defaults, and a list and a map are empty.  Unlike in JSON, a record is never written
as a list.
-/
import ConfigRegistry.Shape.Tree
import ConfigRegistry.Yaml.Tree

namespace ConfigRegistry

open Yaml (Node Document Fault Style Visit)

namespace Yaml

/-- The reason for which a YAML text does not fit, for one that is worded for JSON. -/
def Fault.ofMismatch : Mismatch → Fault
  | .wrongType _ _ => .wrongType
  | .wrongValue _ _ => .wrongValue
  | .wrongLength _ _ => .wrongType
  | .unknownField name _ => .unknownField name
  | .missingField name => .missingField name
  | .repeatedField name => .repeatedField name
  | .unknownVariant name _ => .unknownVariant name

/-- An answer that may be a mismatch. -/
def Visit.ofMismatch {α : Type} (r : Except Mismatch α) : Visit α :=
  Visit.ofExcept (r.mapError Fault.ofMismatch)

/-- Whether a scalar is read by what it is spelled like, as a value of a standard type: it is
plain, or a literal block with the tag of that type. -/
def isSpelled (standard : String) (tag : Option String) (style : Style) : Bool :=
  style == .plain || (style == .literal && tag == some standard)

/-- Whether a node is written as nothing at all. -/
def isNothing : Node Nat → Bool
  | .scalar _ _ .plain "" => true
  | _ => false

/-- Whether a scalar in place of an option stands for no value. -/
def isAbsent (tag : Option String) (style : Style) (text : String) : Except Fault Bool :=
  match style, tag with
  | .plain, none => .ok (text.isEmpty || isNullWord text)
  | .plain, some tag =>
    if tag != nullTag then .ok false
    else if isNullWord text then .ok true
    else .error .wrongValue
  | _, _ => .ok false

/-- The truth value of a node. -/
def flagOf (n : Node Nat) : Except Fault Bool :=
  match n with
  | .scalar _ tag style text =>
    match truthOf? text with
    | some b => if isSpelled boolTag tag style then .ok b else .error .wrongType
    | none => .error .wrongType
  | _ => .error .wrongType

/-- The natural number of 16 bits of a node. -/
def wordOfNode (n : Node Nat) : Except Fault UInt16 :=
  match n with
  | .scalar _ tag style text =>
    match naturalOf? text.toList with
    | some n =>
      if !isSpelled intTag tag style then .error .wrongType
      else if n < twoTo 16 then .ok (UInt16.ofNat n)
      else .error .wrongValue
    | none => .error .wrongType
  | _ => .error .wrongType

/-- The name, out of several, that a node gives: by its text, or by its tag if there is nothing
else. -/
def choiceOf (names : List String) (n : Node Nat) : Except Fault (Fin names.length) :=
  match n with
  | .scalar _ tag style text =>
    match localName? tag with
    | none => (variant names text).mapError Fault.ofMismatch
    | some name => do
      let i ← (variant names name).mapError Fault.ofMismatch
      if style == .plain && (text.isEmpty || isNullWord text) then return i
      else .error .wrongType
  | _ => .error .wrongType

/-- The content of a collection, read one level deeper. -/
def nested {α : Type} (depth : Nat) (v : Nat → Visit α) : Visit α :=
  match depth with
  | 0 => Visit.fault .tooDeep
  | depth + 1 => v depth

/-- The entries of a mapping. -/
def entriesOf (n : Node Nat) : Visit (List (Node Nat × Node Nat)) :=
  match n with
  | .mapping _ _ entries => Visit.pure entries
  | n => if isNothing n then Visit.pure [] else Visit.fault .wrongType

/-- The items of a sequence. -/
def itemsOf (n : Node Nat) : Visit (List (Node Nat)) :=
  match n with
  | .sequence _ _ items => Visit.pure items
  | n => if isNothing n then Visit.pure [] else Visit.fault .wrongType

/-- Carries a state through the entries of a mapping. -/
def foldEntries {σ : Type} (step : Node Nat → Node Nat → σ → Visit σ) (state : σ) :
    List (Node Nat × Node Nat) → Visit σ
  | [] => Visit.pure state
  | (key, value) :: entries => do foldEntries step (← step key value state) entries

end Yaml

open Yaml

mutual

/-- Reads a value from a node, at most `depth` collections deep. -/
def Shape.ofNode : {α : Type} → Shape α → Document → Nat → Node Nat → Visit α
  | _, .text, d, _, n => d.textOf n
  | _, .path, d, _, n => d.textOf n
  | _, .flag, d, _, n => do Visit.ofExcept (flagOf (← d.follow n))
  | _, .word, d, _, n => do Visit.ofExcept (wordOfNode (← d.follow n))
  | _, .choice names, d, _, n => do Visit.ofExcept (choiceOf names (← d.follow n))
  | _, .tree, d, depth, n => d.tree depth n
  | _, .texts, d, depth, n => do
    let entries ← entriesOf (← d.follow n)
    let step (key value : Node Nat) (m : TextMap) : Visit TextMap := do
      let key ← d.textOf key
      return m.insert key (← d.textOf value)
    nested depth fun _ => foldEntries step ∅ entries
  | _, .option content, d, depth, n => do
    let n ← d.follow n
    let absent ← match n with
      | .scalar _ tag style text => Visit.ofExcept (isAbsent tag style text)
      | _ => Visit.pure false
    if absent then return none else return some (← content.ofNode d depth n)
  | _, .list item, d, depth, n => do
    let items ← itemsOf (← d.follow n)
    nested depth fun depth => items.mapM (item.ofNode d depth)
  | _, .record _ strict fields, d, depth, n => do
    let entries ← entriesOf (← d.follow n)
    nested depth fun depth => do
      let found ← foldEntries
        (fun key value found => do
          let name ← d.textOf key
          match fields.memberOfNode d depth name value found with
          | some field => field
          | none => if strict then Visit.fault (.unknownField name) else return found)
        fields.noneFound entries
      Visit.ofMismatch (fields.settle found)
  | _, .via content pack _ _, d, depth, n => do return pack (← content.ofNode d depth n)

/-- The reader of a value into the field of a name; none if there is no such field. -/
def Fields.memberOfNode : {β σ : Type} → Fields β σ → Document → Nat → String → Node Nat → σ →
    Option (Visit σ)
  | _, _, .nil, _, _, _, _, _ => none
  | _, _, .cons name _ content more, d, depth, key, value, (found, rest) =>
    if key == name then
      match found with
      | some _ => some (Visit.fault (.repeatedField name))
      | none => some do return (some (← content.ofNode d depth value), rest)
    else
      match more.memberOfNode d depth key value rest with
      | some field => some do return (found, ← field)
      | none => none

end

namespace Shape

variable {α : Type}

/-- The value of a document. -/
def ofDocument (shape : Shape α) (d : Document) : Except Fault α :=
  d.visit (shape.ofNode d nestingLimit)

/-- The value of a YAML text of a single document. -/
def ofYaml (shape : Shape α) (text : String) : Except Fault α :=
  Document.ofText text >>= shape.ofDocument

end Shape

end ConfigRegistry
