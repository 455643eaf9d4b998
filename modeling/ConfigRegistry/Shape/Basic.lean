/-
# Shapes

A shape describes how values of a type are laid out in a document: as a text, a list, a record
with named fields, and so on.  It is data, so one shape serves to write its values and to read
them from a generic tree, from JSON text and from YAML, and what is proved by induction on shapes
holds of every type that has one.

`Shape α` is indexed by the type of the values.  `Fields β σ` lists the fields of a record whose
values together form the product `β`; `σ` is the type of the values found so far, each of which
may still be missing.
-/
import ConfigRegistry.Json.Basic

namespace ConfigRegistry

/-- When the field of a record may be left out. -/
structure Presence (α : Type) where
  /-- The value of a field that is not given; none if it has to be given. -/
  fallback : Option α
  /-- Which values are left out when the record is written. -/
  omits : α → Bool

namespace Presence

variable {α : Type}

/-- The field is always given and always written. -/
def required : Presence α := ⟨none, fun _ => false⟩

/-- The field has a value also when it is not given, and is always written. -/
def withDefault (a : α) : Presence α := ⟨some a, fun _ => false⟩

/-- The field is left out when it has its default value. -/
def omittedWhen (isDefault : α → Bool) (a : α) : Presence α := ⟨some a, isDefault⟩

end Presence

mutual

/-- How values of a type are laid out. -/
inductive Shape : Type → Type 1
  /-- A text. -/
  | text : Shape String
  /-- A text that names a file or directory. -/
  | path : Shape String
  /-- A truth value. -/
  | flag : Shape Bool
  /-- A natural number of 16 bits. -/
  | word : Shape UInt16
  /-- One of several names. -/
  | choice (names : List String) : Shape (Fin names.length)
  /-- Any value at all. -/
  | tree : Shape Json
  /-- Texts under keys of any kind. -/
  | texts : Shape TextMap
  /-- A value or nothing. -/
  | option {α : Type} (content : Shape α) : Shape (Option α)
  /-- Any number of values. -/
  | list {α : Type} (item : Shape α) : Shape (List α)
  /-- A record with a name, which messages show.  A strict record has no other fields. -/
  | record {β σ : Type} (name : String) (strict : Bool) (fields : Fields β σ) : Shape β
  /-- Values of another type that correspond to those of a shape. -/
  | via {α β : Type} (content : Shape β) (pack : β → α) (unpack : α → β)
    (pack_unpack : ∀ a, pack (unpack a) = a) : Shape α

/-- The fields of a record, in the order in which they are written. -/
inductive Fields : Type → Type → Type 1
  | nil : Fields Unit Unit
  | cons {α β σ : Type} (name : String) (presence : Presence α) (content : Shape α)
    (more : Fields β σ) : Fields (α × β) (Option α × σ)

end

namespace Fields

/-- The names of the fields. -/
def names : {β σ : Type} → Fields β σ → List String
  | _, _, .nil => []
  | _, _, .cons name _ _ more => name :: more.names

/-- No field has been found. -/
def noneFound : {β σ : Type} → Fields β σ → σ
  | _, _, .nil => ()
  | _, _, .cons _ _ _ more => (none, more.noneFound)

end Fields

/-- The words for a record with its number of fields. -/
def recordWithElements (name : String) (count : Nat) : String :=
  let elements := if count == 1 then " element" else " elements"
  "struct " ++ name ++ " with " ++ toString count ++ elements

end ConfigRegistry
