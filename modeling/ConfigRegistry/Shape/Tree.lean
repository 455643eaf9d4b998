/-
# Reading values of a shape from a generic tree

A record is read from an object, member by member, or from an array that holds its fields in
declared order.  Of an array the items at the end may be missing if their fields have a default.
-/
import ConfigRegistry.Shape.Basic
import ConfigRegistry.Mismatch

namespace ConfigRegistry

/-- The place of a name in a list of names. -/
def variant (names : List String) (name : String) : Except Mismatch (Fin names.length) :=
  match h : names.findIdx? (· == name) with
  | some i => .ok ⟨i, (List.findIdx?_eq_some_iff_findIdx_eq.1 h).1⟩
  | none => .error (.unknownVariant name names)

/-- A number as a natural number of 16 bits. -/
def wordOf (n : Json.Number) : Except Mismatch UInt16 :=
  match n with
  | .integer i =>
    if 0 ≤ i && i < twoTo 16 then .ok (UInt16.ofNat i.toNat)
    else .error (.wrongValue (.number n) "u16")
  | .real _ => .error (.wrongType (.number n) "u16")

/-- The value of a field: the one found, or the default. -/
def Presence.settle {α : Type} (presence : Presence α) (name : String) (found : Option α) :
    Except Mismatch α :=
  match found, presence.fallback with
  | some a, _ => .ok a
  | none, some a => .ok a
  | none, none => .error (.missingField name)

/-- The values of a record whose members have all been read. -/
def Fields.settle : {β σ : Type} → Fields β σ → σ → Except Mismatch β
  | _, _, .nil, () => .ok ()
  | _, _, .cons name presence _ more, (found, rest) => do
    let a ← presence.settle name found
    return (a, ← more.settle rest)

mutual

/-- Reads a value from a tree. -/
def Shape.ofTree : {α : Type} → Shape α → Json → Except Mismatch α
  | _, .text, .string s => .ok s
  | _, .text, j => .error (.wrongType (.ofJson j) "a string")
  | _, .path, .string s => .ok s
  | _, .path, j => .error (.wrongType (.ofJson j) "path string")
  | _, .flag, .bool b => .ok b
  | _, .flag, j => .error (.wrongType (.ofJson j) "a boolean")
  | _, .word, .number n => wordOf n
  | _, .word, j => .error (.wrongType (.ofJson j) "u16")
  | _, .choice names, .string s => variant names s
  | _, .choice names, .object [(name, content)] => do
    let i ← variant names name
    if content.isNull then .ok i else .error (.wrongType (.ofJson content) "unit")
  | _, .choice _, .object _ => .error (.wrongValue .mapping "map with a single key")
  | _, .choice _, j => .error (.wrongType (.ofJson j) "string or map")
  | _, .tree, j => .ok j
  | _, .texts, .object members => do
    let entries ← members.mapM fun (k, v) =>
      match v with
      | .string s => .ok (k, s)
      | j => .error (.wrongType (.ofJson j) "a string")
    return .ofList entries
  | _, .texts, j => .error (.wrongType (.ofJson j) "a map")
  | _, .option _, .null => .ok none
  | _, .option content, j => some <$> content.ofTree j
  | _, .list item, .array items => items.mapM item.ofTree
  | _, .list _, j => .error (.wrongType (.ofJson j) "a sequence")
  | _, .record _ strict fields, .object members => do
    let found ← members.foldlM (fun found (k, v) => do
      match ← fields.memberOfTree k v found with
      | some found => return found
      | none => if strict then .error (.unknownField k fields.names) else return found)
      fields.noneFound
    fields.settle found
  | _, .record name _ fields, .array items => do
    let (b, left) ← fields.positionalOfTree name fields.names.length 0 items
    if left.isEmpty then return b
    else .error (.wrongLength items.length "fewer elements in array")
  | _, .record name _ _, j => .error (.wrongType (.ofJson j) ("struct " ++ name))
  | _, .via content pack _ _, j => pack <$> content.ofTree j

/-- Reads a member into the field of its name; none if there is no such field. -/
def Fields.memberOfTree : {β σ : Type} → Fields β σ → String → Json → σ →
    Except Mismatch (Option σ)
  | _, _, .nil, _, _, _ => .ok none
  | _, _, .cons name _ content more, key, v, (found, rest) =>
    if key == name then
      match found with
      | some _ => .error (.repeatedField name)
      | none => do return some (some (← content.ofTree v), rest)
    else do
      match ← more.memberOfTree key v rest with
      | some rest => return some (found, rest)
      | none => return none

/-- Reads the fields from the items of an array, and returns the items that are left over. -/
def Fields.positionalOfTree : {β σ : Type} → Fields β σ → String → Nat → Nat → List Json →
    Except Mismatch (β × List Json)
  | _, _, .nil, _, _, _, items => .ok ((), items)
  | _, _, .cons _ presence content more, record, count, index, items => do
    match items, presence.fallback with
    | v :: items, _ =>
      let a ← content.ofTree v
      let (b, left) ← more.positionalOfTree record count (index + 1) items
      return ((a, b), left)
    | [], some a =>
      let (b, left) ← more.positionalOfTree record count (index + 1) []
      return ((a, b), left)
    | [], none => .error (.wrongLength index (recordWithElements record count))

end

end ConfigRegistry
