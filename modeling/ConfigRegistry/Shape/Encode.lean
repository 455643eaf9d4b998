/-
# Writing values of a shape

The tree of a value shows the fields of a record in declared order and leaves out those that may
be omitted.  Its compact text is the canonical JSON text of the value.
-/
import ConfigRegistry.Shape.Basic
import ConfigRegistry.Json.Printer

namespace ConfigRegistry

mutual

/-- The tree of a value. -/
def Shape.encode : {α : Type} → Shape α → α → Json
  | _, .text, s => .string s
  | _, .path, s => .string s
  | _, .flag, b => .bool b
  | _, .word, n => .number (.integer n.toNat)
  | _, .choice names, i => .string (names.get i)
  | _, .tree, j => j
  | _, .texts, m => .object (m.toList.map fun (k, v) => (k, .string v))
  | _, .option _, none => .null
  | _, .option content, some a => content.encode a
  | _, .list item, l => .array (l.map item.encode)
  | _, .record _ _ fields, b => .object (fields.encode b)
  | _, .via content _ unpack _, a => content.encode (unpack a)

/-- The members of a record. -/
def Fields.encode : {β σ : Type} → Fields β σ → β → List (String × Json)
  | _, _, .nil, () => []
  | _, _, .cons name presence content more, (a, b) =>
    if presence.omits a then more.encode b else (name, content.encode a) :: more.encode b

end

/-- The canonical JSON text of a value. -/
def Shape.toText {α : Type} (shape : Shape α) (a : α) : String := (shape.encode a).render

end ConfigRegistry
