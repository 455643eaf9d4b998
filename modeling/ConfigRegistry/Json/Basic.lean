/-
# Generic trees

A generic tree is a JSON value.  An object is a list of members, because the text of a record
shows its fields in declared order; trees that come from a reader hold their members in ascending
order of the keys, each key once, so for them equality of values is equality of trees.
-/
import ConfigRegistry.SortedMap
import ConfigRegistry.Number.Style

namespace ConfigRegistry

/-- A number of a generic tree: an integer of at most 64 bits, signed or not, or a finite
double. -/
inductive Json.Number where
  | integer (value : Int)
  | real (value : Binary64)
deriving DecidableEq, Repr

/-- A JSON value. -/
inductive Json where
  | null
  | bool (value : Bool)
  | number (value : Json.Number)
  | string (value : String)
  | array (items : List Json)
  | object (members : List (String × Json))
deriving Repr, Inhabited

namespace Json

mutual

/-- Decides equality of trees. -/
def decEq : (a b : Json) → Decidable (a = b)
  | null, null => .isTrue rfl
  | bool a, bool b => if h : a = b then .isTrue (h ▸ rfl) else .isFalse (by simp [h])
  | number a, number b => if h : a = b then .isTrue (h ▸ rfl) else .isFalse (by simp [h])
  | string a, string b => if h : a = b then .isTrue (h ▸ rfl) else .isFalse (by simp [h])
  | array a, array b =>
    match decEqItems a b with
    | .isTrue h => .isTrue (h ▸ rfl)
    | .isFalse h => .isFalse (by simp [h])
  | object a, object b =>
    match decEqMembers a b with
    | .isTrue h => .isTrue (h ▸ rfl)
    | .isFalse h => .isFalse (by simp [h])
  | null, bool _ | null, number _ | null, string _ | null, array _ | null, object _
  | bool _, null | bool _, number _ | bool _, string _ | bool _, array _ | bool _, object _
  | number _, null | number _, bool _ | number _, string _ | number _, array _
  | number _, object _
  | string _, null | string _, bool _ | string _, number _ | string _, array _
  | string _, object _
  | array _, null | array _, bool _ | array _, number _ | array _, string _ | array _, object _
  | object _, null | object _, bool _ | object _, number _ | object _, string _
  | object _, array _ => .isFalse (by simp)

/-- Decides equality of lists of trees. -/
def decEqItems : (a b : List Json) → Decidable (a = b)
  | [], [] => .isTrue rfl
  | x :: a, y :: b =>
    match decEq x y, decEqItems a b with
    | .isTrue h, .isTrue h' => .isTrue (h ▸ h' ▸ rfl)
    | .isFalse h, _ => .isFalse (by simp [h])
    | _, .isFalse h => .isFalse (by simp [h])
  | [], _ :: _ | _ :: _, [] => .isFalse (by simp)

/-- Decides equality of lists of members. -/
def decEqMembers : (a b : List (String × Json)) → Decidable (a = b)
  | [], [] => .isTrue rfl
  | (k, x) :: a, (l, y) :: b =>
    if hk : k = l then
      match decEq x y, decEqMembers a b with
      | .isTrue h, .isTrue h' => .isTrue (hk ▸ h ▸ h' ▸ rfl)
      | .isFalse h, _ => .isFalse (by simp [h])
      | _, .isFalse h => .isFalse (by simp [h])
    else .isFalse (by simp [hk])
  | [], _ :: _ | _ :: _, [] => .isFalse (by simp)

end

instance : DecidableEq Json := decEq

/-- Whether the tree is `null`. -/
def isNull : Json → Bool
  | null => true
  | _ => false

/-- The member of an object with a given key; none if the tree is no object. -/
def get? (key : String) : Json → Option Json
  | object members => members.lookup key
  | _ => none

end Json

end ConfigRegistry
