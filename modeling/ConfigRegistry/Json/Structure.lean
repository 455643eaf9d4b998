/-
# Lists and objects in JSON text

What stands between the items of a list and the members of an object, for any reader of an item
or of the value of a member.  The readers here start after the opening bracket and leave the
closing one to `closeList` and `closeObject`.
-/
import ConfigRegistry.Json.Quotation
import ConfigRegistry.Json.Numeral

namespace ConfigRegistry.Json.Reader

variable {α σ : Type}

/-- Whether one more item follows; takes the comma before it, which the first item has not. -/
def nextItem (first : Bool) : Reader Bool := do
  match ← peekToken with
  | none => breach .endInList 1
  | some ']' => pure false
  | some c =>
    if first then pure true
    else if c == ',' then do
      skip
      match ← peekToken with
      | none => breach .endInValue 1
      | some ']' => breach .trailingComma 1
      | some _ => pure true
    else breach .listCommaExpected 1

/-- Takes the bracket that closes a list. -/
def closeList : Reader Unit := do
  match ← peekToken with
  | none => breach .endInList 1
  | some ']' => skip
  | some ',' => do
    skip
    match ← peekToken with
    | some ']' => breach .trailingComma 1
    | _ => breach .trailingCharacters 1
  | some _ => breach .trailingCharacters 1

/-- Takes the brace that closes an object. -/
def closeObject : Reader Unit := do
  match ← peekToken with
  | none => breach .endInObject 1
  | some '}' => skip
  | some ',' => breach .trailingComma 1
  | some _ => breach .trailingCharacters 1

/-- The key of the next member, if one follows. -/
def nextKey (first : Bool) : Reader (Option String) := do
  let key : Reader (Option String) := do
    match ← peekToken with
    | none => breach .endInValue 1
    | some '"' => do skip; return some (← stringBody)
    | some '}' => breach (if first then .keyNotString else .trailingComma) 1
    | some _ => breach .keyNotString 1
  match ← peekToken with
  | none => breach .endInObject 1
  | some '}' => pure none
  | some c =>
    if first then key
    else if c == ',' then do skip; key
    else breach .objectCommaExpected 1

/-- Takes the colon between a key and its value. -/
def colon : Reader Unit := do
  match ← peekToken with
  | none => breach .endInObject 1
  | some ':' => skip
  | some _ => breach .colonExpected 1

/-- The items from here on, with a bound on their number. -/
def itemsFrom (item : Reader α) : Nat → Bool → Reader (List α)
  | 0, _ => breach .endInList 1
  | fuel + 1, first => do
    if ← nextItem first then
      let a ← item
      return a :: (← itemsFrom item fuel false)
    else pure []

/-- The items of a list.  Each takes at least one character, so their number is bounded by the
length of the text. -/
def items (item : Reader α) : Reader (List α) := fun s =>
  itemsFrom item (s.length + 1) true s

/-- Carries a state through the members from here on, with a bound on their number. -/
def membersFrom (step : String → σ → Reader σ) : Nat → Bool → σ → Reader σ
  | 0, _, _ => breach .endInObject 1
  | fuel + 1, first, state => do
    match ← nextKey first with
    | none => pure state
    | some key => do
      let state ← step key state
      membersFrom step fuel false state

/-- Carries a state through the members of an object; the step is run after the key of a member
and reads the rest of it. -/
def members (step : String → σ → Reader σ) (state : σ) : Reader σ := fun s =>
  membersFrom step (s.length + 1) true state s

end ConfigRegistry.Json.Reader
