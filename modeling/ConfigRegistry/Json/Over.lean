/-
# Reading over a value

A field that nobody asks for is read over: its value has to be there, but no tree is built.  The
open brackets are kept in a list of their own, so nesting has no limit here.  What stands between
the brackets is looked at less closely than by a reader of trees: a comma before a closing
bracket counts as a missing value or key, and the code point of an escape does not matter.
-/
import ConfigRegistry.Json.Structure

namespace ConfigRegistry.Json

/-- An open bracket. -/
inductive Bracket where
  | list
  | object
deriving DecidableEq, Repr

namespace Bracket

/-- The character that closes the bracket. -/
def closing : Bracket → Char
  | list => ']'
  | object => '}'

/-- The text ended inside the bracket. -/
def ended : Bracket → Breach
  | list => .endInList
  | object => .endInObject

/-- Something else than a comma or the closing character followed a value. -/
def commaExpected : Bracket → Breach
  | list => .listCommaExpected
  | object => .objectCommaExpected

end Bracket

/-- Reads over an escape, of which the backslash has been taken. -/
def overEscape (s : List Char) : Except Fault { r : List Char // r.length ≤ s.length } :=
  match s with
  | [] => .error (Fault.at .endInString [] 0)
  | 'u' :: rest => (hexQuad rest).map fun (_, ⟨r, h⟩) => ⟨r, Nat.le_succ_of_le h⟩
  | c :: rest =>
    if ['"', '\\', '/', 'b', 'f', 'n', 'r', 't'].contains c then .ok ⟨rest, Nat.le_succ _⟩
    else .error (Fault.at .badEscape (c :: rest) 1)

/-- Reads over the characters of a string up to and including the closing quote. -/
def overString (s : List Char) : Reading Unit :=
  match s with
  | [] => ⟨.error (Fault.at .endInString [] 0), []⟩
  | '"' :: rest => ⟨.ok (), rest⟩
  | '\\' :: rest =>
    match overEscape rest with
    | .ok ⟨rest', _⟩ => overString rest'
    | .error e => ⟨.error e, rest⟩
  | c :: rest =>
    if c.toNat < 0x20 then ⟨.error (Fault.at .controlCharacter (c :: rest) 0), c :: rest⟩
    else overString rest
termination_by s.length
decreasing_by
  · simp; omega
  · simp

namespace Reader

/-- Takes one digit and all that follow it. -/
def overDigits : Reader Unit := do
  match ← peek with
  | none => breach .badNumber 0
  | some c => if c.isDigit then do let _ ← digits else breach .badNumber 1

/-- Reads over an exponent, if there is one. -/
def overExponent : Reader Unit := do
  match ← peek with
  | some 'e' | some 'E' => do
    skip
    match ← peek with
    | some '+' | some '-' => skip
    | _ => pure ()
    overDigits
  | _ => pure ()

/-- Reads over a number, of which a minus sign has been taken. -/
def overNumeral : Reader Unit := do
  match ← peek with
  | some '0' => do
    skip
    match ← peek with
    | some c => if c.isDigit then breach .badNumber 1 else pure ()
    | none => pure ()
  | _ => overDigits
  match ← peek with
  | some '.' => do
    skip
    match ← digits with
    | [] => breach .badNumber 1
    | _ => pure ()
    overExponent
  | _ => overExponent

/-- Reads over a key and the colon after it. -/
def overKey : Reader Unit := do
  match ← peekToken with
  | none => breach .endInObject 1
  | some '"' => do
    skip
    overString
    match ← peekToken with
    | none => breach .endInObject 1
    | some ':' => skip
    | some _ => breach .colonExpected 1
  | some _ => breach .keyNotString 1

mutual

/-- Reads over a value inside the open brackets, and on to the end of the outermost one; the
number of steps is bounded. -/
def overValue : Nat → List Bracket → Reader Unit
  | 0, _ => breach .endInValue 1
  | fuel + 1, open' => do
    match ← peekToken with
    | none => breach .endInValue 1
    | some 'n' => do skip; keyword ['u', 'l', 'l']; overRest fuel open' true
    | some 't' => do skip; keyword ['r', 'u', 'e']; overRest fuel open' true
    | some 'f' => do skip; keyword ['a', 'l', 's', 'e']; overRest fuel open' true
    | some '"' => do skip; overString; overRest fuel open' true
    | some '-' => do skip; overNumeral; overRest fuel open' true
    | some '[' => do skip; overRest fuel (.list :: open') false
    | some '{' => do skip; overRest fuel (.object :: open') false
    | some c =>
      if c.isDigit then do overNumeral; overRest fuel open' true
      else breach .valueExpected 1

/-- Goes on after a value, or after an opening bracket, after which there is no comma. -/
def overRest : Nat → List Bracket → Bool → Reader Unit
  | _, [], _ => pure ()
  | 0, b :: _, _ => breach b.ended 1
  | fuel + 1, b :: outer, comma => do
    match ← peekToken with
    | none => breach b.ended 1
    | some c =>
      if c == ',' && comma then do
        skip
        match b with
        | .list => pure ()
        | .object => overKey
        overValue fuel (b :: outer)
      else if c == b.closing then do skip; overRest fuel outer true
      else if comma then breach b.commaExpected 1
      else do
        match b with
        | .list => pure ()
        | .object => overKey
        overValue fuel (b :: outer)

end

/-- Reads over one value.  Of any two steps one takes a character, so their number is bounded by
the length of the text. -/
def readOver : Reader Unit := fun s => overValue (2 * s.length + 2) [] s

end Reader

end ConfigRegistry.Json
