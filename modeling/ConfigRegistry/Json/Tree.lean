/-
# Reading generic trees

`Json.Reader.tree` reads any value.  The members of an object come out in ascending order of
their keys, and of a repeated key the last value counts.
-/
import ConfigRegistry.Json.Structure

namespace ConfigRegistry.Json

namespace Reader

/-- Reads any value, at most `depth - 1` lists and objects deep. -/
def tree : Nat → Reader Json
  | 0 => breach .tooDeep 1
  | depth + 1 => settle do
    match ← peekToken with
    | none => breach .endInValue 1
    | some 'n' => do skip; keyword ['u', 'l', 'l']; pure .null
    | some 't' => do skip; keyword ['r', 'u', 'e']; pure (.bool true)
    | some 'f' => do skip; keyword ['a', 'l', 's', 'e']; pure (.bool false)
    | some '"' => do skip; return .string (← stringBody)
    | some '-' => do skip; return .number (← numeral true)
    | some '[' =>
      if depth = 0 then breach .tooDeep 1
      else do
        skip
        return .array (← (items (tree depth)).closedBy closeList)
    | some '{' =>
      if depth = 0 then breach .tooDeep 1
      else do
        skip
        let member (key : String) (ms : List (String × Json)) : Reader (List (String × Json)) := do
          colon
          return insertEntry key (← tree depth) ms
        return .object (← (members member []).closedBy closeObject)
    | some c => if c.isDigit then return .number (← numeral false) else breach .valueExpected 1

end Reader

/-- The tree that a text stands for. -/
def parse (text : String) : Except Fault Json :=
  (Reader.tree Reader.depthLimit).run text

end ConfigRegistry.Json
