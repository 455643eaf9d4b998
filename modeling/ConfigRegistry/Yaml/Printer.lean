/-
# YAML texts of generic trees

A tree is written in block style: the entries of a mapping and the items of a sequence stand each
on lines of their own, two columns deeper than what they belong to.  Only a sequence that is the
value of a simple key is not indented, and only empty collections are written in brackets.  A key
is *simple* if it is short and on one line; any other key is introduced by a question mark.
-/
import ConfigRegistry.Yaml.Scalar.Written
import ConfigRegistry.Json.Printer

namespace ConfigRegistry.Yaml

/-- The greatest length of a simple key, in bytes. -/
def simpleKeyLimit : Nat := 128

/-- Whether a key needs no question mark. -/
def isSimpleKey (key : String) : Bool :=
  !key.toList.any isBreak && key.utf8ByteSize ≤ simpleKeyLimit

/-- The beginning of a new line after a text, up to a column.  A literal block may have ended the
line already. -/
def lineAfter (text : List Char) (column : Nat) : List Char :=
  (if endsWith isBreak text then [] else ['\n']) ++ spaces column

/-- What stands before an entry: the first one goes on with the line. -/
def beforeEntry (column : Nat) : Option (List Char) → List Char
  | none => []
  | some text => lineAfter text column

/-- Whether a tree takes lines of its own. -/
def hasEntries : Json → Bool
  | .array items => !items.isEmpty
  | .object members => !members.isEmpty
  | _ => false

/-- The column for the value of a simple key. -/
def besideColumn (column : Nat) (value : Json) : Nat :=
  match value with
  | .array (_ :: _) => column
  | _ => column + 2

/-- What stands between a simple key and its value. -/
def besideLead (column : Nat) (value : Json) : List Char :=
  if hasEntries value then ':' :: '\n' :: spaces (besideColumn column value) else [':', ' ']

/-- A number as a scalar. -/
def writeNumber (n : Json.Number) : List Char := n.print .yaml

mutual

/-- A tree right after an indicator.  The entries of a collection, and the lines of a scalar but
for the first one, begin at a column. -/
def print (column : Nat) : Json → List Char
  | .null => ['n', 'u', 'l', 'l']
  | .bool true => ['t', 'r', 'u', 'e']
  | .bool false => ['f', 'a', 'l', 's', 'e']
  | .number n => writeNumber n
  | .string s => writeText column s
  | .array items => if items.isEmpty then ['[', ']'] else printItems column none items
  | .object members => if members.isEmpty then ['{', '}'] else printEntries column none members

/-- The items of a sequence, the first one after another text or none. -/
def printItems (column : Nat) (before : Option (List Char)) : List Json → List Char
  | [] => []
  | x :: xs =>
    let item := '-' :: ' ' :: print (column + 2) x
    beforeEntry column before ++ item ++ printItems column (some item) xs

/-- The entries of a mapping, the first one after another text or none. -/
def printEntries (column : Nat) (before : Option (List Char)) :
    List (String × Json) → List Char
  | [] => []
  | (k, v) :: ms =>
    let key := writeText (column + 2) k
    let entry :=
      if isSimpleKey k then key ++ besideLead column v ++ print (besideColumn column v) v
      else '?' :: ' ' :: key ++ lineAfter key column ++ ':' :: ' ' :: print (column + 2) v
    beforeEntry column before ++ entry ++ printEntries column (some entry) ms

end

/-- The column of a tree that is a whole document. -/
def rootColumn : Json → Nat
  | .string _ => 2
  | _ => 0

/-- The text of a document that holds a tree. -/
def render (j : Json) : String :=
  let text := print (rootColumn j) j
  String.ofList (text ++ lineAfter text 0)

end ConfigRegistry.Yaml
