/-
# Compact JSON text

The text of a tree has no blanks, and shows members in the order in which the tree holds them.
Inside a string a quote and a backslash are written with a backslash before them, and so are the
five control characters that have a letter; the other characters below the space are written as
four hexadecimal digits, and everything else, whatever its code point, as itself.
-/
import ConfigRegistry.Json.Basic

namespace ConfigRegistry.Json

/-- The lower-case hexadecimal digit of a number below sixteen. -/
def hexDigit (n : Nat) : Char := Nat.digitChar n

/-- A character as it stands inside a JSON string. -/
def escapeChar (c : Char) : List Char :=
  match c with
  | '"' => ['\\', '"']
  | '\\' => ['\\', '\\']
  | '\x08' => ['\\', 'b']
  | '\x0c' => ['\\', 'f']
  | '\n' => ['\\', 'n']
  | '\r' => ['\\', 'r']
  | '\t' => ['\\', 't']
  | c =>
    if c.toNat < 0x20 then
      ['\\', 'u', '0', '0', hexDigit (c.toNat / 16), hexDigit (c.toNat % 16)]
    else [c]

/-- A JSON string. -/
def printString (s : String) : List Char :=
  '"' :: s.toList.flatMap escapeChar ++ ['"']

/-- The text of a number, with doubles in a given style. -/
def Number.print (style : FloatStyle) : Number → List Char
  | .integer i => if i < 0 then '-' :: Nat.toDigits 10 i.natAbs else Nat.toDigits 10 i.natAbs
  | .real x => x.toText style

mutual

/-- The text of a tree. -/
def print : Json → List Char
  | null => ['n', 'u', 'l', 'l']
  | bool true => ['t', 'r', 'u', 'e']
  | bool false => ['f', 'a', 'l', 's', 'e']
  | number n => n.print .json
  | string s => printString s
  | array [] => ['[', ']']
  | array (x :: xs) => '[' :: (print x ++ printItems xs) ++ [']']
  | object [] => ['{', '}']
  | object ((k, v) :: ms) => '{' :: (printString k ++ ':' :: print v ++ printMembers ms) ++ ['}']

/-- The items after the first one, each with the comma before it. -/
def printItems : List Json → List Char
  | [] => []
  | x :: xs => ',' :: print x ++ printItems xs

/-- The members after the first one, each with the comma before it. -/
def printMembers : List (String × Json) → List Char
  | [] => []
  | (k, v) :: ms => ',' :: printString k ++ ':' :: print v ++ printMembers ms

end

/-- The compact text of a tree. -/
def render (j : Json) : String := String.ofList j.print

end ConfigRegistry.Json
