/-
# How a text is written as a scalar

A text is written as a plain scalar if it then reads as itself.  A text with line feeds is written
as a literal block, and one that is spelled like something else, such as a number, in single
quotes.  Where such a style cannot carry the text, because of blanks at its ends or characters
that do not show, the next one of plain, single and double quotes is taken; double quotes can
carry any text.
-/
import ConfigRegistry.Yaml.Scalar.Resolution

namespace ConfigRegistry.Yaml

/-- A character that may be written as itself.  Tabs and byte order marks are not, and neither
are the two last code points of the first plane. -/
def isPrintable (c : Char) : Bool :=
  let n := c.toNat
  n == 0x0a || (0x20 ≤ n && n ≤ 0x7e) || (0xa0 ≤ n && n ≤ 0xd7ff) ||
    (0xe000 ≤ n && n ≤ 0xfffd && n != 0xfeff) || 0x10000 ≤ n

/-- Whether somewhere a character of one kind stands right before one of another kind. -/
def hasAdjacent (p q : Char → Bool) : List Char → Bool
  | c :: d :: rest => (p c && q d) || hasAdjacent p q (d :: rest)
  | _ => false

/-- Whether the first character of a list is of a kind. -/
def beginsWith (p : Char → Bool) (s : List Char) : Bool :=
  match s with
  | c :: _ => p c
  | [] => false

/-- Whether the last character of a list is of a kind. -/
def endsWith (p : Char → Bool) (s : List Char) : Bool :=
  match s.getLast? with
  | some c => p c
  | none => false

/-- A space. -/
def isSpace (c : Char) : Bool := c == ' '

/-- A character with which no plain scalar begins. -/
def isIndicator (c : Char) : Bool :=
  ['#', ',', '[', ']', '{', '}', '&', '*', '!', '|', '>', '\'', '"', '%', '@', '\x60'].contains c

/-- Whether the text goes on with a gap, or ends. -/
def gapFollows (s : List Char) : Bool :=
  match s with
  | c :: _ => isGap c
  | [] => true

/-- Whether an indicator stands after the first character of a text: a colon before a gap, or a
number sign after one. -/
def hasInnerIndicator (previous : Char) : List Char → Bool
  | [] => false
  | c :: rest =>
    (c == ':' && gapFollows rest) || (c == '#' && isGap previous) || hasInnerIndicator c rest

/-- Whether a text would be taken for something else than a plain scalar. -/
def hasIndicator (s : List Char) : Bool :=
  match s with
  | [] => false
  | c :: rest =>
    s.take 3 == ['-', '-', '-'] || s.take 3 == ['.', '.', '.'] || isIndicator c ||
      ((c == '?' || c == ':' || c == '-') && gapFollows rest) || hasInnerIndicator c rest

/-- Whether a text cannot be written without escapes. -/
def needsEscapes (s : List Char) : Bool :=
  s.any (fun c => !isPrintable c) || hasAdjacent isSpace isBreak s

/-- Whether a plain scalar can carry a text. -/
def plainCarries (s : List Char) : Bool :=
  !(needsEscapes s || s.any isBreak || beginsWith isSpace s || endsWith isSpace s ||
    hasIndicator s)

/-- Whether a scalar in single quotes can carry a text. -/
def singleCarries (s : List Char) : Bool :=
  !(needsEscapes s || hasAdjacent isBreak isSpace s)

/-- Whether a literal block can carry a text. -/
def literalCarries (s : List Char) : Bool := !(needsEscapes s || endsWith isSpace s)

/-- Whether a text would not be read as a text if it were plain. -/
def isAmbiguous (s : String) : Bool := resolve s != .text || isZeroLed s.toList

/-- The style in which a text is written. -/
def styleOf (s : String) : Style :=
  let cs := s.toList
  if cs.contains '\n' then (if literalCarries cs then .literal else .doubleQuoted)
  else if !isAmbiguous s && plainCarries cs then .plain
  else if singleCarries cs then .singleQuoted
  else .doubleQuoted

/-! ## Texts of scalars -/

/-- The spaces before a column. -/
def spaces (column : Nat) : List Char := List.replicate column ' '

/-- The body of a literal block whose lines begin at a column.  Empty lines stay empty. -/
def literalBody (column : Nat) (lineStart : Bool) : List Char → List Char
  | [] => []
  | c :: rest =>
    if isBreak c then c :: literalBody column true rest
    else (if lineStart then spaces column else []) ++ c :: literalBody column false rest

/-- What the header of a literal block tells of the breaks at the end of a text. -/
def chompingMark (s : List Char) : List Char :=
  match s.reverse with
  | [] => ['-']
  | [c] => if isBreak c then ['+'] else ['-']
  | c :: d :: _ => if !isBreak c then ['-'] else if isBreak d then ['+'] else []

/-- A literal block.  Its indentation is told if the first line does not show it. -/
def writeLiteral (column : Nat) (s : List Char) : List Char :=
  let increment := if beginsWith (fun c => isSpace c || isBreak c) s then ['2'] else []
  '|' :: increment ++ chompingMark s ++ '\n' :: literalBody column true s

/-- The body of a scalar in single quotes, and the closing quote.  After a break the line begins
at a column. -/
def singleBody (column : Nat) (lineStart : Bool) : List Char → List Char
  | [] => (if lineStart then spaces column else []) ++ ['\'']
  | c :: rest =>
    if isBreak c then c :: singleBody column true rest
    else
      let c' := if c == '\'' then ['\'', '\''] else [c]
      (if lineStart then spaces column else []) ++ c' ++ singleBody column false rest

/-- An upper-case hexadecimal digit. -/
def hexDigit (n : Nat) : Char := (Nat.digitChar n).toUpper

/-- The last `width` hexadecimal digits of a number. -/
def hexDigits : Nat → Nat → List Char
  | 0, _ => []
  | width + 1, n => hexDigits width (n / 16) ++ [hexDigit (n % 16)]

/-- The escape of a character that may not be written as itself; all of those are in the first
plane. -/
def escapeOf (c : Char) : List Char :=
  let n := c.toNat
  match c with
  | '\x00' => ['\\', '0']
  | '\x07' => ['\\', 'a']
  | '\x08' => ['\\', 'b']
  | '\t' => ['\\', 't']
  | '\n' => ['\\', 'n']
  | '\x0b' => ['\\', 'v']
  | '\x0c' => ['\\', 'f']
  | '\r' => ['\\', 'r']
  | '\x1b' => ['\\', 'e']
  | '"' => ['\\', '"']
  | '\\' => ['\\', '\\']
  | '\x85' => ['\\', 'N']
  | '\u2028' => ['\\', 'L']
  | '\u2029' => ['\\', 'P']
  | _ =>
    if n ≤ 0xff then '\\' :: 'x' :: hexDigits 2 n
    else '\\' :: 'u' :: hexDigits 4 n

/-- A character as it stands between double quotes. -/
def writeInDouble (c : Char) : List Char :=
  if !isPrintable c || isBreak c || c == '"' || c == '\\' then escapeOf c else [c]

/-- A text as a scalar; the lines after its first one begin at a column. -/
def writeText (column : Nat) (s : String) : List Char :=
  let cs := s.toList
  match styleOf s with
  | .plain => cs
  | .singleQuoted => '\'' :: singleBody column false cs
  | .literal => writeLiteral column cs
  | .doubleQuoted | .folded => '"' :: cs.flatMap writeInDouble ++ ['"']

end ConfigRegistry.Yaml
