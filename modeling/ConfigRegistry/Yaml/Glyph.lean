/-
# Characters of a YAML text and their places

Whether a character of a YAML text indents a line, continues a scalar or begins a key depends on
its column, so the text is first laid out as a list of glyphs, characters with their places.  A
line break of any of the usual forms becomes one line feed on the way; only the line and the
paragraph separator stay as they are.  The list ends in a glyph of the null character, which no
text may contain: looking ahead never runs out of glyphs.
-/
import ConfigRegistry.Yaml.Fault

namespace ConfigRegistry.Yaml

/-- The next line, of the second block of controls, which is a line break. -/
def nextLine : Char := '\x85'

/-- The separator of lines. -/
def lineSeparator : Char := '\u2028'

/-- The separator of paragraphs. -/
def paragraphSeparator : Char := '\u2029'

/-- The mark that may stand at the very beginning of a text. -/
def byteOrderMark : Char := '\ufeff'

/-- The glyph after the last one. -/
def endMark : Char := '\x00'

/-- A character that ends a line. -/
def isBreak (c : Char) : Bool :=
  c == '\n' || c == '\r' || c == nextLine || c == lineSeparator || c == paragraphSeparator

/-- A space or a tab. -/
def isBlank (c : Char) : Bool := c == ' ' || c == '\t'

/-- The end of the text. -/
def isEnd (c : Char) : Bool := c == endMark

/-- A break or the end. -/
def isBreakOrEnd (c : Char) : Bool := isBreak c || isEnd c

/-- A character that no word goes over: a blank, a break or the end. -/
def isGap (c : Char) : Bool := isBlank c || isBreakOrEnd c

/-- A character of an anchor, a handle or a directive. -/
def isWordChar (c : Char) : Bool := c.isAlphanum || c == '_' || c == '-'

/-- A character that a YAML text may contain. -/
def isAllowed (c : Char) : Bool :=
  let n := c.toNat
  n == 0x09 || n == 0x0a || n == 0x0d || (0x20 ≤ n && n ≤ 0x7e) || n == 0x85 ||
    (0xa0 ≤ n && n ≤ 0xd7ff) || (0xe000 ≤ n && n ≤ 0xfffd) || 0x10000 ≤ n

/-- A character at its place. -/
structure Glyph where
  char : Char
  /-- How many characters come before. -/
  index : Nat
  /-- How many lines come before. -/
  line : Nat
  /-- How many characters of the line come before. -/
  column : Nat
deriving DecidableEq, Repr

namespace Glyph

/-- Lays out characters from a place on. -/
def layOut (index line column : Nat) : List Char → List Glyph
  | [] => [⟨endMark, index, line, column⟩]
  | '\r' :: '\n' :: rest => ⟨'\n', index, line, column⟩ :: layOut (index + 2) (line + 1) 0 rest
  | c :: rest =>
    if isBreak c then
      let c := if c == lineSeparator || c == paragraphSeparator then c else '\n'
      ⟨c, index, line, column⟩ :: layOut (index + 1) (line + 1) 0 rest
    else ⟨c, index, line, column⟩ :: layOut (index + 1) line (column + 1) rest

/-- The glyphs of a text, unless a character is not allowed.  All characters are looked at before
the first token is read, so where there is such a character no document can be read, not even one
that ends before it.  A reader that takes a text in pieces, of 16384 bytes each, would read the
documents that end before the piece with the character. -/
def ofText (text : List Char) : Except Fault (List Glyph) :=
  if text.all isAllowed then .ok (layOut 0 0 0 text) else .error .controlCharacter

end Glyph

/-- The next character. -/
def nextChar (s : List Glyph) : Char :=
  match s with
  | [] => endMark
  | g :: _ => g.char

/-- The character after a number of others. -/
def charAt (s : List Glyph) (n : Nat) : Char := nextChar (s.drop n)

/-- The column of the next character. -/
def column (s : List Glyph) : Nat :=
  match s with
  | [] => 0
  | g :: _ => g.column

/-- Whether a line begins here with the mark of a document, `---` or `...`. -/
def atMark (mark : Char) (s : List Glyph) : Bool :=
  column s == 0 && nextChar s == mark && charAt s 1 == mark && charAt s 2 == mark &&
    isGap (charAt s 3)

/-- Whether a line begins here with either mark of a document. -/
def atDocumentMark (s : List Glyph) : Bool := atMark '-' s || atMark '.' s

/-- The characters as long as they pass a test, and what is left. -/
def takeChars (p : Char → Bool) : List Glyph → List Char × List Glyph
  | [] => ([], [])
  | g :: rest =>
    if p g.char then
      let (cs, rest) := takeChars p rest
      (g.char :: cs, rest)
    else ([], g :: rest)

/-- What is left after blanks. -/
def dropBlanks (s : List Glyph) : List Glyph := s.dropWhile fun g => isBlank g.char

/-- What is left after a comment, if one begins here. -/
def dropComment (s : List Glyph) : List Glyph :=
  if nextChar s == '#' then s.dropWhile fun g => !isBreakOrEnd g.char else s

/-- What is left after the break that ends a line here; at the end of the text nothing is
taken. -/
def dropBreak (s : List Glyph) : List Glyph := if isBreak (nextChar s) then s.drop 1 else s

end ConfigRegistry.Yaml
