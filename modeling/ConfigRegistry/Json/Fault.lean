/-
# Why a JSON text cannot be read

A fault has a cause, which is a breach of the grammar or a value that does not fit, and usually a
place.  A place is what is left of the text from there on, together with a number of bytes: a
reader that refuses a character it has looked at, but not taken, points one byte past what it has
taken.  Lines are counted from one; a column is the number of bytes since the last line break.
-/
import ConfigRegistry.Mismatch

namespace ConfigRegistry.Json

/-- The breaches of the JSON grammar. -/
inductive Breach where
  | endInList
  | endInObject
  | endInString
  | endInValue
  | colonExpected
  | listCommaExpected
  | objectCommaExpected
  | identifierExpected
  | valueExpected
  | badEscape
  | badNumber
  | numberTooLarge
  | controlCharacter
  | keyNotString
  | loneSurrogate
  | unfinishedSurrogatePair
  | trailingComma
  | trailingCharacters
  | tooDeep
deriving DecidableEq, Repr

/-- The words for a breach of the grammar. -/
def Breach.message : Breach → String
  | endInList => "EOF while parsing a list"
  | endInObject => "EOF while parsing an object"
  | endInString => "EOF while parsing a string"
  | endInValue => "EOF while parsing a value"
  | colonExpected => "expected `:`"
  | listCommaExpected => "expected `,` or `]`"
  | objectCommaExpected => "expected `,` or `\x7d`"
  | identifierExpected => "expected ident"
  | valueExpected => "expected value"
  | badEscape => "invalid escape"
  | badNumber => "invalid number"
  | numberTooLarge => "number out of range"
  | controlCharacter => "control character (\\u0000-\\u001F) found while parsing a string"
  | keyNotString => "key must be a string"
  | loneSurrogate => "lone leading surrogate in hex escape"
  | unfinishedSurrogatePair => "unexpected end of hex escape"
  | trailingComma => "trailing comma"
  | trailingCharacters => "trailing characters"
  | tooDeep => "recursion limit exceeded"

/-- The cause of a fault. -/
inductive Cause where
  | breach (b : Breach)
  | mismatch (m : Mismatch)
deriving DecidableEq, Repr

/-- The words for a cause. -/
def Cause.message : Cause → String
  | breach b => b.message
  | mismatch m => m.message

/-- A place in a text: what is left of it, and a number of bytes further on. -/
structure Place where
  /-- What is left of the text. -/
  rest : List Char
  /-- How many bytes of the rest lie before the place. -/
  ahead : Nat
deriving DecidableEq, Repr

/-- A line, counted from one, and the bytes since its beginning. -/
structure Position where
  line : Nat
  column : Nat
deriving DecidableEq, Repr

namespace Position

/-- The beginning of a text. -/
def start : Position := ⟨1, 0⟩

/-- The position after one more character. -/
def after (p : Position) (c : Char) : Position :=
  if c == '\n' then ⟨p.line + 1, 0⟩ else ⟨p.line, p.column + c.utf8Size⟩

/-- The position a number of bytes further on, which may be inside a character. -/
def advance : List Char → Nat → Position → Position
  | [], _, p => p
  | c :: rest, bytes, p =>
    if bytes == 0 then p
    else if c.utf8Size ≤ bytes then advance rest (bytes - c.utf8Size) (p.after c)
    else ⟨p.line, p.column + bytes⟩

end Position

/-- The position of a place in the text it belongs to. -/
def Place.positionIn (text : List Char) (p : Place) : Position :=
  let taken := text.take (text.length - p.rest.length)
  Position.advance p.rest p.ahead (taken.foldl Position.after Position.start)

/-- A fault: its cause, and its place as far as it is known. -/
structure Fault where
  cause : Cause
  place : Option Place
deriving DecidableEq, Repr

/-- The words for a fault found in a text. -/
def Fault.message (text : List Char) (f : Fault) : String :=
  match f.place with
  | none => f.cause.message
  | some place =>
    let p := place.positionIn text
    f.cause.message ++ " at line " ++ toString p.line ++ " column " ++ toString p.column

end ConfigRegistry.Json
