/-
# From glyphs to tokens

Tokens are taken one after another from the front of a text.  Two things are known only later than
the token they belong to.  That a block ends shows when a line is indented less, which is why the
columns of the open blocks are kept.  That a scalar, an alias or a flow collection is a key shows
at the colon behind it, which is why the place where such a key may have begun is kept, too: at
the colon the token `key`, and before it the beginning of a block mapping if one begins there, are
put in at that place.

A key without an indicator has to end on the line where it begins, and within 1024 characters.
Where a line of a block mapping begins, the key is required: the mapping cannot go on in another
way.

When a text is at fault, the tokens before the fault are still of use, because the documents they
make up are complete.  Those from the last place on that may begin a key are not, because they
are not settled yet.
-/
import ConfigRegistry.Yaml.Token

namespace ConfigRegistry.Yaml

/-- A place where a key may have begun that has no indicator. -/
structure KeyStart where
  /-- How many tokens come before. -/
  number : Nat
  /-- Whether nothing but a key may be there. -/
  required : Bool
  index : Nat
  line : Nat
  column : Nat
deriving DecidableEq, Repr

/-- How far a text has been taken apart. -/
structure Scan where
  /-- What is left of the text. -/
  rest : List Glyph
  /-- The tokens found, the last one first. -/
  done : List Token := []
  /-- The column of the innermost block; less than zero outside of all blocks. -/
  indent : Int := -1
  /-- The columns of the blocks around it, the innermost one first. -/
  outer : List Int := []
  /-- The place where the innermost flow collection, or the block outside of all of them, may have
  begun a key. -/
  keyStart : Option KeyStart := none
  /-- The same for what is around, the innermost one first; each flow collection adds one. -/
  outerKeys : List (Option KeyStart) := []
  /-- Whether a key without an indicator may begin here. -/
  keyAllowed : Bool := true

namespace Scan

/-- Whether a flow collection is open. -/
def inFlow (s : Scan) : Bool := !s.outerKeys.isEmpty

/-- Adds a token. -/
def emit (t : Token) (s : Scan) : Scan := { s with done := t :: s.done }

/-- Puts a token in after the first `number` ones. -/
def emitAt (number : Nat) (t : Token) (s : Scan) : Scan :=
  let later := s.done.length - number
  { s with done := s.done.take later ++ t :: s.done.drop later }

/-- Takes a number of characters. -/
def skip (n : Nat) (s : Scan) : Scan := { s with rest := s.rest.drop n }

/-- Tells whether a key without an indicator may begin from here on. -/
def allowKey (allowed : Bool) (s : Scan) : Scan := { s with keyAllowed := allowed }

/-! ## Blocks -/

/-- The columns that are left of the open blocks, and the number of blocks closed, when a line
begins at a column. -/
def unrolled (column indent : Int) : List Int → Nat × Int × List Int
  | [] => if indent > column then (1, -1, []) else (0, indent, [])
  | around :: outer =>
    if indent > column then
      let (n, left) := unrolled column around outer
      (n + 1, left)
    else (0, indent, around :: outer)

/-- Closes the blocks that are indented by more than a column. -/
def unroll (column : Int) (s : Scan) : Scan :=
  if s.inFlow then s
  else
    let (closed, indent, outer) := unrolled column s.indent s.outer
    { s with done := List.replicate closed .blockEnd ++ s.done, indent, outer }

/-- Opens a block at a column, unless one is open there; its token comes after the first `number`
ones. -/
def roll (column number : Nat) (t : Token) (s : Scan) : Scan :=
  if s.inFlow then s
  else if s.indent < column then
    { s.emitAt number t with indent := column, outer := s.indent :: s.outer }
  else s

/-! ## Places where a key may have begun -/

/-- Gives up the place of the innermost level. -/
def dropKey (s : Scan) : Except Fault Scan :=
  match s.keyStart with
  | some k => if k.required then .error .colonExpected else .ok { s with keyStart := none }
  | none => .ok s

/-- Notes that a key may begin here. -/
def saveKey (s : Scan) : Except Fault Scan :=
  match s.rest with
  | [] => .ok s
  | g :: _ =>
    if s.keyAllowed then do
      let required := !s.inFlow && s.indent == g.column
      let s ← s.dropKey
      return { s with keyStart := some ⟨s.done.length, required, g.index, g.line, g.column⟩ }
    else .ok s

/-- How many characters a key without an indicator may have. -/
def keyLimit : Nat := 1024

/-- Whether a key cannot reach from its beginning to a glyph. -/
def isStale (g : Glyph) (k : KeyStart) : Bool := k.line < g.line || k.index + keyLimit < g.index

/-- A place as it stands when the glyph is reached. -/
def refreshed (g : Glyph) (k : Option KeyStart) : Except Fault (Option KeyStart) :=
  match k with
  | some k =>
    if !isStale g k then .ok (some k)
    else if k.required then .error .colonExpected
    else .ok none
  | none => .ok none

/-- Gives up the places from which no key can reach here. -/
def dropStaleKeys (s : Scan) : Except Fault Scan :=
  match s.rest with
  | [] => .ok s
  | g :: _ => do
    let outerKeys ← s.outerKeys.mapM (refreshed g)
    let keyStart ← refreshed g s.keyStart
    return { s with keyStart, outerKeys }

/-- The tokens that are settled: those before all places where a key may have begun. -/
def settled (s : Scan) : List Token :=
  let places := (s.keyStart :: s.outerKeys).filterMap id
  s.done.reverse.take (places.foldl (fun n k => min n k.number) s.done.length)

/-! ## From token to token -/

/-- What is left after blanks, breaks and comments, and whether a key may begin there.  Outside of
flow collections one may after a break; where one may, tabs are no blanks. -/
def gap (flow keyAllowed inComment : Bool) : List Glyph → Bool × List Glyph
  | [] => (keyAllowed, [])
  | g :: rest =>
    if inComment && !isBreakOrEnd g.char then gap flow keyAllowed true rest
    else if g.char == byteOrderMark && g.index == 0 then gap flow keyAllowed false rest
    else if g.char == ' ' || (g.char == '\t' && (flow || !keyAllowed)) then
      gap flow keyAllowed false rest
    else if g.char == '#' then gap flow keyAllowed true rest
    else if isBreak g.char then gap flow (keyAllowed || !flow) false rest
    else (keyAllowed, g :: rest)

/-- Takes what comes before the next token, and closes the blocks that end there. -/
def toNext (s : Scan) : Except Fault Scan := do
  let (keyAllowed, rest) := gap s.inFlow s.keyAllowed false s.rest
  let s ← dropStaleKeys { s with rest, keyAllowed }
  return s.unroll (column rest)

/-- Adds a token that a reader takes from the text. -/
def take (r : List Glyph → Except Fault (Token × List Glyph)) (s : Scan) : Except Fault Scan := do
  let (t, rest) ← r s.rest
  return { s with rest }.emit t

/-- Takes something that stands between documents. -/
def takeOutside (r : List Glyph → Except Fault (Token × List Glyph)) (s : Scan) :
    Except Fault Scan := do
  let s ← (s.unroll (-1)).dropKey
  (s.allowKey false).take r

/-- Takes the bracket that opens a flow collection. -/
def openFlow (t : Token) (s : Scan) : Except Fault Scan := do
  let s ← s.saveKey
  return ({ s with keyStart := none, outerKeys := s.keyStart :: s.outerKeys }.allowKey true).skip 1
    |>.emit t

/-- Takes the bracket that closes a flow collection. -/
def closeFlow (t : Token) (s : Scan) : Except Fault Scan := do
  let s ← s.dropKey
  let s := match s.outerKeys with
    | [] => s
    | k :: outerKeys => { s with keyStart := k, outerKeys }
  return ((s.allowKey false).skip 1).emit t

/-- Takes a comma. -/
def flowEntry (s : Scan) : Except Fault Scan := do
  let s ← s.dropKey
  return ((s.allowKey true).skip 1).emit .flowEntry

/-- Takes the hyphen of an item. -/
def blockEntry (s : Scan) : Except Fault Scan := do
  if !s.inFlow && !s.keyAllowed then .error .entryNotAllowed
  else
    let s ← (s.roll (column s.rest) s.done.length .blockSequenceStart).dropKey
    return ((s.allowKey true).skip 1).emit .blockEntry

/-- Takes the question mark of a key. -/
def keyMark (s : Scan) : Except Fault Scan := do
  if !s.inFlow && !s.keyAllowed then .error .keyNotAllowed
  else
    let s ← (s.roll (column s.rest) s.done.length .blockMappingStart).dropKey
    return ((s.allowKey !s.inFlow).skip 1).emit .key

/-- Takes the colon of a value. -/
def valueMark (s : Scan) : Except Fault Scan :=
  match s.keyStart with
  | some k =>
    let s := (s.emitAt k.number .key).roll k.column k.number .blockMappingStart
    .ok (({ s with keyStart := none }.allowKey false).skip 1 |>.emit .value)
  | none =>
    if !s.inFlow && !s.keyAllowed then .error .valueNotAllowed
    else
      let s := s.roll (column s.rest) s.done.length .blockMappingStart
      .ok (((s.allowKey !s.inFlow).skip 1).emit .value)

/-- Takes something that may be a key or begin one. -/
def takeInLine (r : List Glyph → Except Fault (Token × List Glyph)) (s : Scan) :
    Except Fault Scan := do
  let s ← s.saveKey
  (s.allowKey false).take r

/-- Takes a block scalar. -/
def blockScalar (literal : Bool) (s : Scan) : Except Fault Scan := do
  let s ← s.dropKey
  (s.allowKey true).take fun rest => do
    let (text, rest) ← block literal s.indent (rest.drop 1)
    return (.scalar (if literal then .literal else .folded) text, rest)

/-- Takes a plain scalar. -/
def plainScalar (s : Scan) : Except Fault Scan := do
  let s ← s.saveKey
  let p ← plain s.inFlow (s.indent + 1) [] .none s.rest
  return { s with rest := p.rest, keyAllowed := p.lineEnded }.emit (.scalar .plain p.text)

/-- Whether a plain scalar begins with the next character. -/
def beginsPlain (s : Scan) : Bool :=
  let c := nextChar s.rest
  let indicators := ['-', '?', ':', ',', '[', ']', '{', '}', '#', '&', '*', '!', '|', '>', '\'',
    '"', '%', '@', '\x60']
  !(isGap c || indicators.contains c) || (c == '-' && !isBlank (charAt s.rest 1)) ||
    (!s.inFlow && (c == '?' || c == ':') && !isGap (charAt s.rest 1))

/-- Takes the end of the text. -/
def close (s : Scan) : Except Fault Scan := s.takeOutside fun rest => .ok (.streamEnd, rest)

/-- Takes the next token, which begins right here. -/
def takeNext (s : Scan) : Except Fault Scan :=
  let c := nextChar s.rest
  let ahead := isGap (charAt s.rest 1)
  if isEnd c then s.close
  else if column s.rest == 0 && c == '%' then s.takeOutside fun rest => readDirective (rest.drop 1)
  else if atMark '-' s.rest then s.takeOutside fun rest => .ok (.documentStart, rest.drop 3)
  else if atMark '.' s.rest then s.takeOutside fun rest => .ok (.documentEnd, rest.drop 3)
  else if c == '[' then s.openFlow .flowSequenceStart
  else if c == '{' then s.openFlow .flowMappingStart
  else if c == ']' then s.closeFlow .flowSequenceEnd
  else if c == '}' then s.closeFlow .flowMappingEnd
  else if c == ',' then s.flowEntry
  else if c == '-' && ahead then s.blockEntry
  else if c == '?' && (s.inFlow || ahead) then s.keyMark
  else if c == ':' && (s.inFlow || ahead) then s.valueMark
  else if c == '*' then s.takeInLine fun rest => do
    let (name, rest) ← readAnchor (rest.drop 1)
    return (.alias name, rest)
  else if c == '&' then s.takeInLine fun rest => do
    let (name, rest) ← readAnchor (rest.drop 1)
    return (.anchor name, rest)
  else if c == '!' then s.takeInLine (readTag s.inFlow)
  else if c == '|' && !s.inFlow then s.blockScalar true
  else if c == '>' && !s.inFlow then s.blockScalar false
  else if c == '\'' then s.takeInLine fun rest => do
    let (text, rest) ← singleQuoted [] .none (rest.drop 1)
    return (.scalar .singleQuoted text, rest)
  else if c == '"' then s.takeInLine fun rest => do
    let (text, rest) ← doubleQuoted [] .none 0 (rest.drop 1)
    return (.scalar .doubleQuoted text, rest)
  else if s.beginsPlain then s.plainScalar
  else .error .noToken

/-- Whether the end of the text has been taken. -/
def isOver (s : Scan) : Bool := s.done.head? == some .streamEnd

/-- The tokens of a text of which some may have been found already, with a bound on the number of
those to come. -/
def tokens : Nat → Scan → List Token
  | 0, s => s.settled ++ [.broken .endOfTokens]
  | fuel + 1, s =>
    match s.dropStaleKeys with
    | .error e => s.settled ++ [.broken e]
    | .ok s =>
      match s.toNext >>= takeNext with
      | .error e => s.settled ++ [.broken e]
      | .ok next => if next.isOver then next.done.reverse else next.tokens fuel

end Scan

/-- The tokens of a text.  The last one is the end of the text, or tells why there are no more.
Every token but the last takes at least one character. -/
def Token.ofText (text : List Char) : List Token :=
  match Glyph.ofText text with
  | .ok glyphs => Scan.tokens (glyphs.length + 1) { rest := glyphs }
  | .error e => [.broken e]

end ConfigRegistry.Yaml
