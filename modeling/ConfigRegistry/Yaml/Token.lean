/-
# Tokens of a YAML text

The structure of a text shows in its tokens: brackets and indicators, and the brackets that the
indentation implies.
-/
import ConfigRegistry.Yaml.Scalar.Quoted
import ConfigRegistry.Yaml.Scalar.Plain
import ConfigRegistry.Yaml.Scalar.Block

namespace ConfigRegistry.Yaml

/-- A token. -/
inductive Token where
  /-- A directive that tells the version of the language. -/
  | version (major minor : Nat)
  /-- A directive that lets a handle stand for the beginning of tags. -/
  | handle (name lead : String)
  | documentStart
  | documentEnd
  /-- The end of the text. -/
  | streamEnd
  /-- The place from which on the text has no tokens, for a reason. -/
  | broken (why : Fault)
  | blockSequenceStart
  | blockMappingStart
  /-- The end of a block that began with one of the two tokens before. -/
  | blockEnd
  | flowSequenceStart
  | flowSequenceEnd
  | flowMappingStart
  | flowMappingEnd
  /-- The hyphen before an item of a block. -/
  | blockEntry
  /-- The comma inside a flow collection. -/
  | flowEntry
  /-- The beginning of a key, which the text may show by a question mark. -/
  | key
  /-- The colon before a value. -/
  | value
  | alias (name : String)
  | anchor (name : String)
  /-- A tag; the handle is empty if the tag is written in full. -/
  | tag (handle suffix : String)
  | scalar (style : Style) (text : String)
deriving DecidableEq, Repr

/-! ## Words and tags -/

/-- Reads the name of an anchor or alias, of which the indicator has been taken. -/
def readAnchor (s : List Glyph) : Except Fault (String × List Glyph) :=
  let (name, rest) := takeChars isWordChar s
  let c := nextChar rest
  if name.isEmpty || !(isGap c || ['?', ':', ',', ']', '}', '%', '@', '\x60'].contains c) then
    .error .badAnchor
  else .ok (String.ofList name, rest)

/-- A character of a tag; inside angle brackets there may be more of them. -/
def isTagChar (verbatim : Bool) (c : Char) : Bool :=
  isWordChar c || [';', '/', '?', ':', '@', '&', '=', '+', '$', '.', '%', '!', '~', '*', '\'', '(',
    ')'].contains c || (verbatim && [',', '[', ']'].contains c)

/-- An octet written as a percent sign and two hexadecimal digits. -/
def readOctet (s : List Glyph) : Option (Nat × List Glyph) :=
  if nextChar s == '%' then do
    let high ← hexDigitValue (charAt s 1)
    let low ← hexDigitValue (charAt s 2)
    some (high * 16 + low, s.drop 3)
  else none

/-- How many octets encode a character whose first one is given, and what the first one tells of
its code point. -/
def octetHead (n : Nat) : Option (Nat × Nat) :=
  if n < 0x80 then some (1, n)
  else if 0xc0 ≤ n && n < 0xe0 then some (2, n - 0xc0)
  else if 0xe0 ≤ n && n < 0xf0 then some (3, n - 0xe0)
  else if 0xf0 ≤ n && n < 0xf8 then some (4, n - 0xf0)
  else none

/-- Reads the octets of a character after the first one. -/
def readOctetTail : Nat → Nat → List Glyph → Option (Nat × List Glyph)
  | 0, n, s => some (n, s)
  | count + 1, n, s => do
    let (octet, s) ← readOctet s
    if 0x80 ≤ octet && octet < 0xc0 then readOctetTail count (n * 64 + (octet - 0x80)) s else none

/-- Reads a character that is written by its octets.  A character of several octets is never
taken for one that a single octet could encode. -/
def readEscapedTagChar (s : List Glyph) : Option (Char × List Glyph) := do
  let (octet, s) ← readOctet s
  let (count, n) ← octetHead octet
  let (n, s) ← readOctetTail (count - 1) n s
  some (if count > 1 && n < 0x80 then '\ufffd' else Char.ofNat n, s)

/-- Reads characters of a tag, with a bound on their number. -/
def readTagChars (verbatim : Bool) : Nat → List Glyph → Except Fault (List Char × List Glyph)
  | 0, s => .ok ([], s)
  | fuel + 1, s => do
    let c := nextChar s
    if !isTagChar verbatim c then return ([], s)
    else if c == '%' then
      match readEscapedTagChar s with
      | some (c, s) =>
        let (cs, s) ← readTagChars verbatim fuel s
        return (c :: cs, s)
      | none => .error .badTag
    else
      let (cs, s) ← readTagChars verbatim fuel (s.drop 1)
      return (c :: cs, s)

/-- Reads an exclamation mark, a word, and the exclamation mark that makes the word a handle if
it is there. -/
def readHandle (s : List Glyph) : Except Fault (List Char × List Glyph) :=
  if nextChar s != '!' then .error .badTag
  else
    let (word, rest) := takeChars isWordChar (s.drop 1)
    if nextChar rest == '!' then .ok ('!' :: word ++ ['!'], rest.drop 1)
    else .ok ('!' :: word, rest)

/-- Reads a tag, of which the exclamation mark has not been taken. -/
def readTag (flow : Bool) (s : List Glyph) : Except Fault (Token × List Glyph) := do
  let (token, s) ←
    if charAt s 1 == '<' then do
      let (suffix, s) ← readTagChars true s.length (s.drop 2)
      if suffix.isEmpty || nextChar s != '>' then .error .badTag
      else pure (Token.tag "" (String.ofList suffix), s.drop 1)
    else do
      let (handle, s) ← readHandle s
      let (suffix, s) ← readTagChars false s.length s
      if handle.length > 1 && handle.getLast? == some '!' then
        if suffix.isEmpty then .error .badTag
        else pure (Token.tag (String.ofList handle) (String.ofList suffix), s)
      else
        let suffix := handle.drop 1 ++ suffix
        pure (if suffix.isEmpty then .tag "" "!" else .tag "!" (String.ofList suffix), s)
  let c := nextChar s
  if isGap c || (flow && c == ',') then return (token, s) else .error .badTag

/-! ## Directives -/

/-- Reads a number of at most nine digits. -/
def readVersionNumber (s : List Glyph) : Except Fault (Nat × List Glyph) :=
  let (digits, rest) := takeChars Char.isDigit s
  if digits.isEmpty || digits.length > 9 then .error .badDirective
  else .ok (digits.foldl (fun n c => n * 10 + (c.toNat - '0'.toNat)) 0, rest)

/-- Reads the value of a directive of a given name. -/
def readDirectiveValue (name : String) (s : List Glyph) : Except Fault (Token × List Glyph) := do
  if name == "YAML" then
    let (major, s) ← readVersionNumber (dropBlanks s)
    if nextChar s != '.' then .error .badDirective
    else
      let (minor, s) ← readVersionNumber (s.drop 1)
      return (.version major minor, s)
  else if name == "TAG" then
    let (handle, s) ← readHandle (dropBlanks s)
    if handle != ['!'] && (handle.length == 1 || handle.getLast? != some '!') then
      .error .badDirective
    else if !isBlank (nextChar s) then .error .badDirective
    else
      let (lead, s) ← readTagChars true s.length (dropBlanks s)
      if lead.isEmpty || !isGap (nextChar s) then .error .badDirective
      else return (.handle (String.ofList handle) (String.ofList lead), s)
  else .error .badDirective

/-- Reads a directive up to the end of its line; the percent sign has been taken. -/
def readDirective (s : List Glyph) : Except Fault (Token × List Glyph) := do
  let (name, s) := takeChars isWordChar s
  if name.isEmpty || !isGap (nextChar s) then .error .badDirective
  else
    let (token, s) ← readDirectiveValue (String.ofList name) s
    let s := dropComment (dropBlanks s)
    if isBreakOrEnd (nextChar s) then return (token, dropBreak s) else .error .badDirective

end ConfigRegistry.Yaml
