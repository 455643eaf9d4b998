/-
# Quoted scalars

Between single quotes only a quote is special, and written twice.  Between double quotes a
backslash begins an escape; before a line break it joins the lines without a space.
-/
import ConfigRegistry.Yaml.Scalar.Basic

namespace ConfigRegistry.Yaml

/-- The value of a hexadecimal digit of either case. -/
def hexDigitValue (c : Char) : Option Nat :=
  if c.isDigit then some (c.toNat - '0'.toNat)
  else if 'a' ≤ c && c ≤ 'f' then some (c.toNat - 'a'.toNat + 10)
  else if 'A' ≤ c && c ≤ 'F' then some (c.toNat - 'A'.toNat + 10)
  else none

/-- The number that hexadecimal digits stand for. -/
def hexNumber (digits : List Char) : Option Nat :=
  digits.foldlM (fun n c => do return n * 16 + (← hexDigitValue c)) 0

/-- The character that an escape letter stands for on its own. -/
def escapedChar (c : Char) : Option Char :=
  match c with
  | '0' => some '\x00'
  | 'a' => some '\x07'
  | 'b' => some '\x08'
  | 't' => some '\t'
  | '\t' => some '\t'
  | 'n' => some '\n'
  | 'v' => some '\x0b'
  | 'f' => some '\x0c'
  | 'r' => some '\r'
  | 'e' => some '\x1b'
  | ' ' => some ' '
  | '"' => some '"'
  | '/' => some '/'
  | '\\' => some '\\'
  | 'N' => some nextLine
  | '_' => some '\xa0'
  | 'L' => some lineSeparator
  | 'P' => some paragraphSeparator
  | _ => none

/-- How many hexadecimal digits follow an escape letter. -/
def escapeLength (c : Char) : Option Nat :=
  match c with
  | 'x' => some 2
  | 'u' => some 4
  | 'U' => some 8
  | _ => none

/-- The character of a code point, which is no surrogate. -/
def charOfCodePoint (n : Nat) : Option Char :=
  if h : n.isValidChar then some (Char.ofNatAux n h) else none

/-- The character that an escape stands for, and how many glyphs it takes after its letter. -/
def readEscape (letter : Char) (rest : List Glyph) : Except Fault (Char × Nat) :=
  match escapedChar letter, escapeLength letter with
  | some c, _ => .ok (c, 0)
  | none, some n =>
    match (hexNumber ((rest.take n).map Glyph.char)).bind charOfCodePoint with
    | some c => .ok (c, n)
    | none => .error .badEscape
  | none, none => .error .badEscape

/-- The text of a single-quoted scalar, whose opening quote has been taken, and what is left
after the closing one.  The characters read so far are `done`, the last one first. -/
def singleQuoted (done : List Char) (p : Pending) : List Glyph → Except Fault (String × List Glyph)
  | [] => .error .unclosedQuote
  | g :: rest =>
    if isEnd g.char then .error .unclosedQuote
    else if isBlank g.char then singleQuoted done (p.blank g.char) rest
    else if isBreak g.char then singleQuoted done (p.lineBreak g.char) rest
    else if atDocumentMark (g :: rest) then .error .unclosedQuote
    else
      let done := p.fold.reverse ++ done
      if g.char != '\'' then singleQuoted (g.char :: done) .none rest
      else
        match rest with
        | h :: more =>
          if h.char == '\'' then singleQuoted ('\'' :: done) .none more
          else .ok (String.ofList done.reverse, rest)
        | [] => .ok (String.ofList done.reverse, rest)

/-- The text of a double-quoted scalar, whose opening quote has been taken, and what is left
after the closing one.  The next `skip` glyphs belong to an escape that has been read. -/
def doubleQuoted (done : List Char) (p : Pending) (skip : Nat) :
    List Glyph → Except Fault (String × List Glyph)
  | [] => .error .unclosedQuote
  | g :: rest =>
    if skip > 0 then doubleQuoted done p (skip - 1) rest
    else if isEnd g.char then .error .unclosedQuote
    else if isBlank g.char then doubleQuoted done (p.blank g.char) 0 rest
    else if isBreak g.char then doubleQuoted done (p.lineBreak g.char) 0 rest
    else if atDocumentMark (g :: rest) then .error .unclosedQuote
    else
      let done := p.fold.reverse ++ done
      if g.char == '"' then .ok (String.ofList done.reverse, rest)
      else if g.char != '\\' then doubleQuoted (g.char :: done) .none 0 rest
      else if isBreak (nextChar rest) then
        doubleQuoted done { Pending.none with lineEnded := true } 1 rest
      else
        match readEscape (nextChar rest) (rest.drop 1) with
        | .ok (c, n) => doubleQuoted (c :: done) .none (n + 1) rest
        | .error e => .error e

end ConfigRegistry.Yaml
