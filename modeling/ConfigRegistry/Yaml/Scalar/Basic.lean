/-
# Scalars and the folding of their lines

A scalar over several lines is *folded*: a single line feed between two lines becomes a space,
and of more line feeds the first one vanishes.  While blanks and breaks are read it is not known
yet whether anything follows them; a `Pending` keeps them until it is.
-/
import ConfigRegistry.Yaml.Glyph

namespace ConfigRegistry.Yaml

/-- How a scalar is written. -/
inductive Style where
  | plain
  | singleQuoted
  | doubleQuoted
  | literal
  | folded
deriving DecidableEq, Repr

/-- Blanks and breaks that have been read after the last visible character. -/
structure Pending where
  /-- The blanks before the first break. -/
  blanks : List Char := []
  /-- Whether the line has ended, so that blanks indent. -/
  lineEnded : Bool := false
  /-- The first break, if it counts. -/
  first : List Char := []
  /-- The breaks after the first one. -/
  more : List Char := []
deriving DecidableEq, Repr

namespace Pending

/-- Nothing has been read. -/
def none : Pending := {}

/-- Whether nothing has been read. -/
def isNone (p : Pending) : Bool := p.blanks.isEmpty && !p.lineEnded

/-- One more blank. -/
def blank (p : Pending) (c : Char) : Pending :=
  if p.lineEnded then p else { p with blanks := p.blanks ++ [c] }

/-- One more break. -/
def lineBreak (p : Pending) (c : Char) : Pending :=
  if p.lineEnded then { p with more := p.more ++ [c] }
  else { blanks := [], lineEnded := true, first := [c], more := [] }

/-- What the blanks and breaks stand for, now that something follows them. -/
def fold (p : Pending) : List Char :=
  if !p.lineEnded then p.blanks
  else if p.first == ['\n'] then (if p.more.isEmpty then [' '] else p.more)
  else p.first ++ p.more

end Pending

end ConfigRegistry.Yaml
