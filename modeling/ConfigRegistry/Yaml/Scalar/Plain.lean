/-
# Plain scalars

A plain scalar has no quotes.  It ends before a colon that a gap follows, before a comment, before
the mark of a document, before a line that is not indented enough, and inside a flow collection
also before a comma or bracket.
-/
import ConfigRegistry.Yaml.Scalar.Basic

namespace ConfigRegistry.Yaml

/-- An indicator that ends a plain scalar inside a flow collection. -/
def isFlowIndicator (c : Char) : Bool :=
  c == ',' || c == '[' || c == ']' || c == '{' || c == '}'

/-- A plain scalar that has been read. -/
structure Plain where
  text : String
  /-- What is left, after the blanks and breaks behind the scalar. -/
  rest : List Glyph
  /-- Whether a break was among them. -/
  lineEnded : Bool

/-- The scalar of the characters read, the last one first, before what is left. -/
def Plain.ofRead (done : List Char) (p : Pending) (rest : List Glyph) : Plain :=
  ⟨String.ofList done.reverse, rest, p.lineEnded⟩

/-- Reads a plain scalar.  Its lines after the first one are indented by `indent` columns or more
unless it stands in a flow collection.  The characters read so far are `done`, the last one
first. -/
def plain (flow : Bool) (indent : Int) (done : List Char) (p : Pending) :
    List Glyph → Except Fault Plain
  | [] => .ok (.ofRead done p [])
  | g :: rest =>
    if isEnd g.char then .ok (.ofRead done p (g :: rest))
    else if isBlank g.char then
      if p.lineEnded && g.column < indent && g.char == '\t' then .error .tabIndents
      else plain flow indent done (p.blank g.char) rest
    else if isBreak g.char then plain flow indent done (p.lineBreak g.char) rest
    else if !p.isNone && ((!flow && g.column < indent) || atDocumentMark (g :: rest) ||
        g.char == '#') then .ok (.ofRead done p (g :: rest))
    else if flow && g.char == ':' && (isFlowIndicator (nextChar rest) || nextChar rest == '?') then
      .error .unexpectedColon
    else if (g.char == ':' && isGap (nextChar rest)) || (flow && isFlowIndicator g.char) then
      .ok (.ofRead done p (g :: rest))
    else plain flow indent (g.char :: (p.fold.reverse ++ done)) .none rest

end ConfigRegistry.Yaml
