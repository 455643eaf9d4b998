/-
# Block scalars

A block scalar is introduced by a bar, which keeps its line breaks, or by a greater-than sign,
which folds them.  It comprises the lines after its header that are indented enough.  How much
that is follows from the first line that is not empty, unless the header tells; the header also
tells what becomes of the breaks at the end.
-/
import ConfigRegistry.Yaml.Scalar.Basic

namespace ConfigRegistry.Yaml

/-- What becomes of the breaks at the end of a block scalar. -/
inductive Chomping where
  /-- All go. -/
  | strip
  /-- One stays. -/
  | clip
  /-- All stay. -/
  | keep
deriving DecidableEq, Repr

/-- The header of a block scalar. -/
structure BlockHeader where
  chomping : Chomping
  /-- How much deeper than its surroundings the scalar is indented, if the header tells. -/
  increment : Option Nat
deriving DecidableEq, Repr

/-- The chomping that a character stands for. -/
def chompingOf (c : Char) : Option Chomping :=
  match c with
  | '-' => some .strip
  | '+' => some .keep
  | _ => none

/-- Reads an indentation of the header, which is not zero. -/
def readIncrement (s : List Glyph) : Except Fault (Option Nat × List Glyph) :=
  let c := nextChar s
  if c == '0' then .error .badBlockHeader
  else if c.isDigit then .ok (some (c.toNat - '0'.toNat), s.drop 1)
  else .ok (none, s)

/-- Reads the two parts of a header in either order. -/
def readHeaderParts (s : List Glyph) : Except Fault (BlockHeader × List Glyph) := do
  match chompingOf (nextChar s) with
  | some chomping =>
    let (increment, s) ← readIncrement (s.drop 1)
    return (⟨chomping, increment⟩, s)
  | none =>
    match ← readIncrement s with
    | (none, s) => return (⟨.clip, none⟩, s)
    | (some n, s) =>
      match chompingOf (nextChar s) with
      | some chomping => return (⟨chomping, some n⟩, s.drop 1)
      | none => return (⟨.clip, some n⟩, s)

/-- Reads a header up to the end of its line. -/
def readHeader (s : List Glyph) : Except Fault (BlockHeader × List Glyph) := do
  let (header, s) ← readHeaderParts s
  let s := dropComment (dropBlanks s)
  if isBreakOrEnd (nextChar s) then return (header, dropBreak s) else .error .badBlockHeader

/-- Empty lines at the beginning of a block scalar. -/
structure EmptyLines where
  /-- Their breaks. -/
  breaks : List Char
  /-- The greatest column reached in them and in the blanks before the first visible
  character. -/
  depth : Nat
  rest : List Glyph

/-- Reads empty lines at the beginning.  Spaces indent up to the column `indent`, or without
limit if that is not known. -/
def emptyLines (indent : Option Nat) (breaks : List Char) (depth : Nat) :
    List Glyph → Except Fault EmptyLines
  | [] => .ok ⟨breaks, depth, []⟩
  | g :: rest =>
    let within := match indent with
      | some n => g.column < n
      | none => true
    if within && g.char == ' ' then emptyLines indent breaks depth rest
    else if within && g.char == '\t' then .error .tabIndents
    else
      let depth := max depth g.column
      if isBreak g.char then emptyLines indent (breaks ++ [g.char]) depth rest
      else .ok ⟨breaks, depth, g :: rest⟩

/-- What has been read of a block scalar. -/
structure BlockState where
  /-- The characters read, the last one first. -/
  done : List Char := []
  /-- The break after the last line, if there is one. -/
  first : List Char := []
  /-- The breaks of empty lines after it. -/
  more : List Char := []
  /-- Whether the last line begins with a blank. -/
  indented : Bool := false

namespace BlockState

/-- The breaks before a line, now that the line begins: between two lines that do not begin with
a blank they are folded, unless the scalar is literal. -/
def beginLine (st : BlockState) (literal : Bool) (c : Char) : BlockState :=
  let folds := !literal && st.first == ['\n'] && !st.indented && !isBlank c
  let first := if folds then (if st.more.isEmpty then [' '] else []) else st.first
  { done := st.more.reverse ++ first.reverse ++ st.done, indented := isBlank c }

/-- The text, with the breaks at the end as the chomping has it. -/
def finish (st : BlockState) (chomping : Chomping) : String :=
  let tail := match chomping with
    | .strip => []
    | .clip => st.first
    | .keep => st.first ++ st.more
  String.ofList (st.done.reverse ++ tail)

end BlockState

/-- Reads the lines of a block scalar that is indented by `indent` columns; `inLine` holds while
a line is being read. -/
def blockLines (literal : Bool) (chomping : Chomping) (indent : Nat) (st : BlockState)
    (inLine : Bool) : List Glyph → Except Fault (String × List Glyph)
  | [] => .ok (st.finish chomping, [])
  | g :: rest =>
    if inLine then
      if isEnd g.char then .ok (st.finish chomping, g :: rest)
      else if isBreak g.char then
        blockLines literal chomping indent { st with first := [g.char] } false rest
      else blockLines literal chomping indent { st with done := g.char :: st.done } true rest
    else if g.column < indent && g.char == ' ' then
      blockLines literal chomping indent st false rest
    else if g.column < indent && g.char == '\t' then .error .tabIndents
    else if isBreak g.char then
      blockLines literal chomping indent { st with more := st.more ++ [g.char] } false rest
    else if g.column == indent && !isEnd g.char then
      let st := st.beginLine literal g.char
      blockLines literal chomping indent { st with done := g.char :: st.done } true rest
    else .ok (st.finish chomping, g :: rest)

/-- Reads a block scalar whose indicator has been taken, inside a block that is indented by
`outer` columns, or by less than none. -/
def block (literal : Bool) (outer : Int) (s : List Glyph) :
    Except Fault (String × List Glyph) := do
  let (header, s) ← readHeader s
  let given := header.increment.map fun n => n + outer.toNat
  let lines ← emptyLines given [] 0 s
  let indent := given.getD (max lines.depth (max (outer + 1).toNat 1))
  blockLines literal header.chomping indent { more := lines.breaks } false lines.rest

end ConfigRegistry.Yaml
