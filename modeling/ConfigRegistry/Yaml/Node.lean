/-
# Nodes of a YAML document

The tokens of a document make up a tree: a node is a scalar, a sequence, a mapping, or an alias
that stands for another node.  A node may carry an anchor, by which aliases refer to it, and a
tag, which names a type.  What an anchor and an alias refer by is a parameter of the type: names
in the text, and numbers when the document has been gone through.

A node without content is an empty plain scalar.  In a block mapping a sequence may be indented
no more than its key; then no token tells where it begins and ends.  Inside the brackets of a flow
sequence a single pair needs no braces.
-/
import ConfigRegistry.Yaml.Token.Stream

namespace ConfigRegistry.Yaml

/-- A node, with anchors of a given type. -/
inductive Node (ν : Type) where
  | scalar (anchor : Option ν) (tag : Option String) (style : Style) (text : String)
  | sequence (anchor : Option ν) (tag : Option String) (items : List (Node ν))
  | mapping (anchor : Option ν) (tag : Option String) (entries : List (Node ν × Node ν))
  | alias (target : ν)
deriving Repr, Inhabited

namespace Node

variable {ν : Type}

/-- The node without content. -/
def empty : Node ν := .scalar none none .plain ""

end Node

/-- What the handles of tags stand for; the first entry of a handle counts. -/
abbrev Handles : Type := List (String × String)

/-- A tag written out in full.  A tag without a handle is written out already. -/
def fullTag (handles : Handles) (handle suffix : String) : Except Fault String :=
  if handle.isEmpty then .ok suffix
  else
    match handles.lookup handle with
    | some lead => .ok (lead ++ suffix)
    | none => .error .unknownHandle

/-- The tag that a scalar keeps: a single exclamation mark only tells that there is no other
tag. -/
def scalarTag (tag : Option String) : Option String := tag.filter (· != "!")

/-- The next token. -/
def nextToken : List Token → Except Fault Token
  | [] => .error .endOfTokens
  | .broken why :: _ => .error why
  | t :: _ => .ok t

/-- Reads an anchor, if there is one. -/
def readAnchorToken (ts : List Token) : Except Fault (Option String × List Token) := do
  match ← nextToken ts with
  | .anchor name => return (some name, ts.tail)
  | _ => return (none, ts)

/-- Reads a tag, if there is one. -/
def readTagToken (handles : Handles) (ts : List Token) :
    Except Fault (Option String × List Token) := do
  match ← nextToken ts with
  | .tag handle suffix => return (some (← fullTag handles handle suffix), ts.tail)
  | _ => return (none, ts)

/-- Reads an anchor and a tag in either order, if they are there. -/
def readProperties (handles : Handles) (ts : List Token) :
    Except Fault (Option String × Option String × List Token) := do
  match ← readAnchorToken ts with
  | (some anchor, ts) =>
    let (tag, ts) ← readTagToken handles ts
    return (some anchor, tag, ts)
  | (none, ts) =>
    let (tag, ts) ← readTagToken handles ts
    if tag.isNone then return (none, none, ts)
    else
      let (anchor, ts) ← readAnchorToken ts
      return (anchor, tag, ts)

/-! ## Where a node has no content -/

/-- A token before which an item of a block sequence is empty. -/
def endsItem : Token → Bool
  | .blockEntry | .blockEnd => true
  | _ => false

/-- A token before which an item of a sequence without indentation is empty. -/
def endsIndentlessItem : Token → Bool
  | .blockEntry | .key | .value | .blockEnd => true
  | _ => false

/-- A token before which a key or value of a block mapping is empty. -/
def endsBlockContent : Token → Bool
  | .key | .value | .blockEnd => true
  | _ => false

/-- A token before which the key of a flow mapping is empty. -/
def endsFlowKey : Token → Bool
  | .value | .flowEntry | .flowMappingEnd => true
  | _ => false

/-- A token before which the value of a flow mapping is empty. -/
def endsFlowValue : Token → Bool
  | .flowEntry | .flowMappingEnd => true
  | _ => false

/-- A token before which the key of a pair inside a flow sequence is empty. -/
def endsPairKey : Token → Bool
  | .value | .flowEntry | .flowSequenceEnd => true
  | _ => false

/-- A token before which the value of a pair inside a flow sequence is empty. -/
def endsPairValue : Token → Bool
  | .flowEntry | .flowSequenceEnd => true
  | _ => false

/-- Reads a node unless a token comes before which it is empty. -/
def unlessEnded (ends : Token → Bool)
    (read : List Token → Except Fault (Node String × List Token)) (ts : List Token) :
    Except Fault (Node String × List Token) := do
  if ends (← nextToken ts) then return (.empty, ts) else read ts

/-- Takes the comma between two entries of a flow collection, which the first one has not before
it. -/
def takeComma (first : Bool) (ts : List Token) : Except Fault (List Token) := do
  if first then return ts
  else
    match ← nextToken ts with
    | .flowEntry => return ts.tail
    | _ => .error .commaExpected

/-! ## Reading nodes

All readers have a bound on the depth of their calls; each call but a few in a row takes a
token. -/

mutual

/-- Reads a node.  Inside a flow collection there are no blocks, and only as a key or value of a
block mapping there is a sequence without indentation. -/
def readNode (handles : Handles) (inBlock indentless : Bool) :
    Nat → List Token → Except Fault (Node String × List Token)
  | 0, _ => .error .endOfTokens
  | fuel + 1, ts => do
    match ← nextToken ts with
    | .alias name => return (.alias name, ts.tail)
    | _ =>
      let (anchor, tag, ts) ← readProperties handles ts
      match ← nextToken ts, inBlock, indentless with
      | .blockEntry, _, true =>
        let (items, ts) ← readIndentlessItems handles fuel ts
        return (.sequence anchor tag items, ts)
      | .scalar style text, _, _ => return (.scalar anchor (scalarTag tag) style text, ts.tail)
      | .flowSequenceStart, _, _ =>
        let (items, ts) ← readFlowItems handles true fuel ts.tail
        return (.sequence anchor tag items, ts)
      | .flowMappingStart, _, _ =>
        let (entries, ts) ← readFlowEntries handles true fuel ts.tail
        return (.mapping anchor tag entries, ts)
      | .blockSequenceStart, true, _ =>
        let (items, ts) ← readBlockItems handles fuel ts.tail
        return (.sequence anchor tag items, ts)
      | .blockMappingStart, true, _ =>
        let (entries, ts) ← readBlockEntries handles fuel ts.tail
        return (.mapping anchor tag entries, ts)
      | _, _, _ =>
        if anchor.isNone && tag.isNone then .error .contentExpected
        else return (.scalar anchor tag .plain "", ts)

/-- Reads the items of a block sequence. -/
def readBlockItems (handles : Handles) :
    Nat → List Token → Except Fault (List (Node String) × List Token)
  | 0, _ => .error .endOfTokens
  | fuel + 1, ts => do
    match ← nextToken ts with
    | .blockEntry =>
      let (item, ts) ← unlessEnded endsItem (readNode handles true false fuel) ts.tail
      let (items, ts) ← readBlockItems handles fuel ts
      return (item :: items, ts)
    | .blockEnd => return ([], ts.tail)
    | _ => .error .entryExpected

/-- Reads the items of a sequence without indentation. -/
def readIndentlessItems (handles : Handles) :
    Nat → List Token → Except Fault (List (Node String) × List Token)
  | 0, _ => .error .endOfTokens
  | fuel + 1, ts => do
    match ← nextToken ts with
    | .blockEntry =>
      let (item, ts) ← unlessEnded endsIndentlessItem (readNode handles true false fuel) ts.tail
      let (items, ts) ← readIndentlessItems handles fuel ts
      return (item :: items, ts)
    | _ => return ([], ts)

/-- Reads the entries of a block mapping. -/
def readBlockEntries (handles : Handles) :
    Nat → List Token → Except Fault (List (Node String × Node String) × List Token)
  | 0, _ => .error .endOfTokens
  | fuel + 1, ts => do
    match ← nextToken ts with
    | .key =>
      let (key, ts) ← unlessEnded endsBlockContent (readNode handles true true fuel) ts.tail
      let (value, ts) ← readBlockValue handles fuel ts
      let (entries, ts) ← readBlockEntries handles fuel ts
      return ((key, value) :: entries, ts)
    | .blockEnd => return ([], ts.tail)
    | _ => .error .keyExpected

/-- Reads the value of a block mapping, which is empty if no colon comes. -/
def readBlockValue (handles : Handles) :
    Nat → List Token → Except Fault (Node String × List Token)
  | 0, _ => .error .endOfTokens
  | fuel + 1, ts => do
    match ← nextToken ts with
    | .value => unlessEnded endsBlockContent (readNode handles true true fuel) ts.tail
    | _ => return (.empty, ts)

/-- Reads the items of a flow sequence. -/
def readFlowItems (handles : Handles) (first : Bool) :
    Nat → List Token → Except Fault (List (Node String) × List Token)
  | 0, _ => .error .endOfTokens
  | fuel + 1, ts => do
    match ← nextToken ts with
    | .flowSequenceEnd => return ([], ts.tail)
    | _ =>
      let ts ← takeComma first ts
      match ← nextToken ts with
      | .flowSequenceEnd => return ([], ts.tail)
      | .key =>
        let (entry, ts) ← readPair handles fuel ts.tail
        let (items, ts) ← readFlowItems handles false fuel ts
        return (.mapping none none [entry] :: items, ts)
      | _ =>
        let (item, ts) ← readNode handles false false fuel ts
        let (items, ts) ← readFlowItems handles false fuel ts
        return (item :: items, ts)

/-- Reads a pair inside a flow sequence.  If its key is empty, the token behind is taken with
it. -/
def readPair (handles : Handles) :
    Nat → List Token → Except Fault ((Node String × Node String) × List Token)
  | 0, _ => .error .endOfTokens
  | fuel + 1, ts => do
    let ended := endsPairKey (← nextToken ts)
    let (key, ts) ← if ended then pure (.empty, ts.tail) else readNode handles false false fuel ts
    match ← nextToken ts with
    | .value =>
      let (value, ts) ← unlessEnded endsPairValue (readNode handles false false fuel) ts.tail
      return ((key, value), ts)
    | _ => return ((key, .empty), ts)

/-- Reads the entries of a flow mapping. -/
def readFlowEntries (handles : Handles) (first : Bool) :
    Nat → List Token → Except Fault (List (Node String × Node String) × List Token)
  | 0, _ => .error .endOfTokens
  | fuel + 1, ts => do
    match ← nextToken ts with
    | .flowMappingEnd => return ([], ts.tail)
    | _ =>
      let ts ← takeComma first ts
      match ← nextToken ts with
      | .flowMappingEnd => return ([], ts.tail)
      | .key =>
        let (key, ts) ← unlessEnded endsFlowKey (readNode handles false false fuel) ts.tail
        let (value, ts) ← readFlowValue handles fuel ts
        let (entries, ts) ← readFlowEntries handles false fuel ts
        return ((key, value) :: entries, ts)
      | _ =>
        let (key, ts) ← readNode handles false false fuel ts
        let (entries, ts) ← readFlowEntries handles false fuel ts
        return ((key, .empty) :: entries, ts)

/-- Reads the value of a flow mapping, which is empty if no colon comes. -/
def readFlowValue (handles : Handles) :
    Nat → List Token → Except Fault (Node String × List Token)
  | 0, _ => .error .endOfTokens
  | fuel + 1, ts => do
    match ← nextToken ts with
    | .value => unlessEnded endsFlowValue (readNode handles false false fuel) ts.tail
    | _ => return (.empty, ts)

end

/-- A bound on the depth of the calls that read a node from tokens. -/
def nodeFuel (ts : List Token) : Nat := 3 * ts.length + 3

end ConfigRegistry.Yaml
