/-
# Documents of a YAML text

A text holds any number of documents.  Each but the first begins with its mark, `---`; before the
mark directives may stand, which are in force for that document only.  A text in which there is
nothing at all holds one empty document.

Anchors are names of nodes.  When a document is read its anchors are numbered: a name gets the
number of the names that are known before it, and the node named is what the number stands for,
in place of any earlier node of that number.  An alias bears the number that its name has where
the alias stands.
-/
import ConfigRegistry.Yaml.Node

namespace ConfigRegistry.Yaml

/-! ## Directives -/

/-- The handles that need no directive. -/
def standardHandles : Handles := [("!", "!"), ("!!", "tag:yaml.org,2002:")]

/-- Reads directives; `versioned` tells whether the version is known, and `handles` are the handles
declared so far. -/
def readDirectives (versioned : Bool) (handles : Handles) :
    List Token → Except Fault (Handles × List Token)
  | [] => .error .endOfTokens
  | .broken why :: _ => .error why
  | .version major minor :: ts =>
    if versioned then .error .repeatedDirective
    else if major != 1 || (minor != 1 && minor != 2) then .error .wrongVersion
    else readDirectives true handles ts
  | .handle name lead :: ts =>
    if (handles.lookup name).isSome then .error .repeatedDirective
    else readDirectives versioned (handles ++ [(name, lead)]) ts
  | ts => .ok (handles ++ standardHandles, ts)

/-! ## Numbering of anchors -/

namespace Node

/-- The numbers of the names known. -/
abbrev Names : Type := List (String × Nat)

/-- Numbers an anchor. -/
def numberAnchor (names : Names) (anchor : Option String) : Option Nat × Names :=
  match anchor with
  | some name =>
    let known := (names.map Prod.fst).eraseDups.length
    (some known, (name, known) :: names)
  | none => (none, names)

mutual

/-- Numbers the anchors and aliases of a node, given the names known before it. -/
def number (names : Names) : Node String → Except Fault (Node Nat × Names)
  | .scalar anchor tag style text =>
    let (anchor, names) := numberAnchor names anchor
    .ok (.scalar anchor tag style text, names)
  | .sequence anchor tag items => do
    let (anchor, names) := numberAnchor names anchor
    let (items, names) ← numberItems names items
    return (.sequence anchor tag items, names)
  | .mapping anchor tag entries => do
    let (anchor, names) := numberAnchor names anchor
    let (entries, names) ← numberEntries names entries
    return (.mapping anchor tag entries, names)
  | .alias name =>
    match names.lookup name with
    | some n => .ok (.alias n, names)
    | none => .error .unknownAnchor

/-- Numbers the items of a sequence from left to right. -/
def numberItems (names : Names) : List (Node String) → Except Fault (List (Node Nat) × Names)
  | [] => .ok ([], names)
  | item :: items => do
    let (item, names) ← number names item
    let (items, names) ← numberItems names items
    return (item :: items, names)

/-- Numbers the entries of a mapping from left to right. -/
def numberEntries (names : Names) :
    List (Node String × Node String) → Except Fault (List (Node Nat × Node Nat) × Names)
  | [] => .ok ([], names)
  | (key, value) :: entries => do
    let (key, names) ← number names key
    let (value, names) ← number names value
    let (entries, names) ← numberEntries names entries
    return ((key, value) :: entries, names)

end

/-- The node under its number, if it has one, before other numbered nodes. -/
def markedBefore (n : Node Nat) (anchor : Option Nat) (others : List (Nat × Node Nat)) :
    List (Nat × Node Nat) :=
  match anchor with
  | some i => (i, n) :: others
  | none => others

mutual

/-- The numbered nodes in and below a node, in the order in which the text shows their anchors. -/
def marked : Node Nat → List (Nat × Node Nat)
  | n@(.scalar anchor _ _ _) => n.markedBefore anchor []
  | n@(.sequence anchor _ items) => n.markedBefore anchor (markedItems items)
  | n@(.mapping anchor _ entries) => n.markedBefore anchor (markedEntries entries)
  | .alias _ => []

/-- The numbered nodes in and below the items of a sequence. -/
def markedItems : List (Node Nat) → List (Nat × Node Nat)
  | [] => []
  | item :: items => marked item ++ markedItems items

/-- The numbered nodes in and below the entries of a mapping. -/
def markedEntries : List (Node Nat × Node Nat) → List (Nat × Node Nat)
  | [] => []
  | (key, value) :: entries => marked key ++ marked value ++ markedEntries entries

end

mutual

/-- The size of a node: one for a scalar or an alias, and two more than its content for a sequence
or mapping. -/
def size : Node Nat → Nat
  | .scalar .. => 1
  | .sequence _ _ items => 2 + sizeItems items
  | .mapping _ _ entries => 2 + sizeEntries entries
  | .alias _ => 1

/-- The size of the items of a sequence. -/
def sizeItems : List (Node Nat) → Nat
  | [] => 0
  | item :: items => size item + sizeItems items

/-- The size of the entries of a mapping. -/
def sizeEntries : List (Node Nat × Node Nat) → Nat
  | [] => 0
  | (key, value) :: entries => size key + size value + sizeEntries entries

end

end Node

/-! ## Documents -/

/-- A document. -/
structure Document where
  root : Node Nat
  /-- The numbered nodes, the last one first. -/
  targets : List (Nat × Node Nat)
deriving Repr

namespace Document

/-- The document of a tree of nodes. -/
def ofNode (n : Node String) : Except Fault Document := do
  let (root, _) ← n.number []
  return { root, targets := root.marked.reverse }

/-- The document in which there is nothing. -/
def blank : Document := { root := .empty, targets := [] }

/-- What the number of an alias stands for. -/
def target? (d : Document) (number : Nat) : Option (Node Nat) := d.targets.lookup number

/-- Whether a document after its mark is empty before a token. -/
def endsDocument : Token → Bool
  | .version .. | .handle .. | .documentStart | .documentEnd | .streamEnd => true
  | _ => false

/-- Whether the first document of a text needs a mark when its first token is this one. -/
def needsMark : Token → Bool
  | .version .. | .handle .. | .documentStart => true
  | _ => false

/-- Reads the content of a document that has begun with its mark. -/
def readMarked (ts : List Token) : Except Fault (Node String × List Token) := do
  match ← readDirectives false [] ts with
  | (handles, .documentStart :: ts) =>
    unlessEnded endsDocument (readNode handles true false (nodeFuel ts)) ts
  | (_, ts) =>
    let _ ← nextToken ts
    .error .documentStartExpected

/-- Reads the mark of the end of a document, if it is there. -/
def takeEndMark (ts : List Token) : Except Fault (List Token) := do
  match ← nextToken ts with
  | .documentEnd => return ts.tail
  | _ => return ts

/-- What is left after any number of marks of the end. -/
def dropEndMarks : List Token → List Token
  | .documentEnd :: ts => dropEndMarks ts
  | ts => ts

/-- Reads a document; none at the end of the text. -/
def read (first : Bool) (ts : List Token) : Except Fault (Option (Document × List Token)) := do
  let ts := if first then ts else dropEndMarks ts
  let t ← nextToken ts
  if t == .streamEnd then return none
  else
    let (node, ts) ←
      if first && !needsMark t then readNode standardHandles true false (nodeFuel ts) ts
      else readMarked ts
    let document ← ofNode node
    return some (document, ← takeEndMark ts)

/-- Reads all documents, with a bound on their number. -/
def readAll (first : Bool) : Nat → List Token → List (Except Fault Document)
  | 0, _ => []
  | fuel + 1, ts =>
    match read first ts with
    | .error e => [.error e]
    | .ok none => if first then [.ok blank] else []
    | .ok (some (document, ts)) => .ok document :: readAll false fuel ts

/-- The documents of a text, up to the first one at fault, which is the last one if there is
one.  Every document takes at least one token. -/
def allOfText (text : String) : List (Except Fault Document) :=
  let ts := Token.ofText text.toList
  readAll true (ts.length + 1) ts

/-- The only document of a text. -/
def ofText (text : String) : Except Fault Document :=
  match allOfText text with
  | [document] => document
  | [] => .error .endOfTokens
  | .error e :: _ => .error e
  | _ => .error .moreDocuments

end Document

end ConfigRegistry.Yaml
