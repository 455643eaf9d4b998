/-
# Documents without anchors

A tree is written without anchors, aliases and tags.  Its node (`Node.ofTree`) differs from it only
in that each text has a style, so numbering the anchors changes nothing.  If the tokens of a text
read as such a node, then the text holds a single document, in which there is nothing to refer to.
-/
import ConfigRegistry.Proofs.Steps
import ConfigRegistry.Yaml.Document
import ConfigRegistry.Yaml.Printer

namespace ConfigRegistry.Yaml

namespace Node

variable {ν : Type}

mutual

/-- The node of a tree, in which texts have the styles that they are given. -/
def ofTree (style : String → Style) : Json → Node ν
  | .null => .scalar none none .plain "null"
  | .bool true => .scalar none none .plain "true"
  | .bool false => .scalar none none .plain "false"
  | .number n => .scalar none none .plain (String.ofList (writeNumber n))
  | .string s => .scalar none none (style s) s
  | .array items => .sequence none none (ofItems style items)
  | .object members => .mapping none none (ofMembers style members)

/-- The nodes of the items of an array. -/
def ofItems (style : String → Style) : List Json → List (Node ν)
  | [] => []
  | x :: xs => ofTree style x :: ofItems style xs

/-- The nodes of the members of an object. -/
def ofMembers (style : String → Style) : List (String × Json) → List (Node ν × Node ν)
  | [] => []
  | (k, v) :: ms => (.scalar none none (style k) k, ofTree style v) :: ofMembers style ms

end

/-! ## Numbering -/

variable {style : String → Style} {names : Names}

lemma number_scalar (style : Style) (text : String) :
    number names (.scalar none none style text) = .ok (.scalar none none style text, names) := rfl

/-- Numbering changes no names if it changes none in the key, in the value and in the entries behind
them. -/
lemma numberEntries_cons {key value : Node String} {key' value' : Node Nat}
    {entries : List (Node String × Node String)} {entries' : List (Node Nat × Node Nat)}
    (hkey : number names key = .ok (key', names))
    (hvalue : number names value = .ok (value', names))
    (hentries : numberEntries names entries = .ok (entries', names)) :
    numberEntries names ((key, value) :: entries) = .ok ((key', value') :: entries', names) := by
  simp only [numberEntries, hkey, hvalue, hentries, bind, Except.bind, pure, Except.pure]

mutual

lemma number_ofTree : (j : Json) → number names (ofTree style j) = .ok (ofTree style j, names)
  | .null | .bool true | .bool false | .number _ | .string _ => number_scalar _ _
  | .array items => by
    have hitems := numberItems_ofItems items
    simp only [ofTree, number, numberAnchor, hitems]
    rfl
  | .object members => by
    have hmembers := numberEntries_ofMembers members
    simp only [ofTree, number, numberAnchor, hmembers]
    rfl

lemma numberItems_ofItems : (items : List Json) →
    numberItems names (ofItems style items) = .ok (ofItems style items, names)
  | [] => rfl
  | x :: xs => by
    have hx := number_ofTree x
    have hxs := numberItems_ofItems xs
    simp only [ofItems, numberItems, hx, hxs, bind, Except.bind, pure, Except.pure]

lemma numberEntries_ofMembers : (members : List (String × Json)) →
    numberEntries names (ofMembers style members) = .ok (ofMembers style members, names)
  | [] => rfl
  | (_, v) :: ms =>
    numberEntries_cons (number_scalar _ _) (number_ofTree v) (numberEntries_ofMembers ms)

end

lemma marked_scalar (style : Style) (text : String) :
    marked (.scalar none none style text) = [] := by
  rw [marked, markedBefore]

lemma markedEntries_cons {key value : Node Nat} {entries : List (Node Nat × Node Nat)}
    (hkey : marked key = []) (hvalue : marked value = []) (hentries : markedEntries entries = []) :
    markedEntries ((key, value) :: entries) = [] := by
  rw [markedEntries, hkey, hvalue, hentries]
  rfl

mutual

lemma marked_ofTree : (j : Json) → marked (ofTree style j) = []
  | .null | .bool true | .bool false | .number _ | .string _ => marked_scalar _ _
  | .array items => by simp only [ofTree, marked, markedBefore, markedItems_ofItems items]
  | .object members => by simp only [ofTree, marked, markedBefore, markedEntries_ofMembers members]

lemma markedItems_ofItems : (items : List Json) → markedItems (ofItems style items) = []
  | [] => rfl
  | x :: xs => by simp only [ofItems, markedItems, marked_ofTree x, markedItems_ofItems xs,
      List.append_nil]

lemma markedEntries_ofMembers : (members : List (String × Json)) →
    markedEntries (ofMembers style members) = []
  | [] => rfl
  | (_, v) :: ms =>
    markedEntries_cons (marked_scalar _ _) (marked_ofTree v) (markedEntries_ofMembers ms)

end

end Node

/-! ## Reading nodes

A node without anchor and tag is read by its first token. -/

section Reading

variable {handles : Handles} {inBlock indentless : Bool} {fuel : ℕ} {ts ts' : List Token}
  {items : List (Node String)} {entries : List (Node String × Node String)}

lemma readNode_scalar (style : Style) (text : String) :
    readNode handles inBlock indentless (fuel + 1) (.scalar style text :: ts) =
      .ok (.scalar none none style text, ts) := by
  rw [readNode]
  rfl

lemma readNode_flowSequence (h : readFlowItems handles true fuel ts = .ok (items, ts')) :
    readNode handles inBlock indentless (fuel + 1) (.flowSequenceStart :: ts) =
      .ok (.sequence none none items, ts') := by
  rw [readNode]
  show (readFlowItems handles true fuel ts >>= fun p => .ok (Node.sequence none none p.1, p.2)) = _
  exact bind_eq_ok_iff.mpr ⟨_, h, rfl⟩

lemma readNode_flowMapping (h : readFlowEntries handles true fuel ts = .ok (entries, ts')) :
    readNode handles inBlock indentless (fuel + 1) (.flowMappingStart :: ts) =
      .ok (.mapping none none entries, ts') := by
  rw [readNode]
  show (readFlowEntries handles true fuel ts >>= fun p => .ok (Node.mapping none none p.1, p.2)) = _
  exact bind_eq_ok_iff.mpr ⟨_, h, rfl⟩

lemma readNode_blockSequence (h : readBlockItems handles fuel ts = .ok (items, ts')) :
    readNode handles true indentless (fuel + 1) (.blockSequenceStart :: ts) =
      .ok (.sequence none none items, ts') := by
  rw [readNode]
  show (readBlockItems handles fuel ts >>= fun p => .ok (Node.sequence none none p.1, p.2)) = _
  exact bind_eq_ok_iff.mpr ⟨_, h, rfl⟩

lemma readNode_blockMapping (h : readBlockEntries handles fuel ts = .ok (entries, ts')) :
    readNode handles true indentless (fuel + 1) (.blockMappingStart :: ts) =
      .ok (.mapping none none entries, ts') := by
  rw [readNode]
  show (readBlockEntries handles fuel ts >>= fun p => .ok (Node.mapping none none p.1, p.2)) = _
  exact bind_eq_ok_iff.mpr ⟨_, h, rfl⟩

/-- The hyphen of the first item tells of a sequence that is not indented. -/
lemma readNode_indentless
    (h : readIndentlessItems handles fuel (.blockEntry :: ts) = .ok (items, ts')) :
    readNode handles inBlock true (fuel + 1) (.blockEntry :: ts) =
      .ok (.sequence none none items, ts') := by
  rw [readNode]
  show (readIndentlessItems handles fuel (.blockEntry :: ts) >>= fun p =>
    .ok (Node.sequence none none p.1, p.2)) = _
  exact bind_eq_ok_iff.mpr ⟨_, h, rfl⟩

/-- A node is read where none of the tokens comes before which it is empty. -/
lemma unlessEnded_eq {ends : Token → Bool} {t : Token}
    {read : List Token → Except Fault (Node String × List Token)} (ht : nextToken ts = .ok t)
    (h : ends t = false) : unlessEnded ends read ts = read ts := by
  rw [unlessEnded, ht]
  show (if ends t = true then _ else _) = _
  rw [h, if_neg Bool.false_ne_true]

end Reading

/-! ## Documents -/

namespace Document

variable {style : String → Style} {j : Json}

/-- The document of a tree. -/
def ofTree (style : String → Style) (j : Json) : Document :=
  { root := Node.ofTree style j, targets := [] }

lemma ofNode_ofTree (style : String → Style) (j : Json) :
    ofNode (Node.ofTree style j) = .ok (ofTree style j) := by
  rw [ofNode, Node.number_ofTree]
  simp [ofTree, Node.marked_ofTree, bind, Except.bind, pure, Except.pure]

/-- A text whose tokens read as a node, with nothing left but the end, holds the document of the
node and no other one. -/
theorem allOfText_of_readNode {text : String} {t : Token} {ts : List Token} {n : Node String}
    {d : Document} (htokens : Token.ofText text.toList = t :: ts)
    (ht : nextToken (t :: ts) = .ok t) (hfirst : needsMark t = false) (hend : t ≠ .streamEnd)
    (hread : readNode standardHandles true false (nodeFuel (t :: ts)) (t :: ts) =
      .ok (n, [.streamEnd])) (hnode : ofNode n = .ok d) :
    allOfText text = [.ok d] := by
  have hdocument : read true (t :: ts) = .ok (some (d, [.streamEnd])) := by
    have hmark : takeEndMark [.streamEnd] = .ok [.streamEnd] := rfl
    simp [read, ht, hend, hfirst, hread, hnode, hmark, bind, Except.bind, pure, Except.pure]
  rw [allOfText, htokens]
  simp only [readAll, hdocument, List.length_cons, List.cons.injEq, true_and]
  rfl

/-- A text whose tokens read as a tree, with nothing left but the end, is the document of the
tree. -/
theorem ofText_eq_ofTree {text : String} {t : Token} {ts : List Token}
    (htokens : Token.ofText text.toList = t :: ts) (ht : nextToken (t :: ts) = .ok t)
    (hfirst : needsMark t = false) (hend : t ≠ .streamEnd)
    (hread : readNode standardHandles true false (nodeFuel (t :: ts)) (t :: ts) =
      .ok (Node.ofTree style j, [.streamEnd])) :
    ofText text = .ok (ofTree style j) := by
  have hall := allOfText_of_readNode htokens ht hfirst hend hread (ofNode_ofTree style j)
  rw [ofText, hall]

end Document

end ConfigRegistry.Yaml
