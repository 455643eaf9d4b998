/-
# Reading mappings that are written line by line

The tokens of such a mapping read as a mapping of its entries: their keys, and the nodes of their
values.  A word becomes a plain scalar with the text that it is written with.  There are no anchors
in the text, so the document of the mapping has nothing to refer to.
-/
import ConfigRegistry.Proofs.Yaml.Node.Block
import ConfigRegistry.Proofs.Yaml.Token.Lines

namespace ConfigRegistry.Yaml

/-! ## Nodes -/

section Nodes

variable {ν : Type}

/-- The node of a key. -/
def LineKey.node (key : LineKey) : Node ν := .scalar none none key.style key.name

/-- The node of a value. -/
def LineValue.node : LineValue → Node ν
  | text _ t _ => .scalar none none t.style t.text
  | printed j _ => Node.ofTree styleOf j

namespace EntryLines

mutual

/-- The node of the value of an entry. -/
def node : EntryLines → Node ν
  | line _ value => value.node
  | block _ _ _ first more => .mapping none none ((first.key.node, first.node) :: nodes more)

/-- The entries of the node of a mapping. -/
def nodes : List EntryLines → List (Node ν × Node ν)
  | [] => []
  | e :: es => (e.key.node, e.node) :: nodes es

end

lemma nodes_eq_map (es : List EntryLines) :
    (nodes es : List (Node ν × Node ν)) = es.map fun e => (e.key.node, e.node) := by
  induction es with
  | nil => rfl
  | cons e es ih => rw [nodes, ih, List.map_cons]

/-- The tokens of the value of an entry. -/
def valueTokens : EntryLines → List Token
  | line _ value => value.tokens
  | block _ _ _ first more => .blockMappingStart :: (tokensAll (first :: more) ++ [.blockEnd])

lemma tokens_eq (e : EntryLines) :
    e.tokens = .key :: .scalar e.key.style e.key.name :: .value :: e.valueTokens := by
  cases e <;> simp [tokens, valueTokens, tokensAll, key]

lemma length_tokens (e : EntryLines) : e.tokens.length = e.valueTokens.length + 3 := by
  rw [tokens_eq]
  rfl

end EntryLines

end Nodes

/-! ## Reading -/

open EntryLines

section Reading

variable {handles : Handles} {fuel : ℕ} {ts ts' : List Token} {e : EntryLines}
  {entries : List (Node String × Node String)}

lemma LineValue.readNode_tokens (v : LineValue) (ht : ∃ t, nextToken ts = .ok t ∧ t ≠ .blockEntry)
    (hfuel : 2 * v.tokens.length < fuel) :
    readNode handles true true fuel (v.tokens ++ ts) = .ok (v.node, ts) := by
  cases v with
  | text gap t margin =>
    obtain ⟨fuel, rfl⟩ := Nat.exists_eq_succ_of_ne_zero (Nat.ne_zero_of_lt hfuel)
    exact readNode_scalar _ _
  | printed j hj => exact readNode_blockTokens j (fun _ => ⟨rfl, ht⟩) hfuel

/-- The first token of a value. -/
lemma exists_nextToken_valueTokens (e : EntryLines) (ts : List Token) :
    ∃ t, nextToken (e.valueTokens ++ ts) = .ok t ∧ endsBlockContent t = false := by
  cases e with
  | block key margin deeper first more => exact ⟨.blockMappingStart, rfl, rfl⟩
  | line key value =>
    cases value with
    | text gap t margin => exact ⟨.scalar t.style t.text, rfl, rfl⟩
    | printed j hj =>
      obtain ⟨t, ht, hbegins⟩ := exists_nextToken_blockTokens false j ts
      exact ⟨t, ht, endsBlockContent_of_beginsTree hbegins⟩

/-- Behind an entry no hyphen comes. -/
lemma exists_nextToken_tokensAll (es : List EntryLines) (ts : List Token) :
    ∃ t, nextToken (tokensAll es ++ .blockEnd :: ts) = .ok t ∧ t ≠ .blockEntry := by
  cases es with
  | nil => exact ⟨.blockEnd, rfl, by simp⟩
  | cons e es =>
    refine ⟨.key, ?_, by simp⟩
    rw [tokensAll, tokens_eq]
    rfl

lemma readBlockEntries_tokens
    (hvalue : readNode handles true true fuel (e.valueTokens ++ ts) = .ok (e.node, ts))
    (hentries : readBlockEntries handles (fuel + 1) ts = .ok (entries, ts')) :
    readBlockEntries handles (fuel + 2) (e.tokens ++ ts) =
      .ok ((e.key.node, e.node) :: entries, ts') := by
  obtain ⟨t, ht, hbegins⟩ := exists_nextToken_valueTokens e ts
  rw [tokens_eq]
  exact readBlockEntries_cons ht hbegins hvalue hentries

mutual

/-- The tokens of a value read as its node. -/
theorem readNode_valueTokens : (e : EntryLines) → {fuel : ℕ} → {ts : List Token} →
    (∃ t, nextToken ts = .ok t ∧ t ≠ .blockEntry) → 2 * e.valueTokens.length < fuel →
    readNode handles true true fuel (e.valueTokens ++ ts) = .ok (e.node, ts)
  | .line _ value, _, _, ht, hfuel => value.readNode_tokens ht hfuel
  | .block _ _ _ first more, fuel, ts, _, hfuel => by
    rw [valueTokens, tokensAll] at hfuel
    simp only [length_tokens, List.length_append, List.length_cons, List.length_nil] at hfuel
    obtain ⟨fuel, rfl⟩ := Nat.exists_eq_add_of_le' (show 3 ≤ fuel by omega)
    have hfirst := readNode_valueTokens first (exists_nextToken_tokensAll more ts)
      (show _ < fuel by omega)
    have hmore : readBlockEntries handles (fuel + 1) (tokensAll more ++ .blockEnd :: ts) =
      .ok (nodes more, ts) := readBlockEntries_tokensAll more (by omega)
    have hentries := readBlockEntries_tokens hfirst hmore
    rw [node, valueTokens, tokensAll, List.cons_append, List.append_assoc, List.append_assoc]
    exact readNode_blockMapping hentries

/-- The tokens of the entries of a mapping read as their nodes. -/
theorem readBlockEntries_tokensAll : (es : List EntryLines) → {fuel : ℕ} → {ts : List Token} →
    2 * (tokensAll es).length + 2 < fuel →
    readBlockEntries handles fuel (tokensAll es ++ .blockEnd :: ts) = .ok (nodes es, ts)
  | [], fuel, ts, hfuel => by
    obtain ⟨fuel, rfl⟩ := Nat.exists_eq_succ_of_ne_zero (Nat.ne_zero_of_lt hfuel)
    rw [readBlockEntries]
    rfl
  | e :: es, fuel, ts, hfuel => by
    rw [tokensAll] at hfuel
    simp only [length_tokens, List.length_append] at hfuel
    obtain ⟨fuel, rfl⟩ := Nat.exists_eq_add_of_le' (show 2 ≤ fuel by omega)
    have hvalue := readNode_valueTokens e (exists_nextToken_tokensAll es ts)
      (show _ < fuel by omega)
    have hentries : readBlockEntries handles (fuel + 1) (tokensAll es ++ .blockEnd :: ts) =
      .ok (nodes es, ts) := readBlockEntries_tokensAll es (by omega)
    rw [nodes, tokensAll, List.append_assoc]
    exact readBlockEntries_tokens hvalue hentries

end

end Reading

/-! ## Numbering -/

section Numbering

variable {names : Node.Names}

mutual

lemma number_node : (e : EntryLines) → Node.number names e.node = .ok (e.node, names)
  | .line _ (.text _ _ _) => Node.number_scalar _ _
  | .line _ (.printed j _) => Node.number_ofTree j
  | .block _ _ _ first more => by
    have hentries := Node.numberEntries_cons (Node.number_scalar first.key.style first.key.name)
      (number_node first) (numberEntries_nodes more)
    simp only [node, LineKey.node, Node.number, Node.numberAnchor, hentries]
    rfl

lemma numberEntries_nodes : (es : List EntryLines) →
    Node.numberEntries names (nodes es) = .ok (nodes es, names)
  | [] => rfl
  | e :: es =>
    Node.numberEntries_cons (Node.number_scalar _ _) (number_node e) (numberEntries_nodes es)

end

mutual

lemma marked_node : (e : EntryLines) → Node.marked e.node = []
  | .line _ (.text _ _ _) => Node.marked_scalar _ _
  | .line _ (.printed j _) => Node.marked_ofTree j
  | .block _ _ _ first more => by
    have hentries := Node.markedEntries_cons (Node.marked_scalar first.key.style first.key.name)
      (marked_node first) (markedEntries_nodes more)
    simp only [node, LineKey.node, Node.marked, Node.markedBefore, hentries]

lemma markedEntries_nodes : (es : List EntryLines) → Node.markedEntries (nodes es) = []
  | [] => by rw [nodes, Node.markedEntries]
  | e :: es =>
    Node.markedEntries_cons (Node.marked_scalar _ _) (marked_node e) (markedEntries_nodes es)

end

end Numbering

/-! ## Documents -/

namespace Document

/-- The document of a mapping that is written line by line. -/
def ofLines (entries : List EntryLines) : Document :=
  { root := .mapping none none (nodes entries), targets := [] }

lemma ofNode_nodes (entries : List EntryLines) :
    ofNode (.mapping none none (nodes entries)) = .ok (ofLines entries) := by
  rw [ofNode]
  simp only [Node.number, Node.numberAnchor, numberEntries_nodes, Node.marked, Node.markedBefore,
    markedEntries_nodes, bind, Except.bind, pure, Except.pure]
  rfl

/-- A mapping that is written line by line is the only document of its text. -/
theorem allOfText_document (idle : List IdleLine) (first : EntryLines) (more : List EntryLines) :
    allOfText (EntryLines.document idle (first :: more)) = [.ok (ofLines (first :: more))] := by
  have htokens := Scan.tokens_document idle first more
  have hread : readNode standardHandles true false
      (nodeFuel (.blockMappingStart :: (tokensAll (first :: more) ++ [.blockEnd, .streamEnd])))
      (.blockMappingStart :: (tokensAll (first :: more) ++ [.blockEnd, .streamEnd])) =
      .ok (.mapping none none (nodes (first :: more)), [.streamEnd]) :=
    readNode_blockMapping (readBlockEntries_tokensAll (first :: more)
      (by simp only [List.length_append, List.length_cons, List.length_nil]; omega))
  exact allOfText_of_readNode htokens rfl rfl (by simp) hread (ofNode_nodes _)

end Document

end ConfigRegistry.Yaml
