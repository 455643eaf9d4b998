/-
# Reading the tokens of flow style

The tokens of a tree in flow style read as the node of the tree, with all its texts in double
quotes, whatever tokens follow.  Between two entries there is a comma and before the first one there
is none, so the statements about entries are about the first one or a later one on.  Together with
what the scanner makes of a JSON text, this tells which document the text is
(`Document.ofText_print`).
-/
import ConfigRegistry.Proofs.Yaml.Node.Block
import ConfigRegistry.Proofs.Yaml.Token.Flow

namespace ConfigRegistry.Yaml

open Json (Numberless NumberlessItems NumberlessMembers)

lemma exists_flowTokens_eq_cons (j : Json) :
    ∃ t ts, flowTokens j = t :: ts ∧ beginsTree true t = true := by
  cases j with
  | bool b => cases b <;> exact ⟨_, _, rfl, rfl⟩
  | null | number _ | string _ | array _ | object _ => exact ⟨_, _, rfl, rfl⟩

lemma length_flowTokens_pos (j : Json) : 0 < (flowTokens j).length := by
  obtain ⟨t, ts, htokens, -⟩ := exists_flowTokens_eq_cons j
  simp [htokens]

/-- The first token of a tree. -/
lemma exists_nextToken_flowTokens (j : Json) (ts : List Token) :
    ∃ t, nextToken (flowTokens j ++ ts) = .ok t ∧ beginsTree true t = true := by
  obtain ⟨t, us, htokens, ht⟩ := exists_flowTokens_eq_cons j
  refine ⟨t, ?_, ht⟩
  rw [htokens]
  cases t <;> first | rfl | cases ht

lemma endsFlowValue_of_beginsTree {t : Token} (h : beginsTree true t = true) :
    endsFlowValue t = false := by
  cases t <;> first | rfl | cases h

section Collections

variable {handles : Handles} {fuel : ℕ} {ts ts' : List Token} {x v : Json} {style : Style}
  {k : String} {item value : Node String} {items : List (Node String)}
  {entries : List (Node String × Node String)}

lemma readFlowItems_cons (first : Bool)
    (hitem : readNode handles false false fuel (flowTokens x ++ ts) = .ok (item, ts))
    (hitems : readFlowItems handles false fuel ts = .ok (items, ts')) :
    readFlowItems handles first (fuel + 1)
        ((if first then [] else [.flowEntry]) ++ (flowTokens x ++ ts)) =
      .ok (item :: items, ts') := by
  obtain ⟨t, hnext, ht⟩ := exists_nextToken_flowTokens x ts
  have hrest : (readNode handles false false fuel (flowTokens x ++ ts) >>= fun p =>
      readFlowItems handles false fuel p.2 >>= fun q => .ok (p.1 :: q.1, q.2)) =
        .ok (item :: items, ts') :=
    bind_eq_ok_iff.mpr ⟨_, hitem, bind_eq_ok_iff.mpr ⟨_, hitems, rfl⟩⟩
  rw [readFlowItems]
  cases first with
  | true =>
    refine bind_eq_ok_iff.mpr ⟨t, hnext, ?_⟩
    cases t <;> first
      | exact bind_eq_ok_iff.mpr ⟨_, rfl, bind_eq_ok_iff.mpr ⟨_, hnext, hrest⟩⟩
      | cases ht
  | false =>
    refine bind_eq_ok_iff.mpr ⟨.flowEntry, rfl, bind_eq_ok_iff.mpr ⟨_, rfl, ?_⟩⟩
    refine bind_eq_ok_iff.mpr ⟨t, hnext, ?_⟩
    cases t <;> first | exact hrest | cases ht

lemma readFlowEntries_cons (first : Bool)
    (hvalue : readNode handles false false fuel (flowTokens v ++ ts) = .ok (value, ts))
    (hentries : readFlowEntries handles false (fuel + 1) ts = .ok (entries, ts')) :
    readFlowEntries handles first (fuel + 2) ((if first then [] else [.flowEntry]) ++
        ([.key, .scalar style k, .value] ++ (flowTokens v ++ ts))) =
      .ok ((.scalar none none style k, value) :: entries, ts') := by
  obtain ⟨t, hnext, ht⟩ := exists_nextToken_flowTokens v ts
  have hread : readFlowValue handles (fuel + 1) (.value :: (flowTokens v ++ ts)) =
      .ok (value, ts) := by
    rw [readFlowValue]
    exact (unlessEnded_eq hnext (endsFlowValue_of_beginsTree ht)).trans hvalue
  have hkey : readNode handles false false (fuel + 1)
      (.scalar style k :: .value :: (flowTokens v ++ ts)) = _ := readNode_scalar style k
  have hrest : (unlessEnded endsFlowKey (readNode handles false false (fuel + 1))
      (.scalar style k :: .value :: (flowTokens v ++ ts)) >>= fun p =>
        readFlowValue handles (fuel + 1) p.2 >>= fun q =>
          readFlowEntries handles false (fuel + 1) q.2 >>= fun r =>
            .ok ((p.1, q.1) :: r.1, r.2)) =
      .ok ((.scalar none none style k, value) :: entries, ts') :=
    bind_eq_ok_iff.mpr ⟨_, hkey, bind_eq_ok_iff.mpr ⟨_, hread,
      bind_eq_ok_iff.mpr ⟨_, hentries, rfl⟩⟩⟩
  rw [readFlowEntries]
  cases first with
  | true =>
    exact bind_eq_ok_iff.mpr ⟨.key, rfl, bind_eq_ok_iff.mpr ⟨_, rfl,
      bind_eq_ok_iff.mpr ⟨.key, rfl, hrest⟩⟩⟩
  | false =>
    exact bind_eq_ok_iff.mpr ⟨.flowEntry, rfl, bind_eq_ok_iff.mpr ⟨_, rfl,
      bind_eq_ok_iff.mpr ⟨.key, rfl, hrest⟩⟩⟩

end Collections

/-! ## Trees -/

/-- All texts of a JSON text are in double quotes. -/
def jsonStyle : String → Style := fun _ => .doubleQuoted

section Trees

variable {handles : Handles}

mutual

/-- The tokens of a tree read as its node. -/
theorem readNode_flowTokens : (j : Json) → j.Numberless → {inBlock : Bool} → {fuel : ℕ} →
    {ts : List Token} → 2 * (flowTokens j).length < fuel →
    readNode handles inBlock false fuel (flowTokens j ++ ts) = .ok (Node.ofTree jsonStyle j, ts)
  | _, _, _, 0, _, hfuel => absurd hfuel (Nat.not_lt_zero _)
  | .null, _, _, fuel + 1, _, _ => readNode_scalar _ _
  | .bool true, _, _, fuel + 1, _, _ => readNode_scalar _ _
  | .bool false, _, _, fuel + 1, _, _ => readNode_scalar _ _
  | .number _, h, _, _, _, _ => h.elim
  | .string _, _, _, fuel + 1, _, _ => readNode_scalar _ _
  | .array items, h, _, fuel + 1, ts, hfuel => by
    simp only [flowTokens, List.length_cons, List.length_append, List.length_nil] at hfuel
    rw [flowTokens, List.cons_append, List.append_assoc]
    exact readNode_flowSequence (readFlowItems_flowItemTokens items true h (by omega))
  | .object members, h, _, fuel + 1, ts, hfuel => by
    simp only [flowTokens, List.length_cons, List.length_append, List.length_nil] at hfuel
    rw [flowTokens, List.cons_append, List.append_assoc]
    exact readNode_flowMapping (readFlowEntries_flowEntryTokens members true h (by omega))

theorem readFlowItems_flowItemTokens : (items : List Json) → (first : Bool) →
    NumberlessItems items → {fuel : ℕ} → {ts : List Token} →
    2 * (flowItemTokens first items).length + 2 < fuel →
    readFlowItems handles first fuel (flowItemTokens first items ++ .flowSequenceEnd :: ts) =
      .ok (Node.ofItems jsonStyle items, ts)
  | _, _, _, 0, _, hfuel => absurd hfuel (Nat.not_lt_zero _)
  | [], _, _, fuel + 1, ts, _ => by rw [readFlowItems]; rfl
  | x :: xs, first, h, fuel + 1, ts, hfuel => by
    have hpos := length_flowTokens_pos x
    simp only [flowItemTokens, List.length_append] at hfuel
    rw [flowItemTokens, List.append_assoc, List.append_assoc]
    exact readFlowItems_cons first (readNode_flowTokens x h.1 (by omega))
      (readFlowItems_flowItemTokens xs false h.2 (by omega))

theorem readFlowEntries_flowEntryTokens : (members : List (String × Json)) → (first : Bool) →
    NumberlessMembers members → {fuel : ℕ} → {ts : List Token} →
    2 * (flowEntryTokens first members).length + 2 < fuel →
    readFlowEntries handles first fuel (flowEntryTokens first members ++ .flowMappingEnd :: ts) =
      .ok (Node.ofMembers jsonStyle members, ts)
  | _, _, _, 0, _, hfuel => absurd hfuel (Nat.not_lt_zero _)
  | _, _, _, 1, _, hfuel => by omega
  | [], _, _, fuel + 2, ts, _ => by rw [readFlowEntries]; rfl
  | (k, v) :: ms, first, h, fuel + 2, ts, hfuel => by
    simp only [flowEntryTokens, List.length_append, List.length_cons, List.length_nil] at hfuel
    rw [flowEntryTokens, List.append_assoc, List.append_assoc, List.append_assoc]
    exact readFlowEntries_cons first (readNode_flowTokens v h.1 (by omega))
      (readFlowEntries_flowEntryTokens ms false h.2 (by omega))

end

end Trees

/-! ## Documents -/

/-- The JSON text of an object is the document of that object, if its strings and keys are read as
themselves. -/
theorem Document.ofText_print {members : List (String × Json)} (h : NumberlessMembers members)
    (hcarry : jsonMembersCarry members = true) :
    ofText (Json.object members).render = .ok (ofTree jsonStyle (.object members)) := by
  have htokens := Scan.tokens_print h hcarry
  rw [← String.toList_ofList (l := (Json.object members).print)] at htokens
  have hread : readNode standardHandles true false
      (nodeFuel (flowTokens (.object members) ++ [.streamEnd]))
      (flowTokens (.object members) ++ [.streamEnd]) = _ :=
    readNode_flowTokens (.object members) h (by rw [nodeFuel, List.length_append]; omega)
  rw [flowTokens, List.cons_append] at htokens hread
  exact ofText_eq_ofTree htokens rfl rfl (by simp) hread

end ConfigRegistry.Yaml
