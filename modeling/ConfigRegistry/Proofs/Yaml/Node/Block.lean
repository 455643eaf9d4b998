/-
# Reading the tokens of block style

The tokens of a tree in block style read as the node of the tree, whatever tokens follow.  Only a
sequence that is not indented goes on as long as hyphens come, so behind it there may be none.  As
every call takes at least a token but for a few, twice the number of tokens bounds the depth of the
calls.
-/
import ConfigRegistry.Proofs.Yaml.Node.Tree
import ConfigRegistry.Proofs.Yaml.Token.Tree

namespace ConfigRegistry.Yaml

/-- A token that begins a tree; a hyphen does if the tree is not indented. -/
def beginsTree (indented : Bool) : Token → Bool
  | .scalar _ _ | .flowSequenceStart | .flowMappingStart | .blockSequenceStart
  | .blockMappingStart => true
  | .blockEntry => !indented
  | _ => false

lemma exists_blockTokens_eq_cons (indented : Bool) (j : Json) :
    ∃ t ts, blockTokens indented j = t :: ts ∧ beginsTree indented t = true := by
  cases j with
  | bool b => cases b <;> exact ⟨_, _, rfl, rfl⟩
  | array items =>
    cases items with
    | nil => exact ⟨_, _, rfl, rfl⟩
    | cons x xs =>
      cases indented with
      | true => exact ⟨_, _, rfl, rfl⟩
      | false => exact ⟨_, _, rfl, rfl⟩
  | object members =>
    cases members <;> exact ⟨_, _, rfl, rfl⟩
  | null | number _ | string _ => exact ⟨_, _, rfl, rfl⟩

section Begins

variable {indented : Bool} {j : Json} {ts : List Token}

/-- The first token of a tree. -/
lemma exists_nextToken_blockTokens (indented : Bool) (j : Json) (ts : List Token) :
    ∃ t, nextToken (blockTokens indented j ++ ts) = .ok t ∧ beginsTree indented t = true := by
  obtain ⟨t, us, htokens, ht⟩ := exists_blockTokens_eq_cons indented j
  refine ⟨t, ?_, ht⟩
  rw [htokens]
  cases t <;> first | rfl | cases ht

lemma endsItem_of_beginsTree {t : Token} (h : beginsTree true t = true) : endsItem t = false := by
  cases t <;> first | rfl | cases h

lemma endsIndentlessItem_of_beginsTree {t : Token} (h : beginsTree true t = true) :
    endsIndentlessItem t = false := by
  cases t <;> first | rfl | cases h

lemma endsBlockContent_of_beginsTree {t : Token} (h : beginsTree indented t = true) :
    endsBlockContent t = false := by
  cases t <;> first | rfl | cases h

end Begins

/-! ## Sequences -/

section Collections

variable {handles : Handles} {fuel : ℕ} {ts ts' ts'' : List Token} {t : Token} {x v : Json}
  {style : Style} {k : String}
  {item value : Node String} {items : List (Node String)}
  {entries : List (Node String × Node String)} {indented : Bool}

lemma readBlockItems_cons
    (hitem : readNode handles true false fuel (blockTokens true x ++ ts) = .ok (item, ts))
    (hitems : readBlockItems handles fuel ts = .ok (items, ts')) :
    readBlockItems handles (fuel + 1) (.blockEntry :: (blockTokens true x ++ ts)) =
      .ok (item :: items, ts') := by
  obtain ⟨t, hnext, ht⟩ := exists_nextToken_blockTokens true x ts
  have hread : unlessEnded endsItem (readNode handles true false fuel) (blockTokens true x ++ ts) =
      .ok (item, ts) := (unlessEnded_eq hnext (endsItem_of_beginsTree ht)).trans hitem
  rw [readBlockItems]
  refine bind_eq_ok_iff.mpr ⟨.blockEntry, rfl, ?_⟩
  exact bind_eq_ok_iff.mpr ⟨_, hread, bind_eq_ok_iff.mpr ⟨_, hitems, rfl⟩⟩

lemma readIndentlessItems_cons
    (hitem : readNode handles true false fuel (blockTokens true x ++ ts) = .ok (item, ts))
    (hitems : readIndentlessItems handles fuel ts = .ok (items, ts')) :
    readIndentlessItems handles (fuel + 1) (.blockEntry :: (blockTokens true x ++ ts)) =
      .ok (item :: items, ts') := by
  obtain ⟨t, hnext, ht⟩ := exists_nextToken_blockTokens true x ts
  have hread : unlessEnded endsIndentlessItem (readNode handles true false fuel)
      (blockTokens true x ++ ts) = .ok (item, ts) :=
    (unlessEnded_eq hnext (endsIndentlessItem_of_beginsTree ht)).trans hitem
  rw [readIndentlessItems]
  refine bind_eq_ok_iff.mpr ⟨.blockEntry, rfl, ?_⟩
  exact bind_eq_ok_iff.mpr ⟨_, hread, bind_eq_ok_iff.mpr ⟨_, hitems, rfl⟩⟩

/-- A sequence that is not indented ends where no hyphen comes. -/
lemma readIndentlessItems_nil (ht : nextToken ts = .ok t) (hne : t ≠ .blockEntry) :
    readIndentlessItems handles (fuel + 1) ts = .ok ([], ts) := by
  rw [readIndentlessItems, ht]
  cases t <;> first | rfl | exact absurd rfl hne

/-! ## Mappings -/

/-- An entry of a mapping is read, if the value does not end before it begins. -/
lemma readBlockEntries_cons {us : List Token} (ht : nextToken us = .ok t)
    (hbegins : endsBlockContent t = false)
    (hvalue : readNode handles true true fuel us = .ok (value, ts))
    (hentries : readBlockEntries handles (fuel + 1) ts = .ok (entries, ts')) :
    readBlockEntries handles (fuel + 2) (.key :: .scalar style k :: .value :: us) =
      .ok ((.scalar none none style k, value) :: entries, ts') := by
  have hread : readBlockValue handles (fuel + 1) (.value :: us) = .ok (value, ts) := by
    rw [readBlockValue]
    exact (unlessEnded_eq ht hbegins).trans hvalue
  have hkey : readNode handles true true (fuel + 1) (.scalar style k :: .value :: us) = _ :=
    readNode_scalar style k
  rw [readBlockEntries]
  refine bind_eq_ok_iff.mpr ⟨.key, rfl, ?_⟩
  exact bind_eq_ok_iff.mpr ⟨_, hkey, bind_eq_ok_iff.mpr ⟨_, hread,
    bind_eq_ok_iff.mpr ⟨_, hentries, rfl⟩⟩⟩

end Collections

/-! ## Trees -/

section Trees

variable {handles : Handles}

mutual

/-- The tokens of a tree read as its node. -/
theorem readNode_blockTokens : (j : Json) → {indented indentless : Bool} → {fuel : ℕ} →
    {ts : List Token} →
    (indented = false → indentless = true ∧ ∃ t, nextToken ts = .ok t ∧ t ≠ .blockEntry) →
    2 * (blockTokens indented j).length < fuel →
    readNode handles true indentless fuel (blockTokens indented j ++ ts) =
      .ok (Node.ofTree styleOf j, ts)
  | _, _, _, 0, _, _, hfuel => absurd hfuel (Nat.not_lt_zero _)
  | .null, _, _, fuel + 1, _, _, _ => readNode_scalar _ _
  | .bool true, _, _, fuel + 1, _, _, _ => readNode_scalar _ _
  | .bool false, _, _, fuel + 1, _, _, _ => readNode_scalar _ _
  | .number _, _, _, fuel + 1, _, _, _ => readNode_scalar _ _
  | .string _, _, _, fuel + 1, _, _, _ => readNode_scalar _ _
  | .array items, indented, indentless, fuel + 1, ts, hindent, hfuel => by
    rcases eq_or_ne items [] with rfl | hne
    · have hflow : 2 * 2 < fuel + 1 := hfuel
      obtain ⟨fuel, rfl⟩ := Nat.exists_eq_add_of_le' (show 1 ≤ fuel by omega)
      exact readNode_flowSequence (by rw [readFlowItems]; rfl)
    cases indented with
    | true =>
      rw [blockTokens_array hne] at hfuel ⊢
      simp only [List.length_append, List.length_cons, List.length_nil] at hfuel
      rw [List.cons_append, List.append_assoc]
      exact readNode_blockSequence (readBlockItems_itemTokens items (by omega))
    | false =>
      obtain ⟨rfl, t, ht, hother⟩ := hindent rfl
      rw [blockTokens_indentless hne] at hfuel ⊢
      obtain ⟨x, xs, rfl⟩ := List.exists_cons_of_ne_nil hne
      have hpos : 0 < (itemTokens (x :: xs)).length := Nat.succ_pos _
      exact readNode_indentless
        (readIndentlessItems_itemTokens (x :: xs) ht hother (by omega) (by omega))
  | .object members, indented, _, fuel + 1, ts, _, hfuel => by
    rcases eq_or_ne members [] with rfl | hne
    · have hflow : 2 * 2 < fuel + 1 := hfuel
      obtain ⟨fuel, rfl⟩ := Nat.exists_eq_add_of_le' (show 1 ≤ fuel by omega)
      exact readNode_flowMapping (by rw [readFlowEntries]; rfl)
    rw [blockTokens_object hne] at hfuel ⊢
    simp only [List.length_append, List.length_cons, List.length_nil] at hfuel
    rw [List.cons_append, List.append_assoc]
    exact readNode_blockMapping (readBlockEntries_entryTokens members (by omega))

theorem readBlockItems_itemTokens : (items : List Json) → {fuel : ℕ} → {ts : List Token} →
    2 * (itemTokens items).length + 2 < fuel →
    readBlockItems handles fuel (itemTokens items ++ .blockEnd :: ts) =
      .ok (Node.ofItems styleOf items, ts)
  | _, 0, _, hfuel => absurd hfuel (Nat.not_lt_zero _)
  | [], fuel + 1, ts, _ => by rw [readBlockItems]; rfl
  | x :: xs, fuel + 1, ts, hfuel => by
    simp only [itemTokens, List.length_append, List.length_cons] at hfuel
    rw [itemTokens, List.append_assoc]
    exact readBlockItems_cons (readNode_blockTokens x nofun (by omega))
      (readBlockItems_itemTokens xs (by omega))

theorem readIndentlessItems_itemTokens : (items : List Json) → {fuel : ℕ} → {ts : List Token} →
    {t : Token} → nextToken ts = .ok t → t ≠ .blockEntry → 2 * (itemTokens items).length ≤ fuel →
    1 ≤ fuel →
    readIndentlessItems handles fuel (itemTokens items ++ ts) = .ok (Node.ofItems styleOf items, ts)
  | _, 0, _, _, _, _, _, hpos => absurd hpos (Nat.not_lt_zero _)
  | [], fuel + 1, ts, t, ht, hne, _, _ => readIndentlessItems_nil ht hne
  | x :: xs, fuel + 1, ts, t, ht, hne, hfuel, _ => by
    have hpos : 0 < (blockTokens true x).length := by
      obtain ⟨t, us, htokens, -⟩ := exists_blockTokens_eq_cons true x
      simp [htokens]
    simp only [itemTokens, List.length_append, List.length_cons] at hfuel
    rw [itemTokens, List.append_assoc]
    exact readIndentlessItems_cons (readNode_blockTokens x nofun (by omega))
      (readIndentlessItems_itemTokens xs ht hne (by omega) (by omega))

theorem readBlockEntries_entryTokens : (members : List (String × Json)) → {fuel : ℕ} →
    {ts : List Token} → 2 * (entryTokens members).length + 2 < fuel →
    readBlockEntries handles fuel (entryTokens members ++ .blockEnd :: ts) =
      .ok (Node.ofMembers styleOf members, ts)
  | _, 0, _, hfuel => absurd hfuel (Nat.not_lt_zero _)
  | _, 1, _, hfuel => by omega
  | [], fuel + 2, ts, _ => by rw [readBlockEntries]; rfl
  | (k, v) :: ms, fuel + 2, ts, hfuel => by
    simp only [entryTokens, List.length_append, List.length_cons] at hfuel
    have hnext : ∃ t, nextToken (entryTokens ms ++ .blockEnd :: ts) = .ok t ∧ t ≠ .blockEntry := by
      cases ms with
      | nil => exact ⟨.blockEnd, rfl, by simp⟩
      | cons m ms => exact ⟨.key, rfl, by simp⟩
    obtain ⟨t, ht, hbegins⟩ := exists_nextToken_blockTokens (!isSimpleKey k) v
      (entryTokens ms ++ .blockEnd :: ts)
    rw [entryTokens, List.append_assoc]
    exact readBlockEntries_cons ht (endsBlockContent_of_beginsTree hbegins)
      (readNode_blockTokens v (fun _ => ⟨rfl, hnext⟩) (by omega))
      (readBlockEntries_entryTokens ms (by omega))

end

end Trees

/-! ## Documents -/

/-- A rendered mapping is the only document of its text. -/
theorem Document.ofText_render {members : List (String × Json)} (hne : members ≠ [])
    (h : Json.NumberlessMembers members) :
    ofText (render (.object members)) = .ok (ofTree styleOf (.object members)) := by
  have htokens := Scan.tokens_render hne h
  have hread : readNode standardHandles true false
      (nodeFuel (blockTokens true (.object members) ++ [.streamEnd]))
      (blockTokens true (.object members) ++ [.streamEnd]) = _ :=
    readNode_blockTokens (.object members) nofun (by rw [nodeFuel, List.length_append]; omega)
  rw [blockTokens_object hne, List.cons_append] at htokens hread
  exact ofText_eq_ofTree htokens rfl rfl (by simp) hread

end ConfigRegistry.Yaml
