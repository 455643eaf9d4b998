/-
# Reading values from text and from trees

A value of a plain shape is read from any text that spells a tree, if it is read from the tree
(`Shape.reads`).  The two readers take the members of a record in the same order, so nothing has
to be said about keys that are repeated; only the nesting of the tree has a limit in the text.
-/
import ConfigRegistry.Proofs.Shape.Plain
import ConfigRegistry.Shape.Text

namespace ConfigRegistry

open Json

namespace Json.Reader

variable {α : Type}

/-! ## Readers of single shapes -/

lemma gives_beginning {c : Char} {s t : List Char} (h : afterBlanks s = c :: t) :
    beginning.Gives s c (c :: t) :=
  (gives_peekToken h).bind (gives_pure _ _)

lemma gives_ofExcept {x : Except Mismatch α} {a : α} (h : x = .ok a) (s : List Char) :
    (ofExcept x).Gives s a s := by
  rw [h]
  exact gives_pure a s

lemma reads_text (expected a : String) : (text expected).Reads (.string a) a := by
  rintro s rest ⟨body, hs, hbody⟩
  exact Gives.settle ((gives_beginning hs).bind ((gives_skip _ _).bind hbody))

lemma reads_flag (b : Bool) : flag.Reads (.bool b) b := by
  intro s rest hs
  cases b with
  | true =>
    refine Gives.settle ((gives_beginning hs).bind ?_)
    exact gives_word _ _ rest _
  | false =>
    refine Gives.settle ((gives_beginning hs).bind ?_)
    exact gives_word _ _ rest _

lemma reads_unit : unit.Reads .null () := by
  intro s rest hs
  refine Gives.settle ((gives_beginning hs).bind ?_)
  exact (gives_skip _ _).bind (gives_keyword _ rest)

lemma reads_option_null (content : Reader α) : (option content).Reads .null none := by
  intro s rest hs
  refine (gives_peekToken hs).bind ?_
  exact gives_word _ _ rest _

/-- Only `null` begins like `null`, so anything else is left to the reader of the content. -/
lemma reads_option_some {content : Reader α} {j : Json} {a : α} (h : content.Reads j a)
    (hj : j ≠ .null) : (option content).Reads j (some a) := by
  intro s rest hs
  obtain ⟨c, t, hc, -, hnull⟩ := hs.exists_head
  have hcontent := h hs.afterBlanks
  rw [hc] at hcontent
  refine (gives_peekToken hc).bind ?_
  split
  · next heq =>
    cases heq
    exact absurd rfl (hnull hj)
  · exact hcontent.map _

lemma reads_list {item : Nat → Reader α} {depth : Nat} {xs : List Json} {as : List α}
    (hdepth : 1 < depth) (hread : List.Forall₂ (item (depth - 1)).Reads xs as) :
    (list depth item).Reads (.array xs) as := by
  rintro s rest ⟨t, u, hs, hitems, hu⟩
  refine Gives.settle ((gives_beginning hs).bind ?_)
  show (nested depth _).Gives _ as rest
  rw [nested_of_lt hdepth]
  exact (gives_skip _ _).bind (gives_items_closedBy hread hitems hu)

/-- The texts are put into the map in the order of the text. -/
lemma carries_texts (entries : List (String × String)) (m : TextMap) :
    Carries (fun key m => do colon; return m.insert key (← text "a string"))
      (mapValues .string entries) m
      (entries.foldl (fun m e => m.insert e.1 e.2) m) := by
  induction entries generalizing m with
  | nil => exact .nil m
  | cons e entries ih =>
    refine .cons ?_ (ih _)
    intro s t rest hs ht
    exact (gives_colon hs).bind ((reads_text _ e.2 ht).map _)

lemma reads_texts {depth : Nat} (hdepth : 1 < depth) (entries : List (String × String)) :
    (texts depth).Reads (.object (mapValues .string entries)) (.ofList entries) := by
  rintro s rest ⟨t, u, hs, hmembers, hu⟩
  have hcontent := gives_members (carries_texts entries ∅) hmembers hu
  refine Gives.settle ((gives_beginning hs).bind ?_)
  show (nested depth _).Gives _ _ rest
  rw [nested_of_lt hdepth]
  exact (gives_skip _ _).bind (hcontent.closedBy (gives_closeObject rfl))

/-- Reads the name of a choice. -/
lemma gives_variant {names : List String} {a : String} {i : Fin names.length} {s rest : List Char}
    (hi : variant names a = .ok i) (hs : Quotes a s rest) :
    (settle do
      match ← beginning with
      | '"' => do skip; ofExcept (variant names (← stringBody))
      | _ => otherType "variant identifier").Gives s i rest := by
  obtain ⟨body, hs, hbody⟩ := hs
  refine Gives.settle ((gives_beginning hs).bind ?_)
  exact (gives_skip _ _).bind (hbody.bind (gives_ofExcept hi _))

lemma reads_choice_string {depth : Nat} {names : List String} {a : String}
    {i : Fin names.length} (hi : variant names a = .ok i) :
    (choice depth names).Reads (.string a) i := by
  rintro s rest ⟨body, hs, hbody⟩
  refine (gives_beginning hs).bind ?_
  exact gives_variant hi ⟨body, afterBlanks_cons (by decide) body, hbody⟩

lemma reads_choice_object {depth : Nat} {names : List String} {a : String}
    {i : Fin names.length} (hi : variant names a = .ok i) (hdepth : 1 < depth) :
    (choice depth names).Reads (.object [(a, .null)]) i := by
  rintro s rest ⟨t, u, hs, ⟨t', v, w, x, hsep, hname, hcolon, hnull, hx⟩, hu⟩
  rw [Separated, if_pos rfl] at hsep
  rw [SpellsMembers] at hx
  subst hsep hx
  refine (gives_beginning hs).bind ?_
  refine Gives.bind (t := u) (a := i) ?_ ?_
  · rw [nested_of_lt hdepth]
    refine (gives_skip _ _).bind ((gives_variant hi hname).bind ?_)
    exact (gives_colon hcolon).bind ((reads_unit hnull).bind (gives_pure i _))
  · exact (gives_peekToken hu).bind ((gives_skip _ _).bind (gives_pure i rest))

end Json.Reader

open Json.Reader

/-! ## Readers of all shapes -/

/-- Reads what follows the key of one more member of a record. -/
def Fields.readMember {β σ : Type} (fields : Fields β σ) (strict : Bool) (depth : Nat)
    (key : String) (found : σ) : Reader σ :=
  match fields.member depth key found with
  | some field => field
  | none =>
    if strict then mismatch (.unknownField key fields.names)
    else do colon; readOver; pure found

namespace Fields

variable {α β σ : Type}

/-- A field takes what stands behind the key, wherever that is spelled. -/
def Takes (fields : Fields β σ) (depth : Nat) (k : String) (v : Json) (found found' : σ) : Prop :=
  ∃ r, fields.member depth k found = some r ∧ r.ReadsMember v found'

section Cons

variable {name : String} {presence : Presence α} {content : Shape α} {more : Fields β σ}
  {depth : Nat} {v : Json}

lemma takes_first {a : α} (h : (content.reader depth).Reads v a) (found : σ) :
    (cons name presence content more).Takes depth name v (none, found) (some a, found) := by
  rw [Takes, Fields.member.eq_def]
  dsimp only
  rw [if_pos (beq_self_eq_true name)]
  refine ⟨_, rfl, ?_⟩
  intro s t rest hs ht
  exact (gives_colon hs).bind ((h ht).map _)

lemma takes_later {k : String} {found found' : σ} (hk : k ≠ name)
    (h : more.Takes depth k v found found') (o : Option α) :
    (cons name presence content more).Takes depth k v (o, found) (o, found') := by
  obtain ⟨r, hr, hreads⟩ := h
  rw [Takes, Fields.member.eq_def]
  dsimp only
  rw [if_neg (by simpa using hk), hr]
  refine ⟨_, rfl, ?_⟩
  intro s t rest hs ht
  exact (hreads hs ht).map _

end Cons

lemma Takes.readsMember {fields : Fields β σ} {depth : Nat} {k : String} {v : Json}
    {found found' : σ} (h : fields.Takes depth k v found found') (strict : Bool) :
    (fields.readMember strict depth k found).ReadsMember v found' := by
  obtain ⟨r, hr, hreads⟩ := h
  rw [readMember, hr]
  exact hreads

/-- If every member is read from the text as it is from the tree, all of them are. -/
lemma carries_members {fields : Fields β σ} {depth : Nat}
    (hmember : ∀ {k v found found'}, fields.memberOfTree k v found = .ok (some found') →
      v.nesting < depth → fields.Takes depth k v found found')
    {members : List (String × Json)} {found found' : σ}
    (h : members.foldlM (fields.takeMember true) found = .ok found')
    (hdepth : nestingMembers members < depth) :
    Carries (fields.readMember true depth) members found found' := by
  induction members generalizing found with
  | nil =>
    cases h
    exact .nil _
  | cons m members ih =>
    rw [nestingMembers] at hdepth
    rw [List.foldlM_cons] at h
    obtain ⟨found₁, hfirst, hrest⟩ := bind_eq_ok_iff.mp h
    have htakes := hmember (takeMember_eq_ok_iff.mp hfirst) (by omega)
    exact .cons (htakes.readsMember true) (ih hrest (by omega))

end Fields

/-- If the members carry the fields from nothing to values, the record is read from the object. -/
lemma Shape.reads_object {β σ : Type} {name : String} {strict : Bool} {fields : Fields β σ}
    {depth : Nat} (hdepth : 1 < depth) {members : List (String × Json)} {found : σ} {b : β}
    (hcarry : Carries (fields.readMember strict (depth - 1)) members fields.noneFound found)
    (hsettle : fields.settle found = .ok b) :
    ((Shape.record name strict fields).reader depth).Reads (.object members) b := by
  rintro s rest ⟨t, u, hs, hmembers, hu⟩
  refine Gives.settle ((gives_beginning hs).bind ?_)
  show (nested depth _).Gives _ b rest
  rw [nested_of_lt hdepth]
  refine (gives_skip _ _).bind (Gives.closedBy (t := '}' :: rest) ?_ (gives_closeObject rfl))
  exact (gives_members hcarry hmembers hu).bind (gives_ofExcept hsettle _)

mutual

/-- What is read from a tree is read from every text that spells it. -/
theorem Shape.reads : {α : Type} → (shape : Shape α) → shape.Plain → {j : Json} → {a : α} →
    {depth : Nat} → shape.ofTree j = .ok a → j.nesting < depth → (shape.reader depth).Reads j a
  | _, .text, _, j, a, _, h, _ => by
    rw [Shape.ofTree_text_iff] at h
    subst h
    exact reads_text _ a
  | _, .path, _, j, a, _, h, _ => by
    rw [Shape.ofTree_path_iff] at h
    subst h
    exact reads_text _ a
  | _, .flag, _, j, b, _, h, _ => by
    rw [Shape.ofTree_flag_iff] at h
    subst h
    exact reads_flag b
  | _, .word, hplain, _, _, _, _, _ => hplain.elim
  | _, .choice names, _, j, i, depth, h, hdepth => by
    obtain ⟨name, hi, rfl | rfl⟩ := Shape.ofTree_choice_iff.mp h
    · exact reads_choice_string hi
    · exact reads_choice_object hi hdepth
  | _, .tree, hplain, _, _, _, _, _ => hplain.elim
  | _, .texts, _, j, m, depth, h, hdepth => by
    obtain ⟨entries, rfl, rfl⟩ := Shape.ofTree_texts_iff.mp h
    rw [nesting] at hdepth
    exact reads_texts (by omega) entries
  | _, .option content, hplain, j, o, depth, h, hdepth => by
    rcases Shape.ofTree_option_iff.mp h with ⟨rfl, rfl⟩ | ⟨hj, a, ha, rfl⟩
    · exact reads_option_null _
    · exact reads_option_some (content.reads hplain ha hdepth) hj
  | _, .list item, hplain, j, l, depth, h, hdepth => by
    obtain ⟨items, rfl, hitems⟩ := Shape.ofTree_list_iff.mp h
    rw [nesting] at hdepth
    refine reads_list (by omega) ?_
    have hnesting : nestingItems items < depth - 1 := by omega
    -- the induction is on the items, so what speaks of the whole list has to go first
    clear h hdepth
    induction hitems with
    | nil => exact .nil
    | cons ha _ ih =>
      rw [nestingItems] at hnesting
      exact .cons (item.reads hplain ha (by omega)) (ih (by omega))
  | _, .record name strict fields, hplain, j, b, depth, h, hdepth => by
    obtain ⟨rfl, hplain⟩ := hplain
    rcases Shape.ofTree_record_iff.mp h with
      ⟨members, found, rfl, hfound, hsettle⟩ | ⟨items, rfl, hb⟩
    · rw [nesting] at hdepth
      -- the text is read in the order of the tree, so each state of one is a state of the other
      have hcarry : Carries (fields.readMember true (depth - 1)) members fields.noneFound found :=
        Fields.carries_members (fun hk hv => fields.reads_member hplain hk hv) hfound (by omega)
      exact Shape.reads_object (by omega) hcarry hsettle
    · rintro s rest ⟨t, u, hs, hitems, hu⟩
      rw [nesting] at hdepth
      obtain ⟨v, hv, hclose⟩ := fields.gives_positional hplain hb
        (show nestingItems items < depth - 1 by omega) hitems hu
      refine Gives.settle ((gives_beginning hs).bind ?_)
      show (nested depth _).Gives _ b rest
      rw [nested_of_lt (by omega)]
      exact (gives_skip _ _).bind (hv.closedBy (gives_closeList hclose))
  | _, .via content pack _ _, hplain, j, a, depth, h, hdepth => by
    obtain ⟨b, hb, rfl⟩ := Shape.ofTree_via_iff.mp h
    intro s rest hs
    exact (content.reads hplain hb hdepth hs).map pack

/-- What is read of a member from a tree is read from the text behind the key. -/
theorem Fields.reads_member : {β σ : Type} → (fields : Fields β σ) → fields.Plain →
    {k : String} → {v : Json} → {found found' : σ} → {depth : Nat} →
    fields.memberOfTree k v found = .ok (some found') → v.nesting < depth →
    fields.Takes depth k v found found'
  | _, _, .nil, _, _, _, _, _, _, h, _ => by cases h
  | _, _, .cons name presence content more, hplain, k, v, (o, found), (o', found'), depth, h,
      hdepth => by
    rcases Fields.memberOfTree_cons_iff.mp h with ⟨rfl, rfl, rfl, a, ha, rfl⟩ | ⟨hk, rfl, hmore⟩
    · exact Fields.takes_first (content.reads hplain.1 ha hdepth) found'
    · exact Fields.takes_later hk (more.reads_member hplain.2 hmore hdepth) o'

/-- What is read from the items of an array is read from the text between the brackets. -/
theorem Fields.gives_positional : {β σ : Type} → (fields : Fields β σ) → fields.Plain →
    {record : String} → {count index : Nat} → {items : List Json} → {b : β} → {depth : Nat} →
    {first : Bool} → {s t rest : List Char} →
    fields.positionalOfTree record count index items = .ok (b, []) →
    nestingItems items < depth → SpellsItems items first s t → afterBlanks t = ']' :: rest →
    ∃ u, (fields.positional record count depth index first).Gives s b u ∧
      afterBlanks u = ']' :: rest
  | _, _, .nil, _, record, count, index, items, (), depth, first, s, t, rest, h, _, hs, ht => by
    cases h
    rw [SpellsItems] at hs
    subst hs
    exact ⟨t, gives_pure () t, ht⟩
  | _, _, .cons name presence content more, hplain, record, count, index, items, (a, b), depth,
      first, s, t, rest, h, hdepth, hs, ht => by
    rcases Fields.positionalOfTree_cons_iff.mp h with
      ⟨v, items, rfl, ha, hb⟩ | ⟨rfl, hfallback, hb⟩
    · rw [nestingItems] at hdepth
      obtain ⟨w, x, hsep, hv, hitems⟩ := hs
      have hmore : nestingItems items < depth := by omega
      obtain ⟨u, hu, hclose⟩ := more.gives_positional hplain.2 hb hmore hitems ht
      refine ⟨u, ?_, hclose⟩
      refine (gives_nextItem_of_spells hsep hv).bind ?_
      refine (content.reads hplain.1 ha (by omega) hv.afterBlanks).bind ?_
      exact hu.map _
    · rw [SpellsItems] at hs
      subst hs
      -- the bracket has been seen, and it stays for the fields that are left
      have hnil : SpellsItems [] first (']' :: rest) (']' :: rest) := rfl
      obtain ⟨u, hu, hclose⟩ := more.gives_positional hplain.2 hb hdepth hnil rfl
      refine ⟨u, ?_, hclose⟩
      refine (gives_nextItem_closing ht first).bind ?_
      show Gives (match presence.fallback with | some a => _ | none => _) _ _ _
      rw [hfallback]
      exact hu.map _

end

/-- What is read from a tree is read from its printed text. -/
theorem Shape.ofText_render {α : Type} {shape : Shape α} (hplain : shape.Plain)
    (hheight : shape.height < depthLimit) {j : Json} {a : α} (h : shape.ofTree j = .ok a) :
    shape.ofText j.render = .ok a := by
  obtain ⟨hnumberless, hnesting⟩ := shape.fits hplain h
  exact (shape.reads hplain h (Nat.lt_of_le_of_lt hnesting hheight)).run_render hnumberless

end ConfigRegistry
