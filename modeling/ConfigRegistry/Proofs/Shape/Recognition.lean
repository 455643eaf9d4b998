/-
# What is read from text is read from a tree

If a value of a plain shape has been read from the beginning of some text, then this text spells a
tree from which the same value is read (`Shape.exists_spells`).  A plain shape takes no numbers, so
the text of a tree cannot spell another one that it would accept.  Hence it makes no difference
whether a value is read from a tree or from the text of the tree: either way it can be read, or
cannot, and if it can it is the same value (`Shape.ofText_render_iff`).
-/
import ConfigRegistry.Proofs.Json.Recognition
import ConfigRegistry.Proofs.Shape.Text

namespace ConfigRegistry

open Json

namespace Json.Reader

variable {α β : Type} {s t rest : List Char}

/-! ## Readers of single shapes -/

lemma gives_beginning_bind_iff {f : Char → Reader β} {b : β} :
    (beginning >>= f).Gives s b rest ↔
      ∃ c t, afterBlanks s = c :: t ∧ (f c).Gives (c :: t) b rest := by
  constructor
  · intro h
    obtain ⟨c, t, hc, h⟩ := gives_bind_iff.mp h
    rw [beginning, gives_peekToken_bind_iff] at hc
    split at hc
    · next hs =>
      obtain ⟨u, hs⟩ := List.head?_eq_some_iff.mp hs
      obtain ⟨rfl, rfl⟩ := gives_pure_iff.mp hc
      exact ⟨_, u, hs, hs ▸ h⟩
    · cases hc
  · rintro ⟨c, t, hs, h⟩
    exact (gives_beginning hs).bind h

lemma gives_ofExcept_iff {x : Except Mismatch α} {a : α} :
    (ofExcept x).Gives s a t ↔ x = .ok a ∧ t = s := by
  constructor
  · intro h
    cases x with
    | error m => cases h
    | ok b =>
      obtain ⟨rfl, rfl⟩ := gives_pure_iff.mp h
      exact ⟨rfl, rfl⟩
  · rintro ⟨hx, rfl⟩
    exact gives_ofExcept hx t

/-- A value of another type is read only to be named. -/
lemma fails_otherType (expected : String) : Fails (otherType expected : Reader α) := by
  refine Fails.settle (Fails.bind (fun o => ?_) _)
  split
  · exact Fails.bind (fun _ => Fails.bind (fun _ => fails_mismatch _) _) _
  · exact Fails.bind (fun _ => Fails.bind (fun _ => fails_mismatch _) _) _
  · exact Fails.bind (fun _ => Fails.bind (fun _ => fails_mismatch _) _) _
  · exact Fails.bind (fun _ => Fails.bind (fun _ => fails_mismatch _) _) _
  · exact Fails.bind (fun _ => Fails.bind (fun _ => fails_mismatch _) _) _
  · exact fails_mismatch _
  · exact fails_mismatch _
  · split
    · exact Fails.bind (fun _ => fails_mismatch _) _
    · exact fails_breach _ _
  · exact fails_breach _ _

lemma quotes_of_gives_text {expected a : String} (h : (text expected).Gives s a rest) :
    Quotes a s rest := by
  rw [text, gives_settle_iff] at h
  obtain ⟨c, t, hs, h⟩ := gives_beginning_bind_iff.mp h
  split at h
  · exact ⟨t, hs, h⟩
  · exact absurd h (fails_otherType expected _ _ _)

lemma spells_of_gives_flag {b : Bool} (h : flag.Gives s b rest) : Spells (.bool b) s rest := by
  rw [flag, gives_settle_iff] at h
  obtain ⟨c, t, hs, h⟩ := gives_beginning_bind_iff.mp h
  split at h
  · obtain ⟨rfl, rfl⟩ := gives_word_iff.mp h
    exact hs
  · obtain ⟨rfl, rfl⟩ := gives_word_iff.mp h
    exact hs
  · exact absurd h (fails_otherType _ _ _ _)

lemma spells_of_gives_unit {a : Unit} (h : unit.Gives s a rest) : Spells .null s rest := by
  rw [unit, gives_settle_iff] at h
  obtain ⟨c, t, hs, h⟩ := gives_beginning_bind_iff.mp h
  split at h
  · rw [gives_skip_bind_iff, gives_keyword_iff] at h
    rw [Spells, hs, h]
  · exact absurd h (fails_otherType _ _ _ _)

/-- What is left to the reader of the content does not begin as `null` does. -/
lemma gives_option_cases {content : Reader α} {o : Option α}
    (h : (option content).Gives s o rest) :
    (o = none ∧ Spells .null s rest) ∨
      ∃ a, o = some a ∧ content.Gives (afterBlanks s) a rest ∧ ¬ Spells .null s rest := by
  rw [option, gives_peekToken_bind_iff] at h
  split at h
  · next hs =>
    obtain ⟨t, hs⟩ := List.head?_eq_some_iff.mp hs
    rw [hs] at h
    obtain ⟨rfl, rfl⟩ := gives_word_iff.mp h
    exact Or.inl ⟨rfl, hs⟩
  · next hne =>
    obtain ⟨a, ha, rfl⟩ := gives_map_iff.mp h
    refine Or.inr ⟨a, rfl, ha, fun hnull => hne ?_⟩
    rw [Spells] at hnull
    rw [hnull]
    rfl

lemma exists_quotes_of_gives_variant {names : List String} {i : Fin names.length}
    (h : (settle do
      match ← beginning with
      | '"' => do skip; ofExcept (variant names (← stringBody))
      | _ => otherType "variant identifier").Gives s i rest) :
    ∃ a, variant names a = .ok i ∧ Quotes a s rest := by
  rw [gives_settle_iff] at h
  obtain ⟨c, t, hs, h⟩ := gives_beginning_bind_iff.mp h
  split at h
  · rw [gives_skip_bind_iff] at h
    obtain ⟨a, u, ha, h⟩ := gives_bind_iff.mp h
    obtain ⟨hi, rfl⟩ := gives_ofExcept_iff.mp h
    exact ⟨a, hi, t, hs, ha⟩
  · exact absurd h (fails_otherType _ _ _ _)

lemma spells_of_gives_choice {depth : Nat} {names : List String} {i : Fin names.length}
    (h : (choice depth names).Gives s i rest) :
    ∃ a, variant names a = .ok i ∧
      (Spells (.string a) s rest ∨ Spells (.object [(a, .null)]) s rest) := by
  rw [choice] at h
  obtain ⟨c, t, hs, h⟩ := gives_beginning_bind_iff.mp h
  split at h
  · obtain ⟨a, hi, ha⟩ := exists_quotes_of_gives_variant h
    rw [← hs, quotes_afterBlanks_iff] at ha
    exact ⟨a, hi, Or.inl ha⟩
  · obtain ⟨i, u, hcontent, h⟩ := gives_bind_iff.mp h
    obtain ⟨-, hcontent⟩ := gives_nested_iff.mp hcontent
    rw [gives_skip_bind_iff] at hcontent
    obtain ⟨j, v, hname, hcontent⟩ := gives_bind_iff.mp hcontent
    obtain ⟨_, w, hcolon, hcontent⟩ := gives_bind_iff.mp hcontent
    obtain ⟨_, x, hunit, hcontent⟩ := gives_bind_iff.mp hcontent
    obtain ⟨rfl, rfl⟩ := gives_pure_iff.mp hcontent
    obtain ⟨a, hi, ha⟩ := exists_quotes_of_gives_variant hname
    have hmember : SpellsMembers [(a, .null)] true t u :=
      ⟨t, v, w, u, rfl, ha, gives_colon_iff.mp hcolon, spells_of_gives_unit hunit, rfl⟩
    rw [gives_peekToken_bind_iff] at h
    split at h
    · next hu =>
      obtain ⟨y, hu⟩ := List.head?_eq_some_iff.mp hu
      rw [hu, gives_skip_bind_iff] at h
      obtain ⟨rfl, rfl⟩ := gives_pure_iff.mp h
      exact ⟨a, hi, Or.inr ⟨t, u, hs, hmember, hu⟩⟩
    · cases h
    · cases h
  · cases h

/-- The texts that have been put under keys one by one are entries. -/
lemma exists_entries_of_threads {ms : List (String × Json)} {m m' : TextMap}
    (h : Threads (fun k v m m' => ∃ a, v = .string a ∧ m.insert k a = m') ms m m') :
    ∃ entries : List (String × String), ms = mapValues .string entries ∧
      m' = entries.foldl (fun m e => m.insert e.1 e.2) m := by
  induction h with
  | nil m => exact ⟨[], rfl, rfl⟩
  | @cons k v ms m m₁ m' head tail ih =>
    obtain ⟨a, rfl, rfl⟩ := head
    obtain ⟨entries, rfl, rfl⟩ := ih
    exact ⟨(k, a) :: entries, rfl, rfl⟩

/-- Texts under keys have been read from an object of strings. -/
lemma spells_of_gives_texts {depth : Nat} {m : TextMap} (h : (texts depth).Gives s m rest) :
    ∃ entries : List (String × String), m = .ofList entries ∧
      Spells (.object (mapValues .string entries)) s rest := by
  rw [texts, gives_settle_iff] at h
  obtain ⟨c, t, hs, h⟩ := gives_beginning_bind_iff.mp h
  split at h
  · obtain ⟨-, h⟩ := gives_nested_iff.mp h
    rw [gives_skip_bind_iff] at h
    obtain ⟨u, hmembers, hclose⟩ := gives_closedBy_iff.mp h
    have htext : ∀ {s : List Char} {a : String} {t : List Char},
        (text "a string").Gives s a t → ∃ j, Spells j s t ∧ j = .string a :=
      fun ha => ⟨.string _, quotes_of_gives_text ha, rfl⟩
    obtain ⟨ms, v, hms, hv, hthreads⟩ :=
      exists_spells_object (fun hm => exists_spells_behind_colon htext hm) hmembers hclose
    obtain ⟨entries, rfl, rfl⟩ := exists_entries_of_threads hthreads
    exact ⟨entries, rfl, t, v, hs, hms, hv⟩
  · exact absurd h (fails_otherType _ _ _ _)

end Json.Reader

open Json.Reader

/-! ## Readers of all shapes -/

/-- The states that the members of a strict record go through when they are read from a text are
those that they go through when they are read from an object. -/
lemma Fields.foldlM_takeMember_of_threads {β σ : Type} {fields : Fields β σ}
    {members : List (String × Json)} {found found' : σ}
    (h : Threads (fun k v found found' => fields.memberOfTree k v found = .ok (some found'))
      members found found') :
    members.foldlM (fields.takeMember true) found = .ok found' := by
  induction h with
  | nil found => rfl
  | cons head _ ih =>
    rw [List.foldlM_cons, bind_eq_ok_iff]
    exact ⟨_, Fields.takeMember_eq_ok_iff.mpr head, ih⟩

mutual

/-- A text from which a value has been read spells a tree from which it is read. -/
theorem Shape.exists_spells : {α : Type} → (shape : Shape α) → shape.Plain → {a : α} →
    {depth : Nat} → {s rest : List Char} → (shape.reader depth).Gives s a rest →
    ∃ j, Spells j s rest ∧ shape.ofTree j = .ok a
  | _, .text, _, a, _, s, rest, h =>
    ⟨.string a, quotes_of_gives_text h, Shape.ofTree_text_iff.mpr rfl⟩
  | _, .path, _, a, _, s, rest, h =>
    ⟨.string a, quotes_of_gives_text h, Shape.ofTree_path_iff.mpr rfl⟩
  | _, .flag, _, b, _, s, rest, h =>
    ⟨.bool b, spells_of_gives_flag h, Shape.ofTree_flag_iff.mpr rfl⟩
  | _, .word, hplain, _, _, _, _, _ => hplain.elim
  | _, .choice names, _, i, depth, s, rest, h => by
    obtain ⟨a, hi, ha | ha⟩ := spells_of_gives_choice h
    · exact ⟨.string a, ha, Shape.ofTree_choice_iff.mpr ⟨a, hi, Or.inl rfl⟩⟩
    · exact ⟨.object [(a, .null)], ha, Shape.ofTree_choice_iff.mpr ⟨a, hi, Or.inr rfl⟩⟩
  | _, .tree, hplain, _, _, _, _, _ => hplain.elim
  | _, .texts, _, m, depth, s, rest, h => by
    obtain ⟨entries, rfl, hs⟩ := spells_of_gives_texts h
    exact ⟨_, hs, Shape.ofTree_texts_iff.mpr ⟨entries, rfl, rfl⟩⟩
  | _, .option content, hplain, o, depth, s, rest, h => by
    rcases gives_option_cases h with ⟨rfl, hs⟩ | ⟨a, rfl, ha, hnull⟩
    · exact ⟨.null, hs, Shape.ofTree_option_iff.mpr (Or.inl ⟨rfl, rfl⟩)⟩
    · obtain ⟨j, hs, hj⟩ := content.exists_spells hplain ha
      rw [spells_afterBlanks_iff] at hs
      refine ⟨j, hs, Shape.ofTree_option_iff.mpr (Or.inr ⟨?_, a, hj, rfl⟩)⟩
      rintro rfl
      exact hnull hs
  | _, .list item, hplain, l, depth, s, rest, h => by
    rw [Shape.reader, Json.Reader.list, gives_settle_iff] at h
    obtain ⟨c, t, hs, h⟩ := gives_beginning_bind_iff.mp h
    split at h
    · obtain ⟨-, h⟩ := gives_nested_iff.mp h
      rw [gives_skip_bind_iff] at h
      obtain ⟨xs, u, hxs, hclose, hall⟩ :=
        exists_spells_array (fun ha => item.exists_spells hplain ha) h
      exact ⟨.array xs, ⟨t, u, hs, hxs, hclose⟩, Shape.ofTree_list_iff.mpr ⟨xs, rfl, hall⟩⟩
    · exact absurd h (fails_otherType _ _ _ _)
  | _, .record name strict fields, hplain, b, depth, s, rest, h => by
    obtain ⟨rfl, hplain⟩ := hplain
    rw [Shape.reader, gives_settle_iff] at h
    obtain ⟨c, t, hs, h⟩ := gives_beginning_bind_iff.mp h
    split at h
    · obtain ⟨-, h⟩ := gives_nested_iff.mp h
      rw [gives_skip_bind_iff] at h
      obtain ⟨u, hpositional, hclose⟩ := gives_closedBy_iff.mp h
      rw [gives_closeList_iff] at hclose
      obtain ⟨xs, v, hxs, hv, hb⟩ := fields.exists_spellsItems_of_positional hplain hpositional
      exact ⟨.array xs, ⟨t, v, hs, hxs, hv.trans hclose⟩,
        Shape.ofTree_record_iff.mpr (Or.inr ⟨xs, rfl, hb⟩)⟩
    · obtain ⟨-, h⟩ := gives_nested_iff.mp h
      rw [gives_skip_bind_iff] at h
      obtain ⟨u, hcontent, hclose⟩ := gives_closedBy_iff.mp h
      obtain ⟨found, v, hmembers, hresult⟩ := gives_bind_iff.mp hcontent
      obtain ⟨hsettle, rfl⟩ := gives_ofExcept_iff.mp hresult
      have hstep : ∀ {k : String} {found found' : _} {s t : List Char},
          (fields.readMember true (depth - 1) k found).Gives s found' t →
          ∃ v w, afterBlanks s = ':' :: w ∧ Spells v w t ∧
            fields.memberOfTree k v found = .ok (some found') := by
        intro k found found' s t hgives
        rw [Fields.readMember] at hgives
        split at hgives
        · next r hr => exact fields.exists_spells_of_member hplain hr hgives
        · cases hgives
      obtain ⟨ms, v, hms, hv, hthreads⟩ := exists_spells_object hstep hmembers hclose
      exact ⟨.object ms, ⟨t, v, hs, hms, hv⟩, Shape.ofTree_record_iff.mpr
        (Or.inl ⟨ms, found, rfl, Fields.foldlM_takeMember_of_threads hthreads, hsettle⟩)⟩
    · exact absurd h (fails_otherType _ _ _ _)
  | _, .via content pack _ _, hplain, a, depth, s, rest, h => by
    obtain ⟨b, hb, rfl⟩ := gives_map_iff.mp h
    obtain ⟨j, hs, hj⟩ := content.exists_spells hplain hb
    exact ⟨j, hs, Shape.ofTree_via_iff.mpr ⟨b, hj, rfl⟩⟩

/-- What has been read behind a key spells a value from which the field is read. -/
theorem Fields.exists_spells_of_member : {β σ : Type} → (fields : Fields β σ) → fields.Plain →
    {k : String} → {found found' : σ} → {depth : Nat} → {r : Reader σ} → {s rest : List Char} →
    fields.member depth k found = some r → r.Gives s found' rest →
    ∃ v w, afterBlanks s = ':' :: w ∧ Spells v w rest ∧
      fields.memberOfTree k v found = .ok (some found')
  | _, _, .nil, _, _, _, _, _, _, _, _, hr, _ => by cases hr
  | _, _, .cons name presence content more, hplain, k, (o, found), (o', found'), depth, r, s,
      rest, hr, h => by
    rw [Fields.member.eq_def] at hr
    dsimp only at hr
    by_cases hk : k = name
    · rw [if_pos (beq_iff_eq.mpr hk)] at hr
      cases o with
      | some a =>
        cases hr
        cases h
      | none =>
        cases hr
        obtain ⟨v, w, hcolon, hv, a, hj, heq⟩ :=
          exists_spells_behind_colon (fun ha => content.exists_spells hplain.1 ha) h
        cases heq
        refine ⟨v, w, hcolon, hv, Fields.memberOfTree_cons_iff.mpr ?_⟩
        exact Or.inl ⟨hk, rfl, rfl, a, hj, rfl⟩
    · rw [if_neg (by simpa using hk)] at hr
      cases hmore : more.member depth k found with
      | none =>
        rw [hmore] at hr
        cases hr
      | some r' =>
        rw [hmore] at hr
        cases hr
        obtain ⟨found₁, hfound, heq⟩ := gives_map_iff.mp h
        cases heq
        obtain ⟨v, w, hcolon, hv, hj⟩ := more.exists_spells_of_member hplain.2 hmore hfound
        exact ⟨v, w, hcolon, hv, Fields.memberOfTree_cons_iff.mpr (Or.inr ⟨hk, rfl, hj⟩)⟩

/-- What has been read between the brackets spells items from which the record is read. -/
theorem Fields.exists_spellsItems_of_positional : {β σ : Type} → (fields : Fields β σ) →
    fields.Plain → {record : String} → {count index : Nat} → {b : β} → {depth : Nat} →
    {first : Bool} → {s t : List Char} →
    (fields.positional record count depth index first).Gives s b t →
    ∃ xs u, SpellsItems xs first s u ∧ afterBlanks u = afterBlanks t ∧
      fields.positionalOfTree record count index xs = .ok (b, [])
  | _, _, .nil, _, record, count, index, (), depth, first, s, t, h => by
    cases h
    exact ⟨[], s, rfl, rfl, rfl⟩
  | _, _, .cons name presence content more, hplain, record, count, index, (a, b), depth, first,
      s, t, h => by
    obtain ⟨another, v, hnext, h⟩ := gives_bind_iff.mp h
    rcases gives_nextItem_cases hnext with ⟨rfl, rfl, w, hclose⟩ | ⟨rfl, u, hsep, rfl⟩
    · rw [if_neg (by decide)] at h
      split at h
      · next a' hfallback =>
        obtain ⟨b', hb, heq⟩ := gives_map_iff.mp h
        cases heq
        obtain ⟨xs, x, hxs, hx, hj⟩ := more.exists_spellsItems_of_positional hplain.2 hb
        -- the bracket has been seen already, so the other fields have found no items either
        obtain ⟨rfl, rfl⟩ := hxs.eq_nil (by rw [afterBlanks_afterBlanks, hclose])
        rw [afterBlanks_afterBlanks] at hx
        exact ⟨[], s, rfl, hx, Fields.positionalOfTree_cons_iff.mpr
          (Or.inr ⟨rfl, hfallback, hj⟩)⟩
      · cases h
    · obtain ⟨a', x, ha, h⟩ := gives_bind_iff.mp h
      obtain ⟨b', hb, heq⟩ := gives_map_iff.mp h
      cases heq
      obtain ⟨j, hspells, hj⟩ := content.exists_spells hplain.1 ha
      rw [spells_afterBlanks_iff] at hspells
      obtain ⟨xs, y, hxs, hy, hjs⟩ := more.exists_spellsItems_of_positional hplain.2 hb
      exact ⟨j :: xs, y, ⟨u, x, hsep, hspells, hxs⟩, hy, Fields.positionalOfTree_cons_iff.mpr
        (Or.inl ⟨j, xs, rfl, hj, hjs⟩)⟩

end

/-- **A value is read from the text of a tree exactly if it is read from the tree.** -/
theorem Shape.ofText_render_iff {α : Type} {shape : Shape α} (hplain : shape.Plain)
    (hheight : shape.height < depthLimit) {j : Json} {a : α} :
    shape.ofText j.render = .ok a ↔ shape.ofTree j = .ok a := by
  constructor
  · intro h
    obtain ⟨rest, hgives, -⟩ := run_eq_ok_iff.mp h
    rw [render, String.toList_ofList] at hgives
    obtain ⟨j', hspells, hj'⟩ := shape.exists_spells hplain hgives
    -- the tree that was recognized has no numbers, and it has the text of `j`
    rw [← List.append_nil j.print] at hspells
    obtain ⟨rfl, -⟩ := eq_of_spells_print j (shape.fits hplain hj').numberless hspells
    exact hj'
  · exact Shape.ofText_render hplain hheight

end ConfigRegistry
