/-
# The tree that a text is written as

A text that is JSON is written as one tree only, with the members of its objects in the order of the
text and with every repetition (`Spells.unique`).  Which tree this is decides about what the reader
of trees makes of the text: it gives this tree, sorted, unless it is nested too deep, and it reads
nothing else (`parse_eq_ok_iff`).
-/
import ConfigRegistry.Proofs.Json.Recognition
import ConfigRegistry.Proofs.Json.Sorted

namespace ConfigRegistry.Json

/-! ## One tree for one text -/

lemma Quotes.unique {a b : String} {s rest rest' : List Char} (h : Quotes a s rest)
    (h' : Quotes b s rest') : b = a ∧ rest' = rest := by
  obtain ⟨body, hs, hbody⟩ := h
  obtain ⟨body', hs', hbody'⟩ := h'
  cases hs.symm.trans hs'
  cases hbody.symm.trans hbody'
  exact ⟨rfl, rfl⟩

lemma Separated.unique {first : Bool} {s t t' : List Char} (h : Separated first s t)
    (h' : Separated first s t') : t' = t := by
  cases first with
  | true => exact Eq.trans h' (Eq.symm h)
  | false =>
    cases h.symm.trans h'
    rfl

namespace Spells

variable {j : Json} {c : Char} {s t rest : List Char}

lemma of_minus (h : Spells j s rest) (hs : Json.afterBlanks s = '-' :: t) :
    ∃ n, j = number n ∧ (Reader.numeral true).Gives t n rest := by
  cases j with
  | bool b => cases b <;> simp [Spells, hs] at h
  | number n =>
    rcases h with ⟨u, hu, hn⟩ | ⟨c, u, hc, hu, -⟩
    · cases hs.symm.trans hu
      exact ⟨n, rfl, hn⟩
    · cases hs.symm.trans hu
      exact absurd hc (by decide)
  | _ => simp [Spells, Quotes, hs] at h

lemma of_digit (h : Spells j s rest) (hc : c.isDigit) (hs : Json.afterBlanks s = c :: t) :
    ∃ n, j = number n ∧ (Reader.numeral false).Gives (c :: t) n rest := by
  obtain ⟨hnull, htrue, hfalse, hquote, hminus, hlist, hobject⟩ := Reader.digit_ne hc
  cases j with
  | bool b => cases b <;> simp_all [Spells]
  | number n =>
    rcases h with ⟨u, hu, -⟩ | ⟨d, u, -, hu, hn⟩
    · cases hs.symm.trans hu
      exact absurd rfl hminus
    · cases hs.symm.trans hu
      exact ⟨n, rfl, hn⟩
  | _ => simp_all [Spells, Quotes]

end Spells

mutual

/-- A text spells one tree at most, and it is clear where this ends. -/
theorem Spells.unique : (j : Json) → {j' : Json} → {s rest rest' : List Char} →
    Spells j s rest → Spells j' s rest' → j' = j ∧ rest' = rest
  | null, j', s, rest, rest', h, h' => by
    obtain ⟨rfl, htail⟩ := h'.of_null h
    exact ⟨rfl, (List.append_cancel_left htail).symm⟩
  | bool true, j', s, rest, rest', h, h' => by
    obtain ⟨rfl, htail⟩ := h'.of_true h
    exact ⟨rfl, (List.append_cancel_left htail).symm⟩
  | bool false, j', s, rest, rest', h, h' => by
    obtain ⟨rfl, htail⟩ := h'.of_false h
    exact ⟨rfl, (List.append_cancel_left htail).symm⟩
  | number n, j', s, rest, rest', h, h' => by
    rcases h with ⟨t, hs, hn⟩ | ⟨c, t, hc, hs, hn⟩
    · obtain ⟨n', rfl, hn'⟩ := h'.of_minus hs
      cases hn.symm.trans hn'
      exact ⟨rfl, rfl⟩
    · obtain ⟨n', rfl, hn'⟩ := h'.of_digit hc hs
      cases hn.symm.trans hn'
      exact ⟨rfl, rfl⟩
  | string a, j', s, rest, rest', ⟨body, hs, hbody⟩, h' => by
    obtain ⟨b, rfl, hbody'⟩ := h'.of_quote hs
    cases hbody.symm.trans hbody'
    exact ⟨rfl, rfl⟩
  | array items, j', s, rest, rest', ⟨t, u, hs, hitems, hu⟩, h' => by
    obtain ⟨items', u', rfl, hitems', hu'⟩ := h'.of_bracket hs
    obtain ⟨rfl, rfl⟩ := SpellsItems.unique items hitems hu hitems' hu'
    exact ⟨rfl, rfl⟩
  | object members, j', s, rest, rest', ⟨t, u, hs, hmembers, hu⟩, h' => by
    obtain ⟨members', u', rfl, hmembers', hu'⟩ := h'.of_brace hs
    obtain ⟨rfl, rfl⟩ := SpellsMembers.unique members hmembers hu hmembers' hu'
    exact ⟨rfl, rfl⟩

theorem SpellsItems.unique : (xs : List Json) → {ys : List Json} → {first : Bool} →
    {s t t' rest rest' : List Char} → SpellsItems xs first s t → afterBlanks t = ']' :: rest →
    SpellsItems ys first s t' → afterBlanks t' = ']' :: rest' → ys = xs ∧ rest' = rest
  | [], ys, first, s, t, t', rest, rest', h, ht, h', ht' => by
    obtain rfl : t = s := h
    obtain ⟨rfl, rfl⟩ := h'.eq_nil ht
    cases ht.symm.trans ht'
    exact ⟨rfl, rfl⟩
  | x :: xs, [], first, s, t, t', rest, rest', h, ht, h', ht' => by
    obtain rfl : t' = s := h'
    cases (h.eq_nil ht').1
  | x :: xs, y :: ys, first, s, t, t', rest, rest', h, ht, h', ht' => by
    obtain ⟨u, v, hsep, hx, hxs⟩ := h
    obtain ⟨u', v', hsep', hy, hys⟩ := h'
    obtain rfl := hsep.unique hsep'
    obtain ⟨rfl, rfl⟩ := Spells.unique x hx hy
    obtain ⟨rfl, rfl⟩ := SpellsItems.unique xs hxs ht hys ht'
    exact ⟨rfl, rfl⟩

theorem SpellsMembers.unique : (ms : List (String × Json)) → {ns : List (String × Json)} →
    {first : Bool} → {s t t' rest rest' : List Char} → SpellsMembers ms first s t →
    afterBlanks t = '}' :: rest → SpellsMembers ns first s t' → afterBlanks t' = '}' :: rest' →
    ns = ms ∧ rest' = rest
  | [], ns, first, s, t, t', rest, rest', h, ht, h', ht' => by
    obtain rfl : t = s := h
    obtain ⟨rfl, rfl⟩ := h'.eq_nil ht
    cases ht.symm.trans ht'
    exact ⟨rfl, rfl⟩
  | m :: ms, [], first, s, t, t', rest, rest', h, ht, h', ht' => by
    obtain rfl : t' = s := h'
    cases (h.eq_nil ht').1
  | (k, v) :: ms, (l, w) :: ns, first, s, t, t', rest, rest', h, ht, h', ht' => by
    obtain ⟨u, x, y, z, hsep, hk, hcolon, hv, hms⟩ := h
    obtain ⟨u', x', y', z', hsep', hl, hcolon', hw, hns⟩ := h'
    obtain rfl := hsep.unique hsep'
    obtain ⟨rfl, rfl⟩ := hk.unique hl
    cases hcolon.symm.trans hcolon'
    obtain ⟨rfl, rfl⟩ := Spells.unique v hv hw
    obtain ⟨rfl, rfl⟩ := SpellsMembers.unique ms hms ht hns ht'
    exact ⟨rfl, rfl⟩

end

/-! ## Whole texts -/

/-- The text is written as the tree, member by member as they stand in it, and it has only blanks
around that. -/
def Written (j : Json) (text : String) : Prop :=
  ∃ rest, Spells j text.toList rest ∧ afterBlanks rest = []

lemma Written.unique {j j' : Json} {text : String} (h : Written j text) (h' : Written j' text) :
    j' = j := by
  obtain ⟨_, hspells, -⟩ := h
  obtain ⟨_, hspells', -⟩ := h'
  exact (Spells.unique j hspells hspells').1

lemma written_render {j : Json} (hj : j.Numberless) : Written j j.render :=
  ⟨[], spells_render hj, rfl⟩

/-- Trees without numbers are the same if their texts are. -/
lemma eq_of_render_eq {i j : Json} (hi : i.Numberless) (hj : j.Numberless)
    (h : i.render = j.render) : i = j := by
  have hwritten := written_render hi
  rw [h] at hwritten
  exact (written_render hj).unique hwritten

/-! ## The reader of trees -/

namespace Reader

/-- The items that have been read are those that are written, each of them sorted. -/
lemma eq_sortedItems_of_forall₂ {depth : Nat} (hdepth : 0 < depth) {xs as : List Json}
    (h : List.Forall₂ (fun x a => a = x.sorted ∧ x.nesting < depth) xs as) :
    as = sortedItems xs ∧ nestingItems xs < depth := by
  induction h with
  | nil => exact ⟨rfl, hdepth⟩
  | cons hx _ ih =>
    obtain ⟨rfl, hx⟩ := hx
    obtain ⟨rfl, hxs⟩ := ih
    exact ⟨rfl, Nat.max_lt.mpr ⟨hx, hxs⟩⟩

/-- The members that have been read are put in order one by one. -/
lemma eq_sortedMembers_of_threads {depth : Nat} (hdepth : 0 < depth)
    {ms done done' : List (String × Json)}
    (h : Threads (fun k v done done' =>
      ∃ a, (a = v.sorted ∧ v.nesting < depth) ∧ insertEntry k a done = done') ms done done') :
    done' = sortedMembers done ms ∧ nestingMembers ms < depth := by
  induction h with
  | nil => exact ⟨rfl, hdepth⟩
  | cons head _ ih =>
    obtain ⟨_, ⟨rfl, hv⟩, rfl⟩ := head
    obtain ⟨rfl, hms⟩ := ih
    exact ⟨rfl, Nat.max_lt.mpr ⟨hv, hms⟩⟩

/-- The reader of trees has read what the text spells, sorted. -/
theorem exists_spells_of_gives_tree {depth : Nat} {v : Json} {s rest : List Char}
    (h : (tree depth).Gives s v rest) :
    ∃ j, Spells j s rest ∧ v = j.sorted ∧ j.nesting < depth := by
  induction depth generalizing v s rest with
  | zero => cases h
  | succ depth ih =>
    rw [tree, gives_settle_iff, gives_peekToken_bind_iff] at h
    split at h
    · cases h
    · next hs =>
      obtain ⟨t, hs⟩ := List.head?_eq_some_iff.mp hs
      rw [hs] at h
      obtain ⟨rfl, rfl⟩ := gives_word_iff.mp h
      exact ⟨null, hs, rfl, Nat.succ_pos _⟩
    · next hs =>
      obtain ⟨t, hs⟩ := List.head?_eq_some_iff.mp hs
      rw [hs] at h
      obtain ⟨rfl, rfl⟩ := gives_word_iff.mp h
      exact ⟨bool true, hs, rfl, Nat.succ_pos _⟩
    · next hs =>
      obtain ⟨t, hs⟩ := List.head?_eq_some_iff.mp hs
      rw [hs] at h
      obtain ⟨rfl, rfl⟩ := gives_word_iff.mp h
      exact ⟨bool false, hs, rfl, Nat.succ_pos _⟩
    · next hs =>
      obtain ⟨t, hs⟩ := List.head?_eq_some_iff.mp hs
      rw [hs, gives_skip_bind_iff] at h
      obtain ⟨a, ha, rfl⟩ := gives_map_iff.mp h
      exact ⟨string a, ⟨t, hs, ha⟩, rfl, Nat.succ_pos _⟩
    · next hs =>
      obtain ⟨t, hs⟩ := List.head?_eq_some_iff.mp hs
      rw [hs, gives_skip_bind_iff] at h
      obtain ⟨n, hn, rfl⟩ := gives_map_iff.mp h
      exact ⟨number n, Or.inl ⟨t, hs, hn⟩, rfl, Nat.succ_pos _⟩
    · next hs =>
      obtain ⟨t, hs⟩ := List.head?_eq_some_iff.mp hs
      split at h
      · cases h
      · next hdepth =>
        rw [hs, gives_skip_bind_iff] at h
        obtain ⟨as, has, rfl⟩ := gives_map_iff.mp h
        obtain ⟨xs, u, hxs, hu, hall⟩ := exists_spells_array (fun hx => ih hx) has
        obtain ⟨rfl, hnesting⟩ := eq_sortedItems_of_forall₂ (Nat.pos_of_ne_zero hdepth) hall
        exact ⟨array xs, ⟨t, u, hs, hxs, hu⟩, rfl, Nat.succ_lt_succ hnesting⟩
    · next hs =>
      obtain ⟨t, hs⟩ := List.head?_eq_some_iff.mp hs
      split at h
      · cases h
      · next hdepth =>
        rw [hs, gives_skip_bind_iff] at h
        obtain ⟨ms', hms', rfl⟩ := gives_map_iff.mp h
        obtain ⟨x, hmembers, hclose⟩ := gives_closedBy_iff.mp hms'
        obtain ⟨ms, u, hms, hu, hthreads⟩ :=
          exists_spells_object (fun hx => exists_spells_behind_colon (fun hv => ih hv) hx)
            hmembers hclose
        obtain ⟨rfl, hnesting⟩ := eq_sortedMembers_of_threads (Nat.pos_of_ne_zero hdepth) hthreads
        exact ⟨object ms, ⟨t, u, hs, hms, hu⟩, rfl, Nat.succ_lt_succ hnesting⟩
    · next c _ _ _ _ _ _ _ hs =>
      obtain ⟨t, hs⟩ := List.head?_eq_some_iff.mp hs
      split at h
      · next hc =>
        obtain ⟨n, hn, rfl⟩ := gives_map_iff.mp h
        rw [hs] at hn
        exact ⟨number n, Or.inr ⟨c, t, hc, hs, hn⟩, rfl, Nat.succ_pos _⟩
      · cases h

end Reader

/-- **A text is parsed as the tree that it is written as, sorted.** -/
theorem parse_eq_ok_iff {text : String} {v : Json} :
    parse text = .ok v ↔
      ∃ j, Written j text ∧ j.nesting < Reader.depthLimit ∧ v = j.sorted := by
  rw [parse, Reader.run_eq_ok_iff]
  constructor
  · rintro ⟨rest, hgives, hend⟩
    obtain ⟨j, hspells, rfl, hnesting⟩ := Reader.exists_spells_of_gives_tree hgives
    exact ⟨j, ⟨rest, hspells, hend⟩, hnesting, rfl⟩
  · rintro ⟨j, ⟨rest, hspells, hend⟩, hnesting, rfl⟩
    exact ⟨rest, Reader.reads_tree j hnesting hspells, hend⟩

end ConfigRegistry.Json
