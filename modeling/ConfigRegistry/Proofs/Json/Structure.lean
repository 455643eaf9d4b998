/-
# Reading what a list or an object spells

A reader *reads* a tree as a value if it gives that value on every text that spells the tree.  For
the loops over items and members this comes down to the reader of an item or of a member: when it
reads each item of a list, the loop reads the list, and when it carries a state across each member
of an object, the loop carries it across the object.  The bound of either loop is never reached,
since no item and no member is empty.
-/
import ConfigRegistry.Proofs.Json.Spelling

namespace ConfigRegistry.Json

namespace Reader

variable {α σ : Type}

/-- On every text that spells the tree the reader gives the value. -/
def Reads (r : Reader α) (j : Json) (a : α) : Prop :=
  ∀ ⦃s rest : List Char⦄, Spells j s rest → r.Gives s a rest

/-- On every colon with a text behind it that spells the tree, the reader gives the value. -/
def ReadsMember (r : Reader α) (j : Json) (a : α) : Prop :=
  ∀ ⦃s t rest : List Char⦄, afterBlanks s = ':' :: t → Spells j t rest → r.Gives s a rest

/-! ## Items -/

lemma gives_nextItem_closing {s rest : List Char} (h : afterBlanks s = ']' :: rest)
    (first : Bool) : (nextItem first).Gives s false (']' :: rest) :=
  (gives_peekToken h).bind (gives_pure _ _)

/-- In front of an item the loop goes on, and the item is all that is left to read. -/
lemma gives_nextItem_of_spells {first : Bool} {s t rest : List Char} {j : Json}
    (hsep : Separated first s t) (hj : Spells j t rest) :
    (nextItem first).Gives s true (afterBlanks t) := by
  obtain ⟨c, t', ht, hc, -⟩ := hj.exists_head
  rw [ht]
  -- no item begins with the closing bracket, be it the first one or one behind a comma
  cases first with
  | true =>
    rw [Separated, if_pos rfl] at hsep
    subst hsep
    refine (gives_peekToken ht).bind ?_
    split
    · next h => cases h
    · next h =>
      cases h
      exact absurd rfl hc
    · exact gives_pure _ _
  | false =>
    rw [Separated, if_neg (by decide)] at hsep
    refine (gives_peekToken hsep).bind ?_
    refine (gives_skip ',' t).bind ?_
    refine (gives_peekToken ht).bind ?_
    split
    · next h => cases h
    · next h =>
      cases h
      exact absurd rfl hc
    · exact gives_pure _ _

/-- The loop reads the items if each of them is read. -/
lemma gives_itemsFrom {item : Reader α} {xs : List Json} {as : List α}
    (hread : List.Forall₂ item.Reads xs as) {fuel : Nat} (hfuel : xs.length < fuel) {first : Bool}
    {s t rest : List Char} (hs : SpellsItems xs first s t) (ht : afterBlanks t = ']' :: rest) :
    (itemsFrom item fuel first).Gives s as (']' :: rest) := by
  induction hread generalizing fuel first s with
  | nil =>
    obtain ⟨fuel, rfl⟩ := Nat.exists_eq_add_one_of_ne_zero (Nat.ne_of_gt hfuel)
    rw [SpellsItems] at hs
    subst hs
    exact (gives_nextItem_closing ht first).bind (gives_pure _ _)
  | cons hx _ ih =>
    obtain ⟨fuel, rfl⟩ := Nat.exists_eq_add_one_of_ne_zero (Nat.ne_of_gt (Nat.zero_lt_of_lt hfuel))
    obtain ⟨u, v, hsep, hspells, hrest⟩ := hs
    refine (gives_nextItem_of_spells hsep hspells).bind ?_
    refine (hx hspells.afterBlanks).bind ?_
    exact (ih (Nat.lt_of_succ_lt_succ hfuel) hrest).map _

lemma gives_closeList {s rest : List Char} (h : afterBlanks s = ']' :: rest) :
    closeList.Gives s () rest :=
  (gives_peekToken h).bind (gives_skip _ _)

/-- The content of a list is read, and so is the bracket behind it. -/
theorem gives_items_closedBy {item : Reader α} {xs : List Json} {as : List α}
    (hread : List.Forall₂ item.Reads xs as) {s t rest : List Char}
    (hs : SpellsItems xs true s t) (ht : afterBlanks t = ']' :: rest) :
    ((items item).closedBy closeList).Gives s as rest := by
  -- each item takes a character at least, so the bound is more than the number of items
  have hlength := hs.length_add_le
  have hfuel : xs.length < s.length + 1 := by omega
  exact Gives.closedBy (gives_itemsFrom hread hfuel hs ht) (gives_closeList rfl)

/-! ## Members -/

lemma gives_nextKey_closing {s rest : List Char} (h : afterBlanks s = '}' :: rest)
    (first : Bool) : (nextKey first).Gives s none ('}' :: rest) :=
  (gives_peekToken h).bind (gives_pure _ _)

/-- In front of a member the loop takes the key. -/
lemma gives_nextKey_of_quotes {first : Bool} {s t rest : List Char} {k : String}
    (hsep : Separated first s t) (hk : Quotes k t rest) :
    (nextKey first).Gives s (some k) rest := by
  obtain ⟨body, ht, hbody⟩ := hk
  have hquote : afterBlanks ('"' :: body) = '"' :: body := afterBlanks_cons (by decide) body
  cases first with
  | true =>
    rw [Separated, if_pos rfl] at hsep
    subst hsep
    refine (gives_peekToken ht).bind ?_
    refine (gives_peekToken hquote).bind ?_
    exact (gives_skip _ _).bind (hbody.map some)
  | false =>
    rw [Separated, if_neg (by decide)] at hsep
    refine (gives_peekToken hsep).bind ?_
    refine (gives_skip ',' t).bind ?_
    refine (gives_peekToken ht).bind ?_
    exact (gives_skip _ _).bind (hbody.map some)

lemma gives_colon {s t : List Char} (h : afterBlanks s = ':' :: t) : colon.Gives s () t :=
  (gives_peekToken h).bind (gives_skip _ _)

/-- The step carries the first state through the members to the last one. -/
inductive Carries (step : String → σ → Reader σ) : List (String × Json) → σ → σ → Prop
  | nil (a : σ) : Carries step [] a a
  | cons {k : String} {v : Json} {ms : List (String × Json)} {a b c : σ}
      (head : (step k a).ReadsMember v b) (tail : Carries step ms b c) :
      Carries step ((k, v) :: ms) a c

/-- The loop carries a state through the members if the step does. -/
lemma gives_membersFrom {step : String → σ → Reader σ} {ms : List (String × Json)} {a b : σ}
    (hcarry : Carries step ms a b) {fuel : Nat} (hfuel : ms.length < fuel) {first : Bool}
    {s t rest : List Char} (hs : SpellsMembers ms first s t) (ht : afterBlanks t = '}' :: rest) :
    (membersFrom step fuel first a).Gives s b ('}' :: rest) := by
  induction hcarry generalizing fuel first s with
  | nil a =>
    obtain ⟨fuel, rfl⟩ := Nat.exists_eq_add_one_of_ne_zero (Nat.ne_of_gt hfuel)
    rw [SpellsMembers] at hs
    subst hs
    exact (gives_nextKey_closing ht first).bind (gives_pure _ _)
  | cons head _ ih =>
    obtain ⟨fuel, rfl⟩ := Nat.exists_eq_add_one_of_ne_zero (Nat.ne_of_gt (Nat.zero_lt_of_lt hfuel))
    obtain ⟨u, v, w, x, hsep, hkey, hcolon, hvalue, hrest⟩ := hs
    refine (gives_nextKey_of_quotes hsep hkey).bind ?_
    refine (head hcolon hvalue).bind ?_
    exact ih (Nat.lt_of_succ_lt_succ hfuel) hrest

lemma gives_closeObject {s rest : List Char} (h : afterBlanks s = '}' :: rest) :
    closeObject.Gives s () rest :=
  (gives_peekToken h).bind (gives_skip _ _)

/-- The members are carried through, and nothing is left of them but the brace behind them. -/
theorem gives_members {step : String → σ → Reader σ} {ms : List (String × Json)} {a b : σ}
    (hcarry : Carries step ms a b) {s t rest : List Char} (hs : SpellsMembers ms true s t)
    (ht : afterBlanks t = '}' :: rest) : (members step a).Gives s b ('}' :: rest) := by
  have hlength := hs.length_add_le
  have hfuel : ms.length < s.length + 1 := by omega
  exact gives_membersFrom hcarry hfuel hs ht

/-! ## Whole texts -/

/-- A printed tree is read as a whole text, with nothing left behind it. -/
theorem Reads.run_render {r : Reader α} {j : Json} {a : α} (h : r.Reads j a)
    (hj : j.Numberless) : r.run j.render = .ok a := by
  have htext : r.Gives j.render.toList a [] := h (spells_render hj)
  have hend : peekToken.Gives [] none [] := rfl
  have hwhole : r.whole.Gives j.render.toList a [] := htext.bind (hend.bind (gives_pure a []))
  rw [run, hwhole]

end Reader

end ConfigRegistry.Json
