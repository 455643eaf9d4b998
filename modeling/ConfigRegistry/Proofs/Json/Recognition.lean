/-
# What a reader that succeeds has read

A reader that is put together from others succeeds only because each of them has.  So the text
that it has taken can be told from its answer: the loops over items and members, when they succeed,
have gone over a text that spells items and members, of which the reader of an item or of a member
has made the answer.

The other half concerns printed texts.  Whatever a tree is, its text spells no other tree, as far
as trees without numbers go (`eq_of_spells_print`).  A reader that has recognized some tree without
numbers in the text of another tree has recognized that tree.
-/
import ConfigRegistry.Proofs.Json.Structure

namespace ConfigRegistry.Json

namespace Reader

variable {α β σ : Type} {s t u rest : List Char}

/-! ## Steps that have succeeded -/

lemma gives_pure_iff {a b : α} : (pure a : Reader α).Gives s b t ↔ b = a ∧ t = s := by
  constructor
  · intro h
    cases h
    exact ⟨rfl, rfl⟩
  · rintro ⟨rfl, rfl⟩
    exact gives_pure b t

lemma gives_bind_iff {r : Reader α} {f : α → Reader β} {b : β} :
    (r >>= f).Gives s b u ↔ ∃ a t, r.Gives s a t ∧ (f a).Gives t b u := by
  constructor
  · intro h
    change Reader.bind r f s = ⟨.ok b, u⟩ at h
    rw [Reader.bind] at h
    split at h
    · next a t hr => exact ⟨a, t, hr, h⟩
    · cases h
  · rintro ⟨a, t, hr, hf⟩
    exact hr.bind hf

lemma gives_map_iff {r : Reader α} {f : α → β} {b : β} :
    (do return f (← r) : Reader β).Gives s b t ↔ ∃ a, r.Gives s a t ∧ f a = b := by
  constructor
  · intro h
    obtain ⟨a, u, hr, h⟩ := gives_bind_iff.mp h
    obtain ⟨rfl, rfl⟩ := gives_pure_iff.mp h
    exact ⟨a, hr, rfl⟩
  · rintro ⟨a, hr, rfl⟩
    exact hr.map f

lemma gives_settle_iff {r : Reader α} {a : α} : (settle r).Gives s a t ↔ r.Gives s a t := by
  constructor
  · intro h
    rw [Gives, settle] at h
    split at h
    · cases h
    · exact h
  · exact Gives.settle

lemma gives_closedBy_iff {r : Reader α} {close : Reader Unit} {a : α} :
    (r.closedBy close).Gives s a u ↔ ∃ t, r.Gives s a t ∧ close.Gives t () u := by
  constructor
  · intro h
    rw [Gives, closedBy] at h
    split at h
    · next b t hr =>
      split at h
      · next v hclose =>
        cases h
        exact ⟨t, hr, hclose⟩
      · cases h
    · cases h
  · rintro ⟨t, hr, hclose⟩
    exact hr.closedBy hclose

lemma gives_skip_iff {c : Char} {a : Unit} : skip.Gives (c :: s) a t ↔ t = s := by
  constructor
  · intro h
    cases h
    rfl
  · rintro rfl
    exact gives_skip c t

lemma gives_skip_bind_iff {f : Unit → Reader β} {c : Char} {b : β} :
    (skip >>= f).Gives (c :: s) b t ↔ (f ()).Gives s b t := Iff.rfl

/-- Looking at the next token only takes the blanks before it. -/
lemma gives_peekToken_bind_iff {f : Option Char → Reader β} {b : β} :
    (peekToken >>= f).Gives s b u ↔ (f (afterBlanks s).head?).Gives (afterBlanks s) b u := Iff.rfl

lemma gives_keyword_iff {w : List Char} {a : Unit} : (keyword w).Gives s a t ↔ s = w ++ t := by
  constructor
  · intro h
    induction w generalizing s with
    | nil =>
      cases h
      rfl
    | cons c w ih =>
      rw [Gives, keyword] at h
      cases s with
      | nil => cases h
      | cons c' s =>
        dsimp only at h
        split at h
        · next heq =>
          rw [ih h, beq_iff_eq.mp heq]
          rfl
        · cases h
  · rintro rfl
    exact gives_keyword w t

lemma gives_word_iff {c : Char} {w : List Char} {a b : α} :
    (do skip; keyword w; pure a : Reader α).Gives (c :: s) b t ↔ b = a ∧ s = w ++ t := by
  constructor
  · intro h
    rw [gives_skip_bind_iff] at h
    obtain ⟨_, u, hkeyword, h⟩ := gives_bind_iff.mp h
    obtain ⟨rfl, rfl⟩ := gives_pure_iff.mp h
    exact ⟨rfl, gives_keyword_iff.mp hkeyword⟩
  · rintro ⟨rfl, rfl⟩
    exact gives_word c w t b

lemma gives_nested_iff {depth : Nat} {r : Nat → Reader α} {a : α} :
    (nested depth r).Gives s a t ↔ 1 < depth ∧ (r (depth - 1)).Gives s a t := by
  rw [nested]
  split
  · next h =>
    constructor
    · intro h'
      cases h'
    · rintro ⟨h', -⟩
      omega
  · next h =>
    constructor
    · intro h'
      exact ⟨by omega, h'⟩
    · exact And.right

/-! ## Readers that never succeed -/

/-- There is no text on which the reader succeeds. -/
def Fails (r : Reader α) : Prop := ∀ s a t, ¬ r.Gives s a t

lemma fails_breach (b : Breach) (ahead : Nat) : Fails (breach b ahead : Reader α) := by
  intro s a t h
  cases h

lemma fails_mismatch (m : Mismatch) : Fails (mismatch m : Reader α) := by
  intro s a t h
  cases h

lemma Fails.bind {f : α → Reader β} (h : ∀ a, Fails (f a)) (r : Reader α) : Fails (r >>= f) := by
  intro s b u hgives
  obtain ⟨a, t, -, hf⟩ := gives_bind_iff.mp hgives
  exact h a t b u hf

lemma Fails.settle {r : Reader α} (h : Fails r) : Fails (settle r) :=
  fun s a t hgives => h s a t (gives_settle_iff.mp hgives)

/-! ## Items -/

/-- The loop ends in front of the bracket that closes the list, and otherwise it has passed over
what separates the items. -/
lemma gives_nextItem_cases {first more : Bool} (h : (nextItem first).Gives s more t) :
    (more = false ∧ t = afterBlanks s ∧ ∃ u, afterBlanks s = ']' :: u) ∨
      (more = true ∧ ∃ u, Separated first s u ∧ t = afterBlanks u) := by
  rw [nextItem, gives_peekToken_bind_iff] at h
  split at h
  · cases h
  · next hs =>
    obtain ⟨rfl, rfl⟩ := gives_pure_iff.mp h
    obtain ⟨u, hs⟩ := List.head?_eq_some_iff.mp hs
    exact Or.inl ⟨rfl, rfl, u, hs⟩
  · next c hne hs =>
    obtain ⟨v, hs⟩ := List.head?_eq_some_iff.mp hs
    refine Or.inr ?_
    cases first with
    | true =>
      obtain ⟨rfl, rfl⟩ := gives_pure_iff.mp h
      exact ⟨rfl, s, rfl, rfl⟩
    | false =>
      rw [if_neg (by decide)] at h
      split at h
      · next hc =>
        obtain rfl := beq_iff_eq.mp hc
        rw [hs, gives_skip_bind_iff, gives_peekToken_bind_iff] at h
        split at h
        · cases h
        · cases h
        · obtain ⟨rfl, rfl⟩ := gives_pure_iff.mp h
          exact ⟨rfl, v, hs, rfl⟩
      · cases h

/-- If an item that is read spells a tree, the items that are read spell trees one by one. -/
lemma exists_spellsItems {item : Reader α} {P : Json → α → Prop}
    (hitem : ∀ {s a t}, item.Gives s a t → ∃ j, Spells j s t ∧ P j a) {fuel : Nat} {first : Bool}
    {as : List α} (h : (itemsFrom item fuel first).Gives s as t) :
    ∃ xs u, SpellsItems xs first s u ∧ t = afterBlanks u ∧ List.Forall₂ P xs as := by
  induction fuel generalizing first s as with
  | zero => cases h
  | succ fuel ih =>
    obtain ⟨more, v, hmore, h⟩ := gives_bind_iff.mp h
    rcases gives_nextItem_cases hmore with ⟨rfl, rfl, -⟩ | ⟨rfl, u, hsep, rfl⟩
    · obtain ⟨rfl, rfl⟩ := gives_pure_iff.mp h
      exact ⟨[], s, rfl, rfl, .nil⟩
    · obtain ⟨a, w, ha, h⟩ := gives_bind_iff.mp h
      obtain ⟨as, has, rfl⟩ := gives_map_iff.mp h
      obtain ⟨x, hx, hP⟩ := hitem ha
      obtain ⟨xs, v, hxs, rfl, hall⟩ := ih has
      exact ⟨x :: xs, v, ⟨u, w, hsep, spells_afterBlanks_iff.mp hx, hxs⟩, rfl, .cons hP hall⟩

lemma gives_closeList_iff {a : Unit} : closeList.Gives s a rest ↔ afterBlanks s = ']' :: rest := by
  constructor
  · intro h
    rw [closeList, gives_peekToken_bind_iff] at h
    split at h
    · cases h
    · next hs =>
      obtain ⟨u, hs⟩ := List.head?_eq_some_iff.mp hs
      rw [hs, gives_skip_iff] at h
      rw [hs, h]
    · refine absurd h (Fails.bind (fun _ => Fails.bind (fun _ => ?_) _) _ _ _ _)
      split <;> exact fails_breach _ _
    · cases h
  · exact gives_closeList

/-- The content of a list that has been read spells the items of an array. -/
theorem exists_spells_array {item : Reader α} {P : Json → α → Prop}
    (hitem : ∀ {s a t}, item.Gives s a t → ∃ j, Spells j s t ∧ P j a) {as : List α}
    (h : ((items item).closedBy closeList).Gives s as rest) :
    ∃ xs u, SpellsItems xs true s u ∧ afterBlanks u = ']' :: rest ∧ List.Forall₂ P xs as := by
  obtain ⟨t, hitems, hclose⟩ := gives_closedBy_iff.mp h
  obtain ⟨xs, u, hxs, rfl, hall⟩ := exists_spellsItems hitem hitems
  rw [gives_closeList_iff, afterBlanks_afterBlanks] at hclose
  exact ⟨xs, u, hxs, hclose, hall⟩

/-! ## Members -/

lemma gives_colon_iff {a : Unit} : colon.Gives s a t ↔ afterBlanks s = ':' :: t := by
  constructor
  · intro h
    rw [colon, gives_peekToken_bind_iff] at h
    split at h
    · cases h
    · next hs =>
      obtain ⟨u, hs⟩ := List.head?_eq_some_iff.mp hs
      rw [hs, gives_skip_iff] at h
      rw [hs, h]
    · cases h
  · exact gives_colon

lemma gives_closeObject_iff {a : Unit} :
    closeObject.Gives s a rest ↔ afterBlanks s = '}' :: rest := by
  constructor
  · intro h
    rw [closeObject, gives_peekToken_bind_iff] at h
    split at h
    · cases h
    · next hs =>
      obtain ⟨u, hs⟩ := List.head?_eq_some_iff.mp hs
      rw [hs, gives_skip_iff] at h
      rw [hs, h]
    · cases h
    · cases h
  · exact gives_closeObject

/-- The key of a member has been read where there are quotes. -/
lemma exists_quotes_of_key {first : Bool} {key : Option String}
    (h : (do
      match ← peekToken with
      | none => breach .endInValue 1
      | some '"' => do skip; return some (← stringBody)
      | some '}' => breach (if first then .keyNotString else .trailingComma) 1
      | some _ => breach .keyNotString 1 : Reader (Option String)).Gives s key t) :
    ∃ k, key = some k ∧ Quotes k s t := by
  rw [gives_peekToken_bind_iff] at h
  split at h
  · cases h
  · next hs =>
    obtain ⟨v, hs⟩ := List.head?_eq_some_iff.mp hs
    rw [hs, gives_skip_bind_iff] at h
    obtain ⟨k, hk, rfl⟩ := gives_map_iff.mp h
    exact ⟨k, rfl, v, hs, hk⟩
  · cases h
  · cases h

/-- The loop ends in front of the brace that closes the object, and otherwise it has taken what
separates the members and the key of the next one. -/
lemma gives_nextKey_cases {first : Bool} {key : Option String}
    (h : (nextKey first).Gives s key t) :
    (key = none ∧ t = afterBlanks s) ∨
      ∃ k u, key = some k ∧ Separated first s u ∧ Quotes k u t := by
  rw [nextKey, gives_peekToken_bind_iff] at h
  split at h
  · cases h
  · obtain ⟨rfl, rfl⟩ := gives_pure_iff.mp h
    exact Or.inl ⟨rfl, rfl⟩
  · next c hne hs =>
    refine Or.inr ?_
    cases first with
    | true =>
      obtain ⟨k, rfl, hk⟩ := exists_quotes_of_key h
      exact ⟨k, s, rfl, rfl, quotes_afterBlanks_iff.mp hk⟩
    | false =>
      rw [if_neg (by decide)] at h
      split at h
      · next hc =>
        obtain rfl := beq_iff_eq.mp hc
        obtain ⟨v, hs⟩ := List.head?_eq_some_iff.mp hs
        rw [hs, gives_skip_bind_iff] at h
        obtain ⟨k, rfl, hk⟩ := exists_quotes_of_key h
        exact ⟨k, v, rfl, hs, hk⟩
      · cases h

/-- A state goes through the members from one to the next, each time as the relation says. -/
inductive Threads (P : String → Json → σ → σ → Prop) : List (String × Json) → σ → σ → Prop
  | nil (a : σ) : Threads P [] a a
  | cons {k : String} {v : Json} {ms : List (String × Json)} {a b c : σ} (head : P k v a b)
      (tail : Threads P ms b c) : Threads P ((k, v) :: ms) a c

/-- If what a step reads behind a key spells a value, the members that are read spell values one
by one. -/
lemma exists_spellsMembers {step : String → σ → Reader σ} {P : String → Json → σ → σ → Prop}
    (hstep : ∀ {k a s b t}, (step k a).Gives s b t →
      ∃ v w, afterBlanks s = ':' :: w ∧ Spells v w t ∧ P k v a b)
    {fuel : Nat} {first : Bool} {a b : σ} (h : (membersFrom step fuel first a).Gives s b t) :
    ∃ ms u, SpellsMembers ms first s u ∧ t = afterBlanks u ∧ Threads P ms a b := by
  induction fuel generalizing first s a with
  | zero => cases h
  | succ fuel ih =>
    obtain ⟨key, x, hkey, h⟩ := gives_bind_iff.mp h
    rcases gives_nextKey_cases hkey with ⟨rfl, rfl⟩ | ⟨k, u, rfl, hsep, hk⟩
    · obtain ⟨rfl, rfl⟩ := gives_pure_iff.mp h
      exact ⟨[], s, rfl, rfl, .nil b⟩
    · obtain ⟨a₁, y, hmember, h⟩ := gives_bind_iff.mp h
      obtain ⟨v, w, hcolon, hv, hP⟩ := hstep hmember
      obtain ⟨ms, z, hms, rfl, hthreads⟩ := ih h
      exact ⟨(k, v) :: ms, z, ⟨u, x, w, y, hsep, hk, hcolon, hv, hms⟩, rfl, .cons hP hthreads⟩

/-- An object has been read if its members have, up to its closing brace. -/
theorem exists_spells_object {step : String → σ → Reader σ} {P : String → Json → σ → σ → Prop}
    (hstep : ∀ {k a s b t}, (step k a).Gives s b t →
      ∃ v w, afterBlanks s = ':' :: w ∧ Spells v w t ∧ P k v a b)
    {a b : σ} (h : (members step a).Gives s b t) (hclose : closeObject.Gives t () rest) :
    ∃ ms u, SpellsMembers ms true s u ∧ afterBlanks u = '}' :: rest ∧ Threads P ms a b := by
  obtain ⟨ms, u, hms, rfl, hthreads⟩ := exists_spellsMembers hstep h
  rw [gives_closeObject_iff, afterBlanks_afterBlanks] at hclose
  exact ⟨ms, u, hms, hclose, hthreads⟩

/-- What is read behind a colon spells a value if the reader of it says so. -/
lemma exists_spells_behind_colon {item : Reader α} {Q : Json → α → Prop}
    (hitem : ∀ {s a t}, item.Gives s a t → ∃ j, Spells j s t ∧ Q j a) {f : α → β} {b : β}
    (h : (do colon; return f (← item) : Reader β).Gives s b t) :
    ∃ v w, afterBlanks s = ':' :: w ∧ Spells v w t ∧ ∃ a, Q v a ∧ f a = b := by
  obtain ⟨_, w, hcolon, h⟩ := gives_bind_iff.mp h
  obtain ⟨a, ha, hb⟩ := gives_map_iff.mp h
  obtain ⟨v, hv, hQ⟩ := hitem ha
  exact ⟨v, w, gives_colon_iff.mp hcolon, hv, a, hQ, hb⟩

/-- A whole text has been read if its beginning has, and there are only blanks behind it. -/
lemma run_eq_ok_iff {r : Reader α} {text : String} {a : α} :
    r.run text = .ok a ↔ ∃ t, r.Gives text.toList a t ∧ afterBlanks t = [] := by
  have hwhole : r.run text = .ok a ↔ ∃ u, r.whole.Gives text.toList a u := by
    constructor
    · intro h
      exact ⟨_, congrArg (Reading.mk · (r.whole text.toList).rest) h⟩
    · rintro ⟨u, h⟩
      exact congrArg Reading.outcome h
  rw [hwhole]
  constructor
  · rintro ⟨u, h⟩
    obtain ⟨b, t, hr, h⟩ := gives_bind_iff.mp h
    rw [gives_peekToken_bind_iff] at h
    split at h
    · next hend =>
      obtain ⟨rfl, -⟩ := gives_pure_iff.mp h
      exact ⟨t, hr, List.head?_eq_none_iff.mp hend⟩
    · cases h
  · rintro ⟨t, hr, hend⟩
    refine ⟨[], gives_bind_iff.mpr ⟨a, t, hr, ?_⟩⟩
    rw [gives_peekToken_bind_iff, hend]
    exact gives_pure a []

end Reader

/-! ## How a text begins -/

namespace Spells

variable {j : Json} {s t rest : List Char}

/-- A number begins with a digit or with a minus. -/
lemma number_head {n : Number} {c : Char} (h : Spells (number n) s rest)
    (hs : Json.afterBlanks s = c :: t) : c.isDigit ∨ c = '-' := by
  rcases h with ⟨u, hu, -⟩ | ⟨c', u, hc, hu, -⟩
  · cases hs.symm.trans hu
    exact Or.inr rfl
  · cases hs.symm.trans hu
    exact Or.inl hc

lemma of_null (h : Spells j s rest) (hs : Json.afterBlanks s = 'n' :: t) :
    j = null ∧ t = ['u', 'l', 'l'] ++ rest := by
  cases j with
  | null => simpa [Spells, hs] using h
  | bool b => cases b <;> simp [Spells, hs] at h
  | number n => exact absurd (h.number_head hs) (by decide)
  | _ => simp [Spells, Quotes, hs] at h

lemma of_true (h : Spells j s rest) (hs : Json.afterBlanks s = 't' :: t) :
    j = bool true ∧ t = ['r', 'u', 'e'] ++ rest := by
  cases j with
  | bool b =>
    cases b with
    | true => simpa [Spells, hs] using h
    | false => simp [Spells, hs] at h
  | number n => exact absurd (h.number_head hs) (by decide)
  | _ => simp [Spells, Quotes, hs] at h

lemma of_false (h : Spells j s rest) (hs : Json.afterBlanks s = 'f' :: t) :
    j = bool false ∧ t = ['a', 'l', 's', 'e'] ++ rest := by
  cases j with
  | bool b =>
    cases b with
    | true => simp [Spells, hs] at h
    | false => simpa [Spells, hs] using h
  | number n => exact absurd (h.number_head hs) (by decide)
  | _ => simp [Spells, Quotes, hs] at h

lemma of_quote (h : Spells j s rest) (hs : Json.afterBlanks s = '"' :: t) :
    ∃ a, j = string a ∧ Reader.stringBody.Gives t a rest := by
  cases j with
  | bool b => cases b <;> simp [Spells, hs] at h
  | number n => exact absurd (h.number_head hs) (by decide)
  | string a => simpa [Spells, Quotes, hs] using h
  | _ => simp [Spells, hs] at h

lemma of_bracket (h : Spells j s rest) (hs : Json.afterBlanks s = '[' :: t) :
    ∃ items u, j = array items ∧ SpellsItems items true t u ∧
      Json.afterBlanks u = ']' :: rest := by
  cases j with
  | bool b => cases b <;> simp [Spells, hs] at h
  | number n => exact absurd (h.number_head hs) (by decide)
  | array items => simpa [Spells, hs] using h
  | _ => simp [Spells, Quotes, hs] at h

lemma of_brace (h : Spells j s rest) (hs : Json.afterBlanks s = '{' :: t) :
    ∃ members u, j = object members ∧ SpellsMembers members true t u ∧
      Json.afterBlanks u = '}' :: rest := by
  cases j with
  | bool b => cases b <;> simp [Spells, hs] at h
  | number n => exact absurd (h.number_head hs) (by decide)
  | object members => simpa [Spells, hs] using h
  | _ => simp [Spells, Quotes, hs] at h

end Spells

/-- Behind the last item there is nothing more to spell. -/
lemma SpellsItems.eq_nil {xs : List Json} {first : Bool} {s t rest : List Char}
    (h : SpellsItems xs first s t) (hs : afterBlanks s = ']' :: rest) : xs = [] ∧ t = s := by
  cases xs with
  | nil => exact ⟨rfl, h⟩
  | cons x xs =>
    exfalso
    obtain ⟨u, v, hsep, hx, -⟩ := h
    cases first with
    | true =>
      obtain rfl : u = s := hsep
      obtain ⟨c, w, hc, hne, -⟩ := hx.exists_head
      rw [hs] at hc
      cases hc
      exact hne rfl
    | false => cases hs.symm.trans hsep

/-- Behind the last member there is nothing more to spell. -/
lemma SpellsMembers.eq_nil {ms : List (String × Json)} {first : Bool} {s t rest : List Char}
    (h : SpellsMembers ms first s t) (hs : afterBlanks s = '}' :: rest) : ms = [] ∧ t = s := by
  rcases ms with _ | ⟨⟨k, v⟩, ms⟩
  · exact ⟨rfl, h⟩
  · exfalso
    obtain ⟨u, _, _, _, hsep, ⟨body, hk, -⟩, -⟩ := h
    cases first with
    | true =>
      obtain rfl : u = s := hsep
      cases hs.symm.trans hk
    | false => cases hs.symm.trans hsep

/-! ## How a printed tree begins -/

lemma exists_toDigits_eq_cons (n : Nat) : ∃ c t, Nat.toDigits 10 n = c :: t ∧ c.isDigit := by
  obtain ⟨c, t, h⟩ := List.exists_cons_of_ne_nil (Nat.toDigits_ne_nil (n := n) (b := 10))
  have hmem : c ∈ Nat.toDigits 10 n := by simp [h]
  exact ⟨c, t, h, Nat.isDigit_of_mem_toDigits (by decide) (by decide) hmem⟩

lemma exists_positional_eq_cons (d : Decimal) : ∃ c t, d.positional = c :: t ∧ c.isDigit := by
  obtain ⟨c, t, hdigits, hc⟩ := exists_toDigits_eq_cons d.digits
  rw [Decimal.positional, hdigits]
  dsimp only
  split
  · exact ⟨c, _, rfl, hc⟩
  · split
    · exact ⟨'0', _, rfl, by decide⟩
    · next hplaces =>
      -- there are more digits than places, so the first one stands before the point
      obtain ⟨n, hn⟩ := Nat.exists_eq_add_of_lt (Nat.lt_of_not_le hplaces)
      have hlength : (c :: t).length - d.exponent.natAbs = n + 1 := by omega
      rw [hlength]
      exact ⟨c, _, rfl, hc⟩

lemma exists_scientific_eq_cons (plusSign : Bool) (d : Decimal) :
    ∃ c t, d.scientific plusSign = c :: t ∧ c.isDigit := by
  obtain ⟨c, t, hdigits, hc⟩ := exists_toDigits_eq_cons d.digits
  rw [Decimal.scientific, hdigits]
  cases t with
  | nil => exact ⟨c, _, rfl, hc⟩
  | cons c' t => exact ⟨c, _, rfl, hc⟩

/-- A number begins with a digit or with a minus. -/
lemma Number.exists_print_eq_cons (style : FloatStyle) (n : Number) :
    ∃ c t, n.print style = c :: t ∧ (c.isDigit ∨ c = '-') := by
  have hsigned : ∀ {negative : Prop} [Decidable negative] {body : List Char},
      (∃ c t, body = c :: t ∧ c.isDigit) →
      ∃ c t, (if negative then '-' :: body else body) = c :: t ∧ (c.isDigit ∨ c = '-') := by
    rintro negative _ _ ⟨c, t, rfl, hc⟩
    split
    · exact ⟨'-', _, rfl, Or.inr rfl⟩
    · exact ⟨c, t, rfl, Or.inl hc⟩
  cases n with
  | integer i => exact hsigned (exists_toDigits_eq_cons _)
  | real x =>
    rw [print, Binary64.toText]
    refine hsigned ?_
    split
    · exact exists_positional_eq_cons _
    · exact exists_scientific_eq_cons _ _

/-- No tree without numbers is written as a number is. -/
lemma not_spells_of_number {j : Json} (hj : j.Numberless) {c : Char} {s t rest : List Char}
    (hs : afterBlanks s = c :: t) (hc : c.isDigit ∨ c = '-') : ¬ Spells j s rest := by
  intro h
  cases j with
  | null =>
    rw [Spells, hs] at h
    cases h
    exact absurd hc (by decide)
  | bool b =>
    cases b with
    | true =>
      rw [Spells, hs] at h
      cases h
      exact absurd hc (by decide)
    | false =>
      rw [Spells, hs] at h
      cases h
      exact absurd hc (by decide)
  | number n => exact hj
  | string a =>
    obtain ⟨body, h, -⟩ := h
    cases hs.symm.trans h
    exact absurd hc (by decide)
  | array items =>
    obtain ⟨_, _, h, -⟩ := h
    cases hs.symm.trans h
    exact absurd hc (by decide)
  | object members =>
    obtain ⟨_, _, h, -⟩ := h
    cases hs.symm.trans h
    exact absurd hc (by decide)

/-- What a tree begins with is no blank and closes no list. -/
lemma exists_print_eq_cons (j : Json) :
    ∃ c t, j.print = c :: t ∧ Reader.isBlank c = false ∧ c ≠ ']' := by
  cases j with
  | null => exact ⟨_, _, rfl, by decide, by decide⟩
  | bool b => cases b <;> exact ⟨_, _, rfl, by decide, by decide⟩
  | number n =>
    obtain ⟨c, t, hprint, hc⟩ := n.exists_print_eq_cons .json
    refine ⟨c, t, hprint, ?_, ?_⟩
    · rw [← Bool.not_eq_true]
      intro hblank
      simp only [Reader.isBlank, Bool.or_eq_true, beq_iff_eq] at hblank
      rcases hblank with ((rfl | rfl) | rfl) | rfl <;> exact absurd hc (by decide)
    · rintro rfl
      exact absurd hc (by decide)
  | string a => exact ⟨_, _, rfl, by decide, by decide⟩
  | array items => cases items <;> exact ⟨_, _, rfl, by decide, by decide⟩
  | object members => cases members <;> exact ⟨_, _, rfl, by decide, by decide⟩

/-! ## Printed texts -/

/-- A printed string is read as no other string. -/
lemma eq_of_quotes_printString {a b : String} {rest rest' : List Char}
    (h : Quotes b (printString a ++ rest) rest') : b = a ∧ rest' = rest := by
  obtain ⟨body, hs, hbody⟩ := h
  obtain ⟨body', hprint, hbody'⟩ := stringBody_printString a rest
  rw [hprint, afterBlanks_cons (by decide)] at hs
  cases hs
  cases hbody.symm.trans hbody'
  exact ⟨rfl, rfl⟩

mutual

/-- The text of a tree spells no other tree without numbers. -/
theorem eq_of_spells_print : (v : Json) → {j : Json} → j.Numberless → {rest rest' : List Char} →
    Spells j (v.print ++ rest) rest' → j = v ∧ rest' = rest
  | null, j, hj, rest, rest', h => by
    obtain ⟨rfl, htail⟩ := h.of_null rfl
    exact ⟨rfl, (List.append_cancel_left htail).symm⟩
  | bool true, j, hj, rest, rest', h => by
    obtain ⟨rfl, htail⟩ := h.of_true rfl
    exact ⟨rfl, (List.append_cancel_left htail).symm⟩
  | bool false, j, hj, rest, rest', h => by
    obtain ⟨rfl, htail⟩ := h.of_false rfl
    exact ⟨rfl, (List.append_cancel_left htail).symm⟩
  | number n, j, hj, rest, rest', h => by
    obtain ⟨c, t, hprint, hblank, -⟩ := (number n).exists_print_eq_cons
    obtain ⟨c', t', hprint', hc⟩ := n.exists_print_eq_cons .json
    obtain ⟨rfl, rfl⟩ : c = c' ∧ t = t' := List.cons.inj (hprint.symm.trans hprint')
    rw [hprint] at h
    exact absurd h (not_spells_of_number hj (afterBlanks_cons hblank _) hc)
  | string a, j, hj, rest, rest', h => by
    obtain ⟨body, hprint, hbody⟩ := stringBody_printString a rest
    have hs : afterBlanks ((string a).print ++ rest) = '"' :: body := by
      rw [print, hprint, afterBlanks_cons (by decide)]
    obtain ⟨b, rfl, hb⟩ := h.of_quote hs
    cases hb.symm.trans hbody
    exact ⟨rfl, rfl⟩
  | array [], j, hj, rest, rest', h => by
    obtain ⟨ys, u, rfl, hys, hu⟩ := h.of_bracket rfl
    obtain ⟨rfl, rfl⟩ := hys.eq_nil rfl
    cases hu
    exact ⟨rfl, rfl⟩
  | array (x :: xs), j, hj, rest, rest', h => by
    have hs : afterBlanks ((array (x :: xs)).print ++ rest) =
        '[' :: (x.print ++ (printItems xs ++ ']' :: rest)) := by
      simp [print, afterBlanks_cons (c := '[') (by decide)]
    obtain ⟨ys, u, rfl, hys, hu⟩ := h.of_bracket hs
    cases ys with
    | nil =>
      obtain rfl : u = x.print ++ (printItems xs ++ ']' :: rest) := hys
      obtain ⟨c, t, hprint, hblank, hne⟩ := x.exists_print_eq_cons
      rw [hprint, List.cons_append, afterBlanks_cons hblank] at hu
      cases hu
      exact absurd rfl hne
    | cons y ys =>
      obtain ⟨t, u', hsep, hy, hys⟩ := hys
      obtain rfl : t = x.print ++ (printItems xs ++ ']' :: rest) := hsep
      obtain ⟨rfl, rfl⟩ := eq_of_spells_print x hj.1 hy
      obtain ⟨rfl, rfl⟩ := eq_of_spellsItems_printItems xs hj.2 hys hu
      exact ⟨rfl, rfl⟩
  | object [], j, hj, rest, rest', h => by
    obtain ⟨ms, u, rfl, hms, hu⟩ := h.of_brace rfl
    obtain ⟨rfl, rfl⟩ := hms.eq_nil rfl
    cases hu
    exact ⟨rfl, rfl⟩
  | object ((k, v) :: ms), j, hj, rest, rest', h => by
    have hs : afterBlanks ((object ((k, v) :: ms)).print ++ rest) =
        '{' :: (printString k ++ ':' :: (v.print ++ (printMembers ms ++ '}' :: rest))) := by
      simp [print, afterBlanks_cons (c := '{') (by decide)]
    obtain ⟨ns, u, rfl, hns, hu⟩ := h.of_brace hs
    rcases ns with _ | ⟨⟨l, w⟩, ns⟩
    · obtain rfl : u = printString k ++ ':' :: (v.print ++ (printMembers ms ++ '}' :: rest)) := hns
      cases hu
    · obtain ⟨t, _, x, _, hsep, hl, hcolon, hw, hns⟩ := hns
      obtain rfl : t = printString k ++ ':' :: (v.print ++ (printMembers ms ++ '}' :: rest)) :=
        hsep
      obtain ⟨rfl, rfl⟩ := eq_of_quotes_printString hl
      cases hcolon
      obtain ⟨rfl, rfl⟩ := eq_of_spells_print v hj.1 hw
      obtain ⟨rfl, rfl⟩ := eq_of_spellsMembers_printMembers ms hj.2 hns hu
      exact ⟨rfl, rfl⟩

theorem eq_of_spellsItems_printItems : (xs : List Json) → {ys : List Json} → NumberlessItems ys →
    {u rest rest' : List Char} → SpellsItems ys false (printItems xs ++ ']' :: rest) u →
    afterBlanks u = ']' :: rest' → ys = xs ∧ rest' = rest
  | [], ys, _, u, rest, rest', h, hu => by
    obtain ⟨rfl, rfl⟩ := h.eq_nil rfl
    cases hu
    exact ⟨rfl, rfl⟩
  | x :: xs, [], _, u, rest, rest', h, hu => by
    obtain rfl : u = printItems (x :: xs) ++ ']' :: rest := h
    cases hu
  | x :: xs, y :: ys, hys, u, rest, rest', h, hu => by
    have hs : afterBlanks (printItems (x :: xs) ++ ']' :: rest) =
        ',' :: (x.print ++ (printItems xs ++ ']' :: rest)) := by
      simp [printItems, afterBlanks_cons (c := ',') (by decide)]
    obtain ⟨t, _, hsep, hy, h⟩ := h
    obtain rfl : x.print ++ (printItems xs ++ ']' :: rest) = t :=
      (List.cons.inj (hs.symm.trans hsep)).2
    obtain ⟨rfl, rfl⟩ := eq_of_spells_print x hys.1 hy
    obtain ⟨rfl, rfl⟩ := eq_of_spellsItems_printItems xs hys.2 h hu
    exact ⟨rfl, rfl⟩

theorem eq_of_spellsMembers_printMembers : (ms : List (String × Json)) →
    {ns : List (String × Json)} → NumberlessMembers ns → {u rest rest' : List Char} →
    SpellsMembers ns false (printMembers ms ++ '}' :: rest) u →
    afterBlanks u = '}' :: rest' → ns = ms ∧ rest' = rest
  | [], ns, _, u, rest, rest', h, hu => by
    obtain ⟨rfl, rfl⟩ := h.eq_nil rfl
    cases hu
    exact ⟨rfl, rfl⟩
  | (k, v) :: ms, [], _, u, rest, rest', h, hu => by
    obtain rfl : u = printMembers ((k, v) :: ms) ++ '}' :: rest := h
    cases hu
  | (k, v) :: ms, (l, w) :: ns, hns, u, rest, rest', h, hu => by
    have hs : afterBlanks (printMembers ((k, v) :: ms) ++ '}' :: rest) =
        ',' :: (printString k ++ ':' :: (v.print ++ (printMembers ms ++ '}' :: rest))) := by
      simp [printMembers, afterBlanks_cons (c := ',') (by decide)]
    obtain ⟨t, _, _, _, hsep, hl, hcolon, hw, h⟩ := h
    obtain rfl : printString k ++ ':' :: (v.print ++ (printMembers ms ++ '}' :: rest)) = t :=
      (List.cons.inj (hs.symm.trans hsep)).2
    obtain ⟨rfl, rfl⟩ := eq_of_quotes_printString hl
    cases hcolon
    obtain ⟨rfl, rfl⟩ := eq_of_spells_print v hns.1 hw
    obtain ⟨rfl, rfl⟩ := eq_of_spellsMembers_printMembers ms hns.2 h hu
    exact ⟨rfl, rfl⟩

end

end ConfigRegistry.Json
