/-
# What a text spells

`Spells j s rest` says that behind blanks the text `s` begins with a value which is written as the
tree `j` is, its members in the order of the text and with every repetition, and that `rest`
follows it.  The relation follows the tree, so it is a grammar of values: blanks may stand before
any token, and only strings and numbers are left to the readers of their kind.

Any reader of values can be compared with it, whatever it makes of a value.  The printer writes
texts that spell the tree it is given (`spells_print`), as long as the tree has no numbers: behind
a number the text has to go on with something that does not belong to it.
-/
import ConfigRegistry.Proofs.Json.Quotation
import ConfigRegistry.Proofs.Json.Reader

namespace ConfigRegistry.Json

/-- Behind blanks, `s` begins with the string `a`, and `rest` follows it. -/
def Quotes (a : String) (s rest : List Char) : Prop :=
  ∃ body, afterBlanks s = '"' :: body ∧ Reader.stringBody.Gives body a rest

/-- What stands before an item or a member: nothing before the first one, and a comma before
every other one. -/
def Separated (first : Bool) (s rest : List Char) : Prop :=
  if first then rest = s else afterBlanks s = ',' :: rest

mutual

/-- Behind blanks, `s` begins with a value written as the tree is, and `rest` follows it. -/
def Spells : Json → List Char → List Char → Prop
  | null, s, rest => afterBlanks s = 'n' :: (['u', 'l', 'l'] ++ rest)
  | bool true, s, rest => afterBlanks s = 't' :: (['r', 'u', 'e'] ++ rest)
  | bool false, s, rest => afterBlanks s = 'f' :: (['a', 'l', 's', 'e'] ++ rest)
  | number n, s, rest =>
    (∃ t, afterBlanks s = '-' :: t ∧ (Reader.numeral true).Gives t n rest) ∨
      ∃ c t, c.isDigit ∧ afterBlanks s = c :: t ∧ (Reader.numeral false).Gives (c :: t) n rest
  | string a, s, rest => Quotes a s rest
  | array items, s, rest =>
    ∃ t u, afterBlanks s = '[' :: t ∧ SpellsItems items true t u ∧ afterBlanks u = ']' :: rest
  | object members, s, rest =>
    ∃ t u, afterBlanks s = '{' :: t ∧ SpellsMembers members true t u ∧ afterBlanks u = '}' :: rest

/-- The text begins with the items, from the first one of a list or a later one on. -/
def SpellsItems : List Json → Bool → List Char → List Char → Prop
  | [], _, s, rest => rest = s
  | x :: xs, first, s, rest =>
    ∃ t u, Separated first s t ∧ Spells x t u ∧ SpellsItems xs false u rest

/-- The text begins with the members, from the first one of an object or a later one on. -/
def SpellsMembers : List (String × Json) → Bool → List Char → List Char → Prop
  | [], _, s, rest => rest = s
  | (k, v) :: ms, first, s, rest =>
    ∃ t u w x, Separated first s t ∧ Quotes k t u ∧ afterBlanks u = ':' :: w ∧ Spells v w x ∧
      SpellsMembers ms false x rest

end

/-! ## Blanks and beginnings -/

lemma quotes_afterBlanks_iff {a : String} {s rest : List Char} :
    Quotes a (afterBlanks s) rest ↔ Quotes a s rest := by
  simp [Quotes]

/-- Blanks before a value do not matter. -/
lemma spells_afterBlanks_iff {j : Json} {s rest : List Char} :
    Spells j (afterBlanks s) rest ↔ Spells j s rest := by
  cases j with
  | null => simp [Spells]
  | bool b => cases b <;> simp [Spells]
  | number n => simp [Spells]
  | string a => exact quotes_afterBlanks_iff
  | array items => simp [Spells]
  | object members => simp [Spells]

lemma Spells.afterBlanks {j : Json} {s rest : List Char} (h : Spells j s rest) :
    Spells j (afterBlanks s) rest :=
  spells_afterBlanks_iff.mpr h

/-- A value does not begin with the bracket that closes a list, and only `null` begins with the
letter that `null` begins with. -/
lemma Spells.exists_head {j : Json} {s rest : List Char} (h : Spells j s rest) :
    ∃ c t, Json.afterBlanks s = c :: t ∧ c ≠ ']' ∧ (j ≠ null → c ≠ 'n') := by
  cases j with
  | null => exact ⟨_, _, h, by decide, fun hj => absurd rfl hj⟩
  | bool b => cases b <;> exact ⟨_, _, h, by decide, fun _ => by decide⟩
  | number n =>
    rcases h with ⟨t, hs, -⟩ | ⟨c, t, hc, hs, -⟩
    · exact ⟨_, _, hs, by decide, fun _ => by decide⟩
    · refine ⟨_, _, hs, ?_, fun _ => ?_⟩ <;>
      · rintro rfl
        exact absurd hc (by decide)
  | string a =>
    obtain ⟨body, hs, -⟩ := h
    exact ⟨_, _, hs, by decide, fun _ => by decide⟩
  | array items =>
    obtain ⟨t, u, hs, -, -⟩ := h
    exact ⟨_, _, hs, by decide, fun _ => by decide⟩
  | object members =>
    obtain ⟨t, u, hs, -, -⟩ := h
    exact ⟨_, _, hs, by decide, fun _ => by decide⟩

/-! ## Lengths -/

/-- A text is longer than what follows its first token. -/
lemma length_lt_of_afterBlanks {c : Char} {s t : List Char} (h : afterBlanks s = c :: t) :
    t.length < s.length := by
  have hle := length_afterBlanks_le s
  rw [h, List.length_cons] at hle
  omega

lemma Quotes.length_lt {a : String} {s rest : List Char} (h : Quotes a s rest) :
    rest.length < s.length := by
  obtain ⟨body, hs, hbody⟩ := h
  have hle := Reader.Shrinks.stringBody body
  rw [hbody] at hle
  exact Nat.lt_of_le_of_lt hle (length_lt_of_afterBlanks hs)

lemma Separated.length_le {first : Bool} {s t : List Char} (h : Separated first s t) :
    t.length ≤ s.length := by
  rw [Separated] at h
  split at h
  · rw [h]
  · exact Nat.le_of_lt (length_lt_of_afterBlanks h)

mutual

/-- A value takes at least one character. -/
lemma Spells.length_lt : {j : Json} → {s rest : List Char} → Spells j s rest →
    rest.length < s.length
  | null, s, rest, h => by
    have := length_lt_of_afterBlanks h
    simp only [List.length_append] at this
    omega
  | bool true, s, rest, h => by
    have := length_lt_of_afterBlanks h
    simp only [List.length_append] at this
    omega
  | bool false, s, rest, h => by
    have := length_lt_of_afterBlanks h
    simp only [List.length_append] at this
    omega
  | number n, s, rest, h => by
    -- the minus is a character of its own; without it, the first digit has to be counted
    rcases h with ⟨t, hs, hn⟩ | ⟨c, t, hc, hs, hn⟩
    · have hle := Reader.Shrinks.numeral true t
      rw [hn] at hle
      exact Nat.lt_of_le_of_lt hle (length_lt_of_afterBlanks hs)
    · have hlt := Reader.takes_numeral hc false t
      rw [Reader.Takes, hn, ← hs] at hlt
      exact Nat.lt_of_lt_of_le hlt (length_afterBlanks_le s)
  | string a, s, rest, h => Quotes.length_lt h
  | array items, s, rest, h => by
    obtain ⟨t, u, hs, hitems, hu⟩ := h
    have := length_lt_of_afterBlanks hs
    have := SpellsItems.length_add_le hitems
    have := length_lt_of_afterBlanks hu
    omega
  | object members, s, rest, h => by
    obtain ⟨t, u, hs, hmembers, hu⟩ := h
    have := length_lt_of_afterBlanks hs
    have := SpellsMembers.length_add_le hmembers
    have := length_lt_of_afterBlanks hu
    omega

/-- There are at most as many items as characters. -/
lemma SpellsItems.length_add_le : {items : List Json} → {first : Bool} → {s rest : List Char} →
    SpellsItems items first s rest → items.length + rest.length ≤ s.length
  | [], first, s, rest, h => by
    rw [SpellsItems] at h
    simp [h]
  | x :: xs, first, s, rest, h => by
    obtain ⟨t, u, hsep, hx, hxs⟩ := h
    have := hsep.length_le
    have := Spells.length_lt hx
    have := SpellsItems.length_add_le hxs
    rw [List.length_cons]
    omega

/-- There are at most as many members as characters. -/
lemma SpellsMembers.length_add_le : {members : List (String × Json)} → {first : Bool} →
    {s rest : List Char} → SpellsMembers members first s rest →
      members.length + rest.length ≤ s.length
  | [], first, s, rest, h => by
    rw [SpellsMembers] at h
    simp [h]
  | (k, v) :: ms, first, s, rest, h => by
    obtain ⟨t, u, w, x, hsep, hk, hcolon, hv, hms⟩ := h
    have := hsep.length_le
    have := hk.length_lt
    have := length_lt_of_afterBlanks hcolon
    have := Spells.length_lt hv
    have := SpellsMembers.length_add_le hms
    rw [List.length_cons]
    omega

end

/-! ## What the printer writes -/

mutual

/-- There are no numbers in the tree. -/
def Numberless : Json → Prop
  | number _ => False
  | array items => NumberlessItems items
  | object members => NumberlessMembers members
  | _ => True

/-- There are no numbers in the items. -/
def NumberlessItems : List Json → Prop
  | [] => True
  | x :: xs => Numberless x ∧ NumberlessItems xs

/-- There are no numbers in the values of the members. -/
def NumberlessMembers : List (String × Json) → Prop
  | [] => True
  | (_, v) :: ms => Numberless v ∧ NumberlessMembers ms

end

lemma quotes_printString (a : String) (rest : List Char) :
    Quotes a (printString a ++ rest) rest := by
  obtain ⟨body, hprint, hbody⟩ := stringBody_printString a rest
  refine ⟨body, ?_, hbody⟩
  rw [hprint, Json.afterBlanks_cons (by decide)]

mutual

/-- The printed text of a tree without numbers spells it, whatever follows. -/
theorem spells_print : (j : Json) → j.Numberless → (rest : List Char) →
    Spells j (j.print ++ rest) rest
  | null, _, _ => rfl
  | bool true, _, _ => rfl
  | bool false, _, _ => rfl
  | number _, h, _ => h.elim
  | string a, _, rest => quotes_printString a rest
  | array [], _, rest => ⟨']' :: rest, ']' :: rest, rfl, rfl, rfl⟩
  | array (x :: xs), h, rest => by
    have hx := spells_print x h.1 (printItems xs ++ ']' :: rest)
    have hxs := spellsItems_printItems xs h.2 (']' :: rest)
    refine ⟨x.print ++ (printItems xs ++ ']' :: rest), ']' :: rest, ?_, ⟨_, _, rfl, hx, hxs⟩, rfl⟩
    simp [print, Json.afterBlanks_cons (c := '[') (by decide)]
  | object [], _, rest => ⟨'}' :: rest, '}' :: rest, rfl, rfl, rfl⟩
  | object ((k, v) :: ms), h, rest => by
    have hk := quotes_printString k (':' :: (v.print ++ (printMembers ms ++ '}' :: rest)))
    have hv := spells_print v h.1 (printMembers ms ++ '}' :: rest)
    have hms := spellsMembers_printMembers ms h.2 ('}' :: rest)
    refine ⟨_, '}' :: rest, ?_, ⟨_, _, _, _, rfl, hk, rfl, hv, hms⟩, rfl⟩
    simp [print, Json.afterBlanks_cons (c := '{') (by decide)]

theorem spellsItems_printItems : (xs : List Json) → NumberlessItems xs → (rest : List Char) →
    SpellsItems xs false (printItems xs ++ rest) rest
  | [], _, _ => rfl
  | x :: xs, h, rest => by
    have hx := spells_print x h.1 (printItems xs ++ rest)
    have hxs := spellsItems_printItems xs h.2 rest
    refine ⟨_, _, ?_, hx, hxs⟩
    simp [Separated, printItems, Json.afterBlanks_cons (c := ',') (by decide)]

theorem spellsMembers_printMembers : (ms : List (String × Json)) → NumberlessMembers ms →
    (rest : List Char) → SpellsMembers ms false (printMembers ms ++ rest) rest
  | [], _, _ => rfl
  | (k, v) :: ms, h, rest => by
    have hk := quotes_printString k (':' :: (v.print ++ (printMembers ms ++ rest)))
    have hv := spells_print v h.1 (printMembers ms ++ rest)
    have hms := spellsMembers_printMembers ms h.2 rest
    refine ⟨_, _, _, _, ?_, hk, rfl, hv, hms⟩
    simp [Separated, printMembers, Json.afterBlanks_cons (c := ',') (by decide)]

end

lemma spells_render {j : Json} (hj : j.Numberless) : Spells j j.render.toList [] := by
  have hspells := spells_print j hj []
  rwa [List.append_nil, ← String.toList_ofList (l := j.print)] at hspells

end ConfigRegistry.Json
