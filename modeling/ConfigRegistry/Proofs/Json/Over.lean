/-
# What can be read can be read over

Reading over a value looks less closely than reading it does, and it keeps its own account of open
brackets instead of calling itself.  Still the two agree about where a value ends: whatever spells a
tree is read over, and what is left is what follows the tree (`Reader.readOver_of_spells`).  The
converse fails, since a number out of range and half of a surrogate pair are read over as well.

The proof follows the tree.  As the reader does not stop at the end of a value but goes on to the
end of the outermost bracket, the statement is about all that is still to come: if the reader gets
from behind the value to some place, then it gets there from before the value.  Its bound on the
number of steps is counted in characters, two steps for each.
-/
import ConfigRegistry.Json.Over
import ConfigRegistry.Proofs.Json.Recognition
import ConfigRegistry.Proofs.Json.Tree
import ConfigRegistry.Proofs.Steps

namespace ConfigRegistry.Json

/-! ## Strings -/

lemma overString_letter {c : Char}
    (hc : ['"', '\\', '/', 'b', 'f', 'n', 'r', 't'].contains c) (rest : List Char) :
    overString ('\\' :: c :: rest) = overString rest := by
  have hu : c ≠ 'u' := by
    rintro rfl
    exact absurd hc (by decide)
  rw [overString, overEscape, if_pos hc]
  exact hu

lemma overString_of_hexQuad {s rest : List Char} {n : Nat} {h : rest.length ≤ s.length}
    (hquad : hexQuad s = .ok (n, ⟨rest, h⟩)) : overString ('\\' :: 'u' :: s) = overString rest := by
  rw [overString, overEscape, hquad]
  rfl

/-- The second escape of a surrogate pair is read over like an escape of its own. -/
lemma overString_of_unicodeEscape {s rest : List Char} {c : Char} {h : rest.length ≤ s.length}
    (hescape : unicodeEscape s = .ok (c, ⟨rest, h⟩)) :
    overString ('\\' :: 'u' :: s) = overString rest := by
  rw [unicodeEscape] at hescape
  obtain ⟨⟨n, t, ht⟩, hquad, hescape⟩ := bind_eq_ok_iff.mp hescape
  rw [overString_of_hexQuad hquad]
  dsimp only at hescape
  split at hescape
  · cases hescape
  · split at hescape
    · cases hescape
      rfl
    · split at hescape
      · cases hescape
      · cases hescape
      · obtain ⟨⟨m, u, hu⟩, hquad', hescape⟩ := bind_eq_ok_iff.mp hescape
        rw [overString_of_hexQuad hquad']
        dsimp only at hescape
        split at hescape
        · have hrest : u = rest := congrArg (fun taken => taken.2.1) (Except.ok.inj hescape)
          rw [hrest]
        · cases hescape
      · cases hescape
      · cases hescape

lemma overString_of_escape {s rest : List Char} {c : Char} {h : rest.length ≤ s.length}
    (hescape : escape s = .ok (c, ⟨rest, h⟩)) : overString ('\\' :: s) = overString rest := by
  rw [escape.eq_def] at hescape
  split at hescape
  · cases hescape
  · dsimp only at hescape
    split at hescape
    case h_9 =>
      obtain ⟨⟨d, t, ht⟩, hunicode, heq⟩ := map_eq_ok_iff.mp hescape
      cases heq
      exact overString_of_unicodeEscape hunicode
    case h_10 => cases hescape
    all_goals
      cases hescape
      exact overString_letter (by decide) _

lemma overString_of_stringBody {done s rest : List Char} {a : String}
    (h : stringBody done s = ⟨.ok a, rest⟩) : overString s = ⟨.ok (), rest⟩ := by
  fun_induction stringBody done s with
  | case1 => cases h
  | case2 done t =>
    cases h
    rw [overString]
  | case3 done t c u hu hescape ih =>
    rw [overString_of_escape hescape]
    exact ih h
  | case4 => cases h
  | case5 => cases h
  | case6 done c t hquote hbackslash hcontrol ih =>
    rw [overString, if_neg hcontrol]
    · exact ih h
    · exact hquote
    · exact hbackslash

namespace Reader

variable {s rest : List Char} {n : Number}

/-! ## Numbers -/

lemma gives_peek_bind_iff {α : Type} {f : Option Char → Reader α} {a : α} :
    (peek >>= f).Gives s a rest ↔ (f s.head?).Gives s a rest := Iff.rfl

lemma gives_unless_breach {α : Type} {c : Prop} [Decidable c] {b : Breach} {ahead : Nat}
    {r : Reader α} {a : α} (h : (if c then breach b ahead else r).Gives s a rest) :
    ¬c ∧ r.Gives s a rest := by
  split at h
  · cases h
  · exact ⟨‹_›, h⟩

lemma eq_of_gives_real {x : Option Binary64} (h : (real x).Gives s n rest) : rest = s := by
  cases x with
  | none => cases h
  | some x => exact (gives_pure_iff.mp h).2

lemma gives_overDigits {c : Char} (hc : c.isDigit) (s : List Char) :
    overDigits.Gives (c :: s) () ((c :: s).dropWhile Char.isDigit) := by
  rw [overDigits, gives_peek_bind_iff]
  dsimp only [List.head?_cons]
  rw [if_pos hc]
  rfl

/-- What is read over behind the letter of an exponent. -/
def overSigned : Reader Unit := do
  match ← peek with
  | some '+' | some '-' => skip
  | _ => pure ()
  overDigits

lemma overExponent_of_exponentPart {negative : Bool} {significand : Nat} {exponent : Int} {c : Char}
    (hc : c = 'e' ∨ c = 'E')
    (h : (exponentPart negative significand exponent).Gives (c :: s) n rest) :
    overExponent.Gives (c :: s) () rest := by
  rw [exponentPart, gives_skip_bind_iff, gives_peek_bind_iff] at h
  extract_lets tail at h
  have htail : ∀ {down : Bool} {t : List Char}, (tail down).Gives t n rest →
      overDigits.Gives t () rest := by
    intro down t h
    change (peek >>= _).Gives t n rest at h
    rw [gives_peek_bind_iff] at h
    cases t with
    | nil => cases h
    | cons d t =>
      obtain ⟨hd, h⟩ := gives_unless_breach h
      have hdigits := gives_overDigits (by simpa using hd) t
      dsimp only [Gives] at h
      split at h
      · rwa [eq_of_gives_real h]
      · split at h
        · cases h
        · cases h
          exact hdigits
  have hsigned : overSigned.Gives s () rest := by
    split at h
    · next hs =>
      obtain ⟨t, rfl⟩ := List.head?_eq_some_iff.mp hs
      exact htail h
    · next hs =>
      obtain ⟨t, rfl⟩ := List.head?_eq_some_iff.mp hs
      exact htail h
    · next hplus hminus =>
      rw [overSigned, gives_peek_bind_iff]
      split
      · exact absurd ‹_› hplus
      · exact absurd ‹_› hminus
      · exact htail h
  rcases hc with rfl | rfl
  · exact hsigned
  · exact hsigned

lemma overExponent_of_ne {s : List Char} (he : s.head? ≠ some 'e') (hE : s.head? ≠ some 'E') :
    overExponent.Gives s () s := by
  rw [overExponent, gives_peek_bind_iff]
  split
  · exact absurd ‹_› he
  · exact absurd ‹_› hE
  · exact gives_pure () s

lemma overExponent_of_fromExponent {negative : Bool} {significand : Nat} {exponent : Int}
    (h : (fromExponent negative significand exponent).Gives s n rest) :
    overExponent.Gives s () rest := by
  rw [fromExponent, gives_peek_bind_iff] at h
  split at h
  · next hs =>
    obtain ⟨t, rfl⟩ := List.head?_eq_some_iff.mp hs
    exact overExponent_of_exponentPart (Or.inl rfl) h
  · next hs =>
    obtain ⟨t, rfl⟩ := List.head?_eq_some_iff.mp hs
    exact overExponent_of_exponentPart (Or.inr rfl) h
  · next he hE =>
    rw [eq_of_gives_real h]
    exact overExponent_of_ne he hE

/-- What is read over behind the digits of the whole part. -/
def overAfterWhole : Reader Unit := do
  match ← peek with
  | some '.' => do
    skip
    match ← digits with
    | [] => breach .badNumber 1
    | _ => pure ()
    overExponent
  | _ => overExponent

lemma overAfterWhole_of_fractionPart {negative : Bool} {significand : Nat} {exponent : Int}
    (h : (fractionPart negative significand exponent).Gives ('.' :: s) n rest) :
    overAfterWhole.Gives ('.' :: s) () rest := by
  rw [fractionPart, gives_skip_bind_iff] at h
  obtain ⟨ds, t, hds, h⟩ := gives_bind_iff.mp h
  cases ds with
  | nil =>
    change (peek >>= _).Gives t n rest at h
    rw [gives_peek_bind_iff] at h
    split at h <;> cases h
  | cons d ds =>
    rw [overAfterWhole, gives_peek_bind_iff]
    exact (gives_skip _ _).bind (hds.bind (overExponent_of_fromExponent h))

lemma eq_of_gives_integral {negative : Bool} {significand : Nat}
    (h : (integral negative significand).Gives s n rest) : rest = s := by
  rw [integral] at h
  split at h
  · exact (gives_pure_iff.mp h).2
  · split at h
    · exact eq_of_gives_real h
    · exact (gives_pure_iff.mp h).2

lemma overAfterWhole_of_afterWhole {negative : Bool} {significand dropped : Nat}
    (h : (afterWhole negative significand dropped).Gives s n rest) :
    overAfterWhole.Gives s () rest := by
  rw [afterWhole, gives_peek_bind_iff] at h
  split at h
  · next hs =>
    obtain ⟨t, rfl⟩ := List.head?_eq_some_iff.mp hs
    exact overAfterWhole_of_fractionPart h
  · next hs =>
    obtain ⟨t, rfl⟩ := List.head?_eq_some_iff.mp hs
    exact overExponent_of_exponentPart (Or.inl rfl) h
  · next hs =>
    obtain ⟨t, rfl⟩ := List.head?_eq_some_iff.mp hs
    exact overExponent_of_exponentPart (Or.inr rfl) h
  · next hdot he hE =>
    have hrest : rest = s := by
      split at h
      · exact eq_of_gives_integral h
      · exact eq_of_gives_real h
    rw [hrest, overAfterWhole, gives_peek_bind_iff]
    split
    · exact absurd ‹_› hdot
    · exact overExponent_of_ne he hE

lemma overNumeral_of_numeral {negative : Bool} (h : (numeral negative).Gives s n rest) :
    overNumeral.Gives s () rest := by
  rw [numeral, gives_peek_bind_iff] at h
  split at h
  · cases h
  · next hs =>
    obtain ⟨t, rfl⟩ := List.head?_eq_some_iff.mp hs
    rw [gives_skip_bind_iff, gives_peek_bind_iff] at h
    rw [overNumeral, gives_peek_bind_iff]
    refine (gives_skip _ _).bind ?_
    rw [gives_peek_bind_iff]
    cases t with
    | nil => exact overAfterWhole_of_afterWhole h
    | cons c t =>
      obtain ⟨hc, h⟩ := gives_unless_breach h
      dsimp only [List.head?_cons]
      rw [if_neg hc]
      exact overAfterWhole_of_afterWhole h
  · next c hzero hs =>
    obtain ⟨t, rfl⟩ := List.head?_eq_some_iff.mp hs
    split at h
    · next hc =>
      obtain ⟨ds, u, hds, h⟩ := gives_bind_iff.mp h
      cases hds
      rw [overNumeral, gives_peek_bind_iff]
      split
      · exact absurd (Option.some.inj ‹_›) hzero
      · exact (gives_overDigits hc t).bind (overAfterWhole_of_afterWhole h)
    · cases h

/-! ## Values -/

/-- From `s` on, behind a value inside the open brackets, everything up to the end of the outermost
one is read over, as long as the number of steps allows for the characters of `s`. -/
def Closes (open' : List Bracket) (s rest : List Char) : Prop :=
  ∀ fuel, 2 * s.length + 2 ≤ fuel → (overRest fuel open' true).Gives s () rest

lemma closes_nil (s : List Char) : Closes [] s s := by
  intro fuel _
  rw [overRest]
  exact gives_pure () s

lemma overKey_of_quotes {k : String} {t u : List Char} (hk : Quotes k s t)
    (hcolon : afterBlanks t = ':' :: u) : overKey.Gives s () u := by
  obtain ⟨body, hs, hbody⟩ := hk
  rw [overKey, gives_peekToken_bind_iff, hs]
  refine (gives_skip _ _).bind (Gives.bind (overString_of_stringBody hbody) ?_)
  rw [gives_peekToken_bind_iff, hcolon]
  exact gives_skip _ u

section Steps

variable {outer : List Bracket} {b : Bracket} {t u : List Char} {fuel : Nat}

/-- The closing character leads to what stands behind the bracket, after a value or not. -/
lemma overRest_of_closing (hs : afterBlanks s = b.closing :: t) (hclose : Closes outer t rest)
    (hfuel : 2 * s.length + 2 ≤ fuel) (comma : Bool) :
    (overRest fuel (b :: outer) comma).Gives s () rest := by
  have hlength := length_lt_of_afterBlanks hs
  obtain ⟨fuel, rfl⟩ := Nat.exists_eq_add_of_le' (show 1 ≤ fuel by omega)
  have hcomma : (b.closing == ',' && comma) = false := by cases b <;> rfl
  rw [overRest, gives_peekToken_bind_iff, hs]
  dsimp only [List.head?_cons]
  rw [hcomma, if_neg Bool.false_ne_true, if_pos (beq_self_eq_true _)]
  exact (gives_skip _ _).bind (hclose fuel (by omega))

/-- Reads over an item or a member, and on to the end of the outermost bracket. -/
def overEntry (fuel : Nat) (outer : List Bracket) : Bracket → Reader Unit
  | .list => overValue fuel (.list :: outer)
  | .object => do overKey; overValue fuel (.object :: outer)

/-- Before an item or a member a comma is taken, unless it is the first one. -/
lemma overRest_of_separated {first : Bool} {c : Char} (hsep : Separated first s t)
    (ht : afterBlanks t = c :: u) (hc : c ≠ b.closing)
    (hentry : ∀ t', afterBlanks t' = afterBlanks t → t'.length ≤ t.length →
      (overEntry fuel outer b).Gives t' () rest) :
    (overRest (fuel + 1) (b :: outer) (!first)).Gives s () rest := by
  rw [overRest, gives_peekToken_bind_iff]
  cases first with
  | true =>
    obtain rfl : t = s := hsep
    have hgo := hentry _ (afterBlanks_afterBlanks t) (length_afterBlanks_le t)
    have hcomma : ¬(c == ',' && !true) = true := by simp
    have hclosing : ¬(c == b.closing) = true := by simpa using hc
    rw [ht] at hgo ⊢
    dsimp only [List.head?_cons]
    rw [if_neg hcomma, if_neg hclosing, if_neg (by decide)]
    cases b with
    | list => exact hgo
    | object => exact hgo
  | false =>
    have hs : afterBlanks s = ',' :: t := hsep
    have hgo := hentry t rfl (Nat.le_refl _)
    rw [hs]
    refine (gives_skip _ _).bind ?_
    cases b with
    | list => exact hgo
    | object => exact hgo

end Steps

mutual

/-- From before a value, the reader gets to where it gets from behind the value. -/
theorem overValue_of_spells : (j : Json) → {open' : List Bracket} → {fuel : Nat} →
    {s t rest : List Char} → Spells j s t → Closes open' t rest → 2 * s.length + 1 ≤ fuel + 1 →
    (overValue (fuel + 1) open').Gives s () rest
  | null, open', fuel, s, t, rest, h, hclose, hfuel => by
    have hlength := h.length_lt
    rw [Spells] at h
    rw [overValue, gives_peekToken_bind_iff, h]
    exact (gives_skip _ _).bind ((gives_keyword _ t).bind (hclose fuel (by omega)))
  | bool true, open', fuel, s, t, rest, h, hclose, hfuel => by
    have hlength := h.length_lt
    rw [Spells] at h
    rw [overValue, gives_peekToken_bind_iff, h]
    exact (gives_skip _ _).bind ((gives_keyword _ t).bind (hclose fuel (by omega)))
  | bool false, open', fuel, s, t, rest, h, hclose, hfuel => by
    have hlength := h.length_lt
    rw [Spells] at h
    rw [overValue, gives_peekToken_bind_iff, h]
    exact (gives_skip _ _).bind ((gives_keyword _ t).bind (hclose fuel (by omega)))
  | number n, open', fuel, s, t, rest, h, hclose, hfuel => by
    have hlength := h.length_lt
    have hrest := hclose fuel (by omega)
    rw [overValue, gives_peekToken_bind_iff]
    rcases h with ⟨u, hs, hn⟩ | ⟨c, u, hc, hs, hn⟩
    · rw [hs]
      exact (gives_skip _ _).bind (Gives.bind (overNumeral_of_numeral hn) hrest)
    · obtain ⟨hnull, htrue, hfalse, hquote, hminus, hlist, hobject⟩ := digit_ne hc
      rw [hs]
      -- only the last branch is for digits
      split
      case h_9 d _ _ _ _ _ _ _ h =>
        cases h
        rw [if_pos hc]
        exact Gives.bind (overNumeral_of_numeral hn) hrest
      all_goals
        next h =>
          cases h <;> contradiction
  | string a, open', fuel, s, t, rest, h, hclose, hfuel => by
    have hlength := h.length_lt
    obtain ⟨body, hs, hbody⟩ := h
    rw [overValue, gives_peekToken_bind_iff, hs]
    exact (gives_skip _ _).bind
      (Gives.bind (overString_of_stringBody hbody) (hclose fuel (by omega)))
  | array items, open', fuel, s, t, rest, h, hclose, hfuel => by
    obtain ⟨u, v, hs, hitems, hv⟩ := h
    have hlength := length_lt_of_afterBlanks hs
    rw [overValue, gives_peekToken_bind_iff, hs]
    exact (gives_skip _ _).bind (overRest_of_spellsItems items hitems hv hclose (by omega))
  | object members, open', fuel, s, t, rest, h, hclose, hfuel => by
    obtain ⟨u, v, hs, hmembers, hv⟩ := h
    have hlength := length_lt_of_afterBlanks hs
    rw [overValue, gives_peekToken_bind_iff, hs]
    exact (gives_skip _ _).bind (overRest_of_spellsMembers members hmembers hv hclose (by omega))

theorem overRest_of_spellsItems : (xs : List Json) → {outer : List Bracket} → {first : Bool} →
    {fuel : Nat} → {s t u rest : List Char} → SpellsItems xs first s t →
    afterBlanks t = ']' :: u → Closes outer u rest → 2 * s.length + 2 ≤ fuel →
    (overRest fuel (.list :: outer) (!first)).Gives s () rest
  | [], outer, first, fuel, s, t, u, rest, h, ht, hclose, hfuel => by
    obtain rfl : t = s := h
    exact overRest_of_closing ht hclose hfuel _
  | x :: xs, outer, first, fuel, s, t, u, rest, h, ht, hclose, hfuel => by
    obtain ⟨v, w, hsep, hx, hxs⟩ := h
    have hlength := hsep.length_le
    obtain ⟨fuel, rfl⟩ := Nat.exists_eq_add_of_le' (show 2 ≤ fuel by omega)
    obtain ⟨c, y, hv, hc, -⟩ := hx.exists_head
    refine overRest_of_separated hsep hv hc fun v' hv' hlength' => ?_
    have hx' : Spells x v' w := by rwa [← spells_afterBlanks_iff, hv', spells_afterBlanks_iff]
    exact overValue_of_spells x hx' (fun fuel' h' => overRest_of_spellsItems xs hxs ht hclose h')
      (by omega)

theorem overRest_of_spellsMembers : (ms : List (String × Json)) → {outer : List Bracket} →
    {first : Bool} → {fuel : Nat} → {s t u rest : List Char} → SpellsMembers ms first s t →
    afterBlanks t = '}' :: u → Closes outer u rest → 2 * s.length + 2 ≤ fuel →
    (overRest fuel (.object :: outer) (!first)).Gives s () rest
  | [], outer, first, fuel, s, t, u, rest, h, ht, hclose, hfuel => by
    obtain rfl : t = s := h
    exact overRest_of_closing ht hclose hfuel _
  | (k, v) :: ms, outer, first, fuel, s, t, u, rest, h, ht, hclose, hfuel => by
    obtain ⟨w, x, y, z, hsep, hk, hcolon, hv, hms⟩ := h
    have hlength := hsep.length_le
    obtain ⟨fuel, rfl⟩ := Nat.exists_eq_add_of_le' (show 2 ≤ fuel by omega)
    obtain ⟨body, hw, -⟩ := id hk
    refine overRest_of_separated hsep hw (by decide) fun w' hw' hlength' => ?_
    have hk' : Quotes k w' x := by rwa [← quotes_afterBlanks_iff, hw', quotes_afterBlanks_iff]
    have hcolon' := length_lt_of_afterBlanks hcolon
    have hkey := hk'.length_lt
    refine Gives.bind (overKey_of_quotes hk' hcolon) ?_
    exact overValue_of_spells v hv (fun fuel' h' => overRest_of_spellsMembers ms hms ht hclose h')
      (by omega)

end

/-- **Whatever spells a tree is read over.** -/
theorem readOver_of_spells {j : Json} (h : Spells j s rest) : readOver.Gives s () rest :=
  overValue_of_spells j h (closes_nil rest) (by omega)

end Reader

end ConfigRegistry.Json
