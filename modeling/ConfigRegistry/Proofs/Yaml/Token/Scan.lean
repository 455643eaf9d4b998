/-
# From token to token

Between two tokens of a text the scanner passes over a gap, gives up the places from which no key
can reach further, and closes blocks.  After that it stands at the next token.  A scan is therefore
followed from one token to the next (`Scan.Step`); when the last token has been reached, the tokens
are those found (`Scan.tokens_of_leads`), and the bound on their number was large enough, because
each step takes at least a character.
-/
import Mathlib.Logic.Relation
import ConfigRegistry.Proofs.Steps
import ConfigRegistry.Proofs.Yaml.Glyph
import ConfigRegistry.Yaml.Token.Stream

namespace ConfigRegistry.Yaml

/-! ## Gaps -/

/-- A text that is at its end, or begins with a character that is not passed over. -/
def Opens (F : List Char) : Prop :=
  beginsWith (fun c => isGap c || c == '#' || c == byteOrderMark) F = false

@[simp] lemma opens_nil : Opens [] := rfl

lemma opens_cons {c : Char} {F : List Char} :
    Opens (c :: F) ↔ isGap c = false ∧ c ≠ '#' ∧ c ≠ byteOrderMark := by
  simp [Opens, beginsWith, and_assoc]

lemma Opens.beginsWith_isGap {F : List Char} (h : Opens F) : beginsWith isGap F = false := by
  cases F with
  | nil => rfl
  | cons c F => exact (opens_cons.mp h).1

namespace Scan

section Gap

variable {flow allowed : Bool} {p : Place} {F : List Char}

/-- Nothing is passed over where a token begins. -/
lemma gap_opens (hF : Kept F) (h : Opens F) :
    gap flow allowed false (p.glyphs F) = (allowed, p.glyphs F) := by
  cases F with
  | nil =>
    rw [p.glyphs_nil, gap]
    simp [Place.glyph, endMark, byteOrderMark, isBreak, nextLine, lineSeparator, paragraphSeparator]
  | cons c F =>
    obtain ⟨hgap, hcomment, hmark⟩ := opens_cons.mp h
    simp only [isGap, isBlank, isBreakOrEnd, Bool.or_eq_false_iff, beq_eq_false_iff_ne] at hgap
    obtain ⟨⟨hspace, htab⟩, hbreak, -⟩ := hgap
    rw [p.glyphs_cons (kept_cons.mp hF).1, gap]
    simp [Place.glyph, hspace, htab, hcomment, hmark, hbreak]

lemma gap_spaces (n : ℕ) : gap flow allowed false (p.glyphs (spaces n ++ F)) =
    gap flow allowed false ((p.after (spaces n)).glyphs F) := by
  induction n generalizing p with
  | zero => rfl
  | succ n ih =>
    rw [p.glyphs_spaces_succ, p.after_spaces_succ, ← ih, gap]
    simp [Place.glyph, byteOrderMark]

/-- A new line allows a key. -/
lemma gap_lineFeed : gap false allowed false (p.glyphs ('\n' :: F)) =
    gap false true false ((p.next '\n').glyphs F) := by
  rw [p.glyphs_cons (c := '\n') (by decide), gap]
  simp [Place.glyph, byteOrderMark, isBreak]

/-- A line that has ended is passed over, and the spaces before the next token. -/
lemma gap_newLine (hF : Kept F) (h : Opens F) (n : ℕ) :
    gap false allowed false (p.glyphs ('\n' :: (spaces n ++ F))) =
      (true, (p.after ('\n' :: spaces n)).glyphs F) := by
  rw [gap_lineFeed, gap_spaces, gap_opens hF h, Place.after_cons]

end Gap

/-! ## Places where a key may have begun -/

/-- The place where a key may have begun, if the key may still reach to a glyph. -/
def freshAt (g : Glyph) (k : Option KeyStart) : Option KeyStart := k.filter fun k => !isStale g k

/-- A key that is required still reaches to a glyph. -/
def Reaches (k : Option KeyStart) (g : Glyph) : Prop :=
  ∀ x ∈ k, x.required = true → isStale g x = false

@[simp] lemma freshAt_none (g : Glyph) : freshAt g none = none := rfl

@[simp] lemma reaches_none (g : Glyph) : Reaches none g := by simp [Reaches]

lemma Reaches.freshAt {k : Option KeyStart} {g : Glyph} (h : Reaches k g) (f : Glyph) :
    Reaches (freshAt f k) g := by
  intro x hx
  exact h x (Option.mem_filter_iff.mp hx).1

lemma refreshed_eq {k : Option KeyStart} {g : Glyph} (h : Reaches k g) :
    refreshed g k = .ok (freshAt g k) := by
  cases k with
  | none => rfl
  | some k =>
    rw [refreshed, freshAt, Option.filter_some]
    cases hstale : isStale g k with
    | false => simp
    | true =>
      have hrequired : k.required = false := by
        cases hrequired : k.required with
        | false => rfl
        | true => exact absurd (h k rfl hrequired) (by simp [hstale])
      simp [hrequired]

lemma dropStaleKeys_eq {s : Scan} {g : Glyph} {l : List Glyph} (hrest : s.rest = g :: l)
    (hkeys : ∀ k ∈ s.keyStart :: s.outerKeys, Reaches k g) :
    s.dropStaleKeys = .ok { s with keyStart := freshAt g s.keyStart
                                   outerKeys := s.outerKeys.map (freshAt g) } := by
  obtain ⟨hkey, houter⟩ := List.forall_mem_cons.mp hkeys
  have hmap : s.outerKeys.mapM (refreshed g) = .ok (s.outerKeys.map (freshAt g)) :=
    mapM_eq_ok_map fun k hk => refreshed_eq (houter k hk)
  rw [dropStaleKeys, hrest]
  simp only [hmap, refreshed_eq hkey]
  rfl

/-! ## Blocks -/

/-- No block is closed by a line that is indented enough. -/
lemma unroll_of_le {s : Scan} {column : Int} (h : s.indent ≤ column) : s.unroll column = s := by
  have hnone : unrolled column s.indent s.outer = (0, s.indent, s.outer) := by
    cases houter : s.outer <;> simp [unrolled, Int.not_lt.mpr h]
  rw [unroll]
  split
  · rfl
  · rw [hnone]
    rfl

/-- Inside a flow collection no block is closed. -/
lemma unroll_of_inFlow {s : Scan} {column : Int} (h : s.inFlow = true) : s.unroll column = s := by
  rw [unroll, if_pos h]

/-! ## Steps -/

/-- Comes to the next token. -/
def come (s : Scan) : Except Fault Scan := s.dropStaleKeys >>= toNext

/-- A gap is passed over, keys that cannot reach further are given up, and blocks are closed. -/
lemma come_eq {s : Scan} {g h : Glyph} {l m : List Glyph} {allowed : Bool}
    (hrest : s.rest = g :: l) (hgap : gap s.inFlow s.keyAllowed false (g :: l) = (allowed, h :: m))
    (hkeys : ∀ k ∈ s.keyStart :: s.outerKeys, Reaches k g ∧ Reaches k h) :
    s.come = .ok ({ s with
      rest := h :: m
      keyAllowed := allowed
      keyStart := freshAt h (freshAt g s.keyStart)
      outerKeys := s.outerKeys.map fun k => freshAt h (freshAt g k) }.unroll h.column) := by
  have hbefore := dropStaleKeys_eq hrest fun k hk => (hkeys k hk).1
  have hflow : inFlow { s with keyStart := freshAt g s.keyStart
                               outerKeys := s.outerKeys.map (freshAt g) } = s.inFlow := by
    simp [inFlow]
  have hafter : ∀ k ∈ freshAt g s.keyStart :: s.outerKeys.map (freshAt g), Reaches k h := by
    obtain ⟨hkey, houter⟩ := List.forall_mem_cons.mp hkeys
    refine List.forall_mem_cons.mpr ⟨hkey.2.freshAt g, fun k hk => ?_⟩
    obtain ⟨k', hk', rfl⟩ := List.mem_map.mp hk
    exact (houter k' hk').2.freshAt g
  rw [come, hbefore]
  show toNext _ = _
  rw [toNext, hflow]
  simp only [hrest, hgap]
  rw [dropStaleKeys_eq (g := h) (l := m) rfl hafter]
  simp [column, Function.comp_def, pure, Except.pure, bind, Except.bind]

/-- One token is taken, which is not the end, and the next one is reached. -/
def Step (a b : Scan) : Prop :=
  ∃ s, a.takeNext = .ok s ∧ s.isOver = false ∧ s.come = .ok b ∧ b.rest.length < a.rest.length

/-- Any number of tokens are taken. -/
abbrev Leads : Scan → Scan → Prop := Relation.ReflTransGen Step

/-- The tokens of a text are those found when the end has been taken. -/
lemma tokens_of_leads {s a b c : Scan} {fuel : ℕ} (hcome : s.come = .ok a) (h : Leads a b)
    (htake : b.takeNext = .ok c) (hover : c.isOver = true) (hfuel : a.rest.length < fuel) :
    s.tokens fuel = c.done.reverse := by
  induction h using Relation.ReflTransGen.head_induction_on generalizing s fuel with
  | refl =>
    obtain ⟨fuel, rfl⟩ := Nat.exists_eq_succ_of_ne_zero (Nat.ne_zero_of_lt hfuel)
    obtain ⟨s', hdrop, hnext⟩ := bind_eq_ok_iff.mp hcome
    have htaken : s'.toNext >>= takeNext = .ok c := bind_eq_ok_iff.mpr ⟨_, hnext, htake⟩
    rw [tokens, hdrop]
    simp only [htaken]
    rw [if_pos hover]
  | head hstep _ ih =>
    obtain ⟨next, hnextTake, hnextOver, hnextCome, hlength⟩ := hstep
    obtain ⟨fuel, rfl⟩ := Nat.exists_eq_succ_of_ne_zero (Nat.ne_zero_of_lt hfuel)
    obtain ⟨s', hdrop, hnext⟩ := bind_eq_ok_iff.mp hcome
    have htaken : s'.toNext >>= takeNext = .ok next := bind_eq_ok_iff.mpr ⟨_, hnext, hnextTake⟩
    rw [tokens, hdrop]
    simp only [htaken, hnextOver]
    exact ih hnextCome (by omega)

end Scan

end ConfigRegistry.Yaml
