/-
# Laying out a text

Of the characters that a YAML text may contain, two are not kept as they are: a carriage return and
the next line, which become line feeds.  As long as a text has neither of them, its layout is plain:
one glyph for each character, at the place to which the characters before it lead (`Place.glyphs`).
Whatever the printer writes is such a text, because it writes no other characters than those that
are printable.
-/
import Mathlib.Tactic.Common
import ConfigRegistry.Yaml.Scalar.Written

namespace ConfigRegistry.Yaml

/-! ## Kinds of characters -/

/-- A character that a text may contain and that is kept as it is. -/
def isKept (c : Char) : Bool := isAllowed c && c != '\r' && c != nextLine

lemma isKept_iff {c : Char} : isKept c = true ↔ isAllowed c = true ∧ c ≠ '\r' ∧ c ≠ nextLine := by
  simp [isKept, and_assoc]

/-- What may be written as itself is kept. -/
lemma isKept_of_isPrintable {c : Char} (h : isPrintable c = true) : isKept c = true := by
  refine isKept_iff.mpr ⟨?_, ?_, ?_⟩
  · simp only [isPrintable, isAllowed, Bool.or_eq_true, Bool.and_eq_true, beq_iff_eq,
      decide_eq_true_eq] at h ⊢
    omega
  · rintro rfl
    exact absurd h (by decide)
  · rintro rfl
    exact absurd h (by decide)

lemma ne_endMark_of_isKept {c : Char} (h : isKept c = true) : c ≠ endMark := by
  rintro rfl
  exact absurd h (by decide)

/-- All characters of a text are kept. -/
def Kept (s : List Char) : Prop := ∀ c ∈ s, isKept c = true

@[simp] lemma kept_nil : Kept [] := by simp [Kept]

@[simp] lemma kept_cons {c : Char} {s : List Char} :
    Kept (c :: s) ↔ isKept c = true ∧ Kept s := by
  simp [Kept]

@[simp] lemma kept_append {s t : List Char} : Kept (s ++ t) ↔ Kept s ∧ Kept t := by
  simp only [Kept, List.mem_append]
  exact ⟨fun h => ⟨fun c hc => h c (.inl hc), fun c hc => h c (.inr hc)⟩,
    fun h c hc => hc.elim (h.1 c) (h.2 c)⟩

lemma Kept.of_isPrintable {s : List Char} (h : ∀ c ∈ s, isPrintable c = true) : Kept s :=
  fun c hc => isKept_of_isPrintable (h c hc)

@[simp] lemma kept_spaces (n : ℕ) : Kept (spaces n) := by
  intro c hc
  rw [List.eq_of_mem_replicate hc]
  decide

/-! ## Places -/

/-- A place in a text: how many characters come before it, how many lines, and how many characters
of its line. -/
structure Place where
  index : ℕ
  line : ℕ
  column : ℕ

namespace Place

/-- The beginning of a text. -/
def start : Place := ⟨0, 0, 0⟩

/-- The place behind a character. -/
def next (p : Place) (c : Char) : Place :=
  if isBreak c then ⟨p.index + 1, p.line + 1, 0⟩ else ⟨p.index + 1, p.line, p.column + 1⟩

/-- The place behind a text. -/
def after (p : Place) (s : List Char) : Place := s.foldl next p

/-- A character at a place. -/
def glyph (p : Place) (c : Char) : Glyph := ⟨c, p.index, p.line, p.column⟩

/-- The layout of a text that begins at a place. -/
def glyphs (p : Place) (s : List Char) : List Glyph := Glyph.layOut p.index p.line p.column s

variable (p : Place)

@[simp] lemma after_nil : p.after [] = p := rfl

@[simp] lemma after_cons (c : Char) (s : List Char) : p.after (c :: s) = (p.next c).after s := rfl

@[simp] lemma after_append (s t : List Char) : p.after (s ++ t) = (p.after s).after t :=
  List.foldl_append

lemma next_of_isBreak {c : Char} (h : isBreak c = true) :
    p.next c = ⟨p.index + 1, p.line + 1, 0⟩ := by
  rw [next, if_pos h]

lemma next_of_not_isBreak {c : Char} (h : isBreak c = false) :
    p.next c = ⟨p.index + 1, p.line, p.column + 1⟩ := by
  rw [next, if_neg (by simp [h])]

lemma line_le_next (c : Char) : p.line ≤ (p.next c).line := by
  rw [next]
  split <;> simp

lemma line_le_after (s : List Char) : p.line ≤ (p.after s).line := by
  induction s generalizing p with
  | nil => exact Nat.le_refl _
  | cons c s ih => exact Nat.le_trans (p.line_le_next c) (ih _)

/-- On one line every character takes one column. -/
lemma after_of_not_isBreak {s : List Char} (h : ∀ c ∈ s, isBreak c = false) :
    p.after s = ⟨p.index + s.length, p.line, p.column + s.length⟩ := by
  induction s generalizing p with
  | nil => rfl
  | cons c s ih =>
    obtain ⟨hc, hs⟩ := List.forall_mem_cons.mp h
    rw [after_cons, ih _ hs, next_of_not_isBreak p hc, List.length_cons]
    simp only [Place.mk.injEq, true_and]
    omega

lemma column_next_space : (p.next ' ').column = p.column + 1 := by
  rw [p.next_of_not_isBreak (by decide)]

lemma after_spaces_succ (n : ℕ) : p.after (spaces (n + 1)) = (p.next ' ').after (spaces n) := rfl

lemma after_spaces (n : ℕ) : p.after (spaces n) = ⟨p.index + n, p.line, p.column + n⟩ := by
  rw [after_of_not_isBreak]
  · simp [spaces]
  · intro c hc
    rw [List.eq_of_mem_replicate hc]
    decide

/-- The place at some column of the line behind a break. -/
lemma after_break_spaces {c : Char} (h : isBreak c = true) (n : ℕ) :
    p.after (c :: spaces n) = ⟨p.index + 1 + n, p.line + 1, n⟩ := by
  rw [after_cons, next_of_isBreak p h, after_spaces]
  simp

/-! ## Layouts -/

@[simp] lemma glyphs_nil : p.glyphs [] = [p.glyph endMark] := by
  rw [glyphs, Glyph.layOut]
  rfl

/-- A character that is kept makes a glyph of its own. -/
lemma glyphs_cons {c : Char} (h : isKept c = true) (s : List Char) :
    p.glyphs (c :: s) = p.glyph c :: (p.next c).glyphs s := by
  obtain ⟨-, hreturn, hnext⟩ := isKept_iff.mp h
  have hlayout : p.glyphs (c :: s) =
      if isBreak c then
        ⟨if c == lineSeparator || c == paragraphSeparator then c else '\n', p.index, p.line,
          p.column⟩ :: Glyph.layOut (p.index + 1) (p.line + 1) 0 s
      else
        ⟨c, p.index, p.line, p.column⟩ :: Glyph.layOut (p.index + 1) p.line (p.column + 1) s := by
    rw [glyphs, Glyph.layOut]
    rintro rest rfl
    exact absurd rfl hreturn
  rw [hlayout, next, glyphs]
  by_cases hbreak : isBreak c = true
  · have hsame : (if c == lineSeparator || c == paragraphSeparator then c else '\n') = c := by
      split
      · rfl
      · next hother =>
        simp [isBreak, hreturn, hnext] at hbreak hother
        simp_all
    rw [if_pos hbreak, if_pos hbreak, hsame]
    rfl
  · rw [if_neg hbreak, if_neg hbreak]
    rfl

/-- Spaces begin with one, and the others come behind it. -/
lemma glyphs_spaces_succ (n : ℕ) (F : List Char) :
    p.glyphs (spaces (n + 1) ++ F) = p.glyph ' ' :: (p.next ' ').glyphs (spaces n ++ F) :=
  p.glyphs_cons (by decide) (spaces n ++ F)

@[simp] lemma length_glyphs {s : List Char} (h : Kept s) :
    (p.glyphs s).length = s.length + 1 := by
  induction s generalizing p with
  | nil => rfl
  | cons c s ih =>
    obtain ⟨hc, hs⟩ := kept_cons.mp h
    rw [glyphs_cons p hc, List.length_cons, ih _ hs, List.length_cons]

lemma glyphs_append {s : List Char} (h : Kept s) (t : List Char) :
    ∃ l, p.glyphs (s ++ t) = l ++ (p.after s).glyphs t ∧ l.length = s.length ∧
      l.map Glyph.char = s := by
  induction s generalizing p with
  | nil => exact ⟨[], rfl, rfl, rfl⟩
  | cons c s ih =>
    obtain ⟨hc, hs⟩ := kept_cons.mp h
    obtain ⟨l, hl, hlength, hchars⟩ := ih (p.next c) hs
    refine ⟨p.glyph c :: l, ?_, by simp [hlength], by simp [hchars, glyph]⟩
    rw [List.cons_append, glyphs_cons p hc, hl, after_cons, List.cons_append]

lemma exists_glyphs_cons {s : List Char} (h : Kept s) :
    ∃ c l, p.glyphs s = p.glyph c :: l ∧ (c :: s.tail = s ∨ (c = endMark ∧ s = [])) := by
  cases s with
  | nil => exact ⟨endMark, [], p.glyphs_nil, .inr ⟨rfl, rfl⟩⟩
  | cons c s => exact ⟨c, _, p.glyphs_cons (kept_cons.mp h).1 s, .inl rfl⟩

@[simp] lemma column_glyphs {s : List Char} (h : Kept s) : Yaml.column (p.glyphs s) = p.column := by
  obtain ⟨c, l, hl, -⟩ := p.exists_glyphs_cons h
  rw [hl]
  rfl

@[simp] lemma nextChar_glyphs {s : List Char} (h : Kept s) :
    nextChar (p.glyphs s) = s.headD endMark := by
  cases s with
  | nil => rfl
  | cons c s =>
    rw [p.glyphs_cons (kept_cons.mp h).1 s]
    rfl

/-- Looking ahead behind the first character. -/
lemma charAt_glyphs_cons {c : Char} (h : isKept c = true) (s : List Char) (n : ℕ) :
    charAt (p.glyphs (c :: s)) (n + 1) = charAt ((p.next c).glyphs s) n := by
  rw [p.glyphs_cons h]
  rfl

/-- Looking ahead finds the characters of the text, and behind them nothing. -/
lemma charAt_glyphs {s : List Char} (h : Kept s) (n : ℕ) :
    charAt (p.glyphs s) n = (s.drop n).headD endMark := by
  induction n generalizing p s with
  | zero => exact p.nextChar_glyphs h
  | succ n ih =>
    cases s with
    | nil => simp [charAt, nextChar]
    | cons c s =>
      obtain ⟨hc, hs⟩ := kept_cons.mp h
      rw [p.charAt_glyphs_cons hc, ih _ hs, List.drop_succ_cons]

/-- A text goes on with a gap exactly if its layout does. -/
lemma isGap_nextChar_glyphs {s : List Char} (h : Kept s) :
    isGap (nextChar (p.glyphs s)) = gapFollows s := by
  rw [p.nextChar_glyphs h]
  cases s <;> rfl

/-- A document mark stands at the beginning of a line only. -/
lemma atDocumentMark_of_column_pos (hp : 0 < p.column) (c : Char) (l : List Glyph) :
    atDocumentMark (p.glyph c :: l) = false := by
  have hcolumn : Yaml.column (p.glyph c :: l) ≠ 0 := Nat.ne_of_gt hp
  simp [atDocumentMark, atMark, hcolumn]

end Place

lemma Glyph.ofText_of_kept {s : List Char} (h : Kept s) :
    Glyph.ofText s = .ok (Place.start.glyphs s) := by
  have hall : s.all isAllowed = true := by
    rw [List.all_eq_true]
    exact fun c hc => (isKept_iff.mp (h c hc)).1
  rw [Glyph.ofText, if_pos hall]
  rfl

end ConfigRegistry.Yaml
