/-
# Between lines

Behind the last token of a line there may be spaces, and before the next line with a token there may
be lines that are empty or hold a comment.  The scanner passes over such a margin as over any gap
(`Scan.gap_margin`).  A plain scalar has gone on into the margin behind it, to see whether another
line of the scalar follows; what it leaves, from the first comment on, is again a gap
(`plain_margin`).
-/
import ConfigRegistry.Proofs.Yaml.Scalar.Plain
import ConfigRegistry.Proofs.Yaml.Token.Scan

namespace ConfigRegistry.Yaml

/-! ## Margins -/

/-- A line without a token: there are only spaces in it, or there is a comment behind them. -/
inductive IdleLine
  | empty (indent : ℕ)
  | comment (indent : ℕ) (text : String)
      (onLine : (text.toList.all fun c => isKept c && !isBreak c) = true)

/-- An idle line as it is written. -/
def IdleLine.chars : IdleLine → List Char
  | empty indent => spaces indent ++ ['\n']
  | comment indent text _ => spaces indent ++ '#' :: (text.toList ++ ['\n'])

/-- Idle lines as they are written. -/
def idleChars (lines : List IdleLine) : List Char := lines.flatMap IdleLine.chars

/-- What is between the last token of a line and the next line that has one: spaces, the end of the
line, and idle lines. -/
structure Margin where
  trailing : ℕ
  idle : List IdleLine

/-- A margin as it is written. -/
def Margin.chars (m : Margin) : List Char := spaces m.trailing ++ '\n' :: idleChars m.idle

/-- The margin that is only the end of a line. -/
def Margin.newLine : Margin := ⟨0, []⟩

lemma idleChars_cons (line : IdleLine) (lines : List IdleLine) :
    idleChars (line :: lines) = line.chars ++ idleChars lines := List.flatMap_cons

lemma IdleLine.kept_chars (line : IdleLine) : Kept line.chars := by
  cases line with
  | empty indent => exact kept_append.mpr ⟨kept_spaces _, kept_cons.mpr ⟨by decide, kept_nil⟩⟩
  | comment indent text onLine =>
    have htext : Kept text.toList := fun c hc =>
      (Bool.and_eq_true_iff.mp (List.all_eq_true.mp onLine c hc)).1
    exact kept_append.mpr ⟨kept_spaces _, kept_cons.mpr ⟨by decide, kept_append.mpr ⟨htext,
      kept_cons.mpr ⟨by decide, kept_nil⟩⟩⟩⟩

lemma kept_idleChars (lines : List IdleLine) : Kept (idleChars lines) := by
  induction lines with
  | nil => exact kept_nil
  | cons line lines ih => exact kept_append.mpr ⟨line.kept_chars, ih⟩

lemma Margin.kept_chars (m : Margin) : Kept m.chars :=
  kept_append.mpr ⟨kept_spaces _, kept_cons.mpr ⟨by decide, kept_idleChars _⟩⟩

lemma Margin.kept_append (m : Margin) {F : List Char} (hF : Kept F) (n : ℕ) :
    Kept (m.chars ++ (spaces n ++ F)) :=
  Yaml.kept_append.mpr ⟨m.kept_chars, Yaml.kept_append.mpr ⟨kept_spaces n, hF⟩⟩

/-- A margin begins with a space, or with the end of a line. -/
lemma Margin.beginsWith_append (m : Margin) {t : Char → Bool} {b : Bool} (hspace : t ' ' = b)
    (hbreak : t '\n' = b) (F : List Char) :
    beginsWith t (m.chars ++ F) = b := by
  cases m with
  | mk trailing idle =>
    cases trailing with
    | zero => exact hbreak
    | succ => exact hspace

lemma Margin.gapFollows_append (m : Margin) (F : List Char) : gapFollows (m.chars ++ F) = true := by
  cases m with
  | mk trailing idle => cases trailing <;> rfl

/-! ## Places behind margins -/

section Places

variable (p : Place)

lemma Place.next_lineFeed : p.next '\n' = ⟨p.index + 1, p.line + 1, 0⟩ :=
  p.next_of_isBreak (by decide)

lemma Place.column_after_idleLine (line : IdleLine) : (p.after line.chars).column = 0 := by
  cases line <;> simp [IdleLine.chars, Place.next_lineFeed]

lemma Place.column_after_idleChars {p : Place} (hp : p.column = 0) (lines : List IdleLine) :
    (p.after (idleChars lines)).column = 0 := by
  induction lines generalizing p with
  | nil => exact hp
  | cons line lines ih =>
    rw [idleChars_cons, Place.after_append]
    exact ih (p.column_after_idleLine line)

/-- A margin leads to the beginning of a later line. -/
lemma Place.column_after_margin (m : Margin) (n : ℕ) :
    ((p.after m.chars).after (spaces n)).column = n := by
  rw [Place.after_spaces, Margin.chars, Place.after_append, Place.after_cons,
    Place.column_after_idleChars (by rw [Place.next_lineFeed]), Nat.zero_add]

lemma Place.line_lt_after_margin (m : Margin) (n : ℕ) :
    p.line < ((p.after m.chars).after (spaces n)).line := by
  rw [Place.after_spaces, Margin.chars, Place.after_append, Place.after_cons]
  refine Nat.lt_of_lt_of_le ?_ (Place.line_le_after _ (idleChars m.idle))
  rw [Place.next_lineFeed, Place.after_spaces]
  exact Nat.lt_succ_self _

end Places

/-! ## Margins as gaps -/

section Gap

variable {p : Place} {F : List Char} {allowed : Bool}

namespace Scan

/-- A comment goes up to the end of its line. -/
lemma gap_comment {text : List Char} (h : ∀ c ∈ text, (isKept c && !isBreak c) = true) :
    gap false allowed true (p.glyphs (text ++ '\n' :: F)) =
      gap false true false (((p.after text).next '\n').glyphs F) := by
  induction text generalizing p with
  | nil =>
    rw [List.nil_append, p.glyphs_cons (c := '\n') (by decide), gap]
    simp [Place.glyph, byteOrderMark, isBreakOrEnd, isBreak]
  | cons c text ih =>
    obtain ⟨hc, htext⟩ := List.forall_mem_cons.mp h
    obtain ⟨hkept, hbreak⟩ := Bool.and_eq_true_iff.mp hc
    have hinside : isBreakOrEnd c = false := by
      simpa [isBreakOrEnd, isEnd, ne_endMark_of_isKept hkept] using hbreak
    rw [List.cons_append, p.glyphs_cons hkept, Place.after_cons, ← ih htext, gap]
    simp [Place.glyph, hinside]

/-- After an idle line a key may begin. -/
lemma gap_idleLine (line : IdleLine) :
    gap false allowed false (p.glyphs (line.chars ++ F)) =
      gap false true false ((p.after line.chars).glyphs F) := by
  cases line with
  | empty indent =>
    rw [IdleLine.chars, List.append_assoc, gap_spaces, List.singleton_append, gap_lineFeed,
      Place.after_append, Place.after_cons, Place.after_nil]
  | comment indent text onLine =>
    have hcomment (q : Place) (G : List Char) : gap false allowed false (q.glyphs ('#' :: G)) =
        gap false allowed true ((q.next '#').glyphs G) := by
      rw [q.glyphs_cons (c := '#') (by decide), gap]
      simp [Place.glyph, byteOrderMark]
    have hchars : (IdleLine.comment indent text onLine).chars ++ F =
        spaces indent ++ '#' :: (text.toList ++ '\n' :: F) := by
      simp [IdleLine.chars]
    rw [hchars, gap_spaces, hcomment, gap_comment (List.all_eq_true.mp onLine), IdleLine.chars]
    simp

lemma gap_idleChars (lines : List IdleLine) :
    gap false true false (p.glyphs (idleChars lines ++ F)) =
      gap false true false ((p.after (idleChars lines)).glyphs F) := by
  induction lines generalizing p with
  | nil => rfl
  | cons line lines ih =>
    rw [idleChars_cons, List.append_assoc, gap_idleLine, ih, Place.after_append]

/-- A margin is passed over, and the spaces before the next token. -/
lemma gap_margin (m : Margin) (n : ℕ) (hF : Kept F) (h : Opens F) :
    gap false allowed false (p.glyphs (m.chars ++ (spaces n ++ F))) =
      (true, ((p.after m.chars).after (spaces n)).glyphs F) := by
  rw [Margin.chars, List.append_assoc, gap_spaces, List.cons_append, gap_lineFeed, gap_idleChars,
    gap_spaces, gap_opens hF h, Place.after_append, Place.after_cons]

end Scan

end Gap

/-! ## Margins behind plain scalars -/

section Plain

variable {p : Place} {F done : List Char} {indent : Int} {held : Pending} {n : ℕ}

/-- Blanks at the end of a line are no part of the scalar. -/
lemma plain_trailing (blanks : List Char) (k : ℕ) :
    plain false indent done (.ofBlanks blanks) (p.glyphs (spaces k ++ '\n' :: F)) =
      plain false indent done (Pending.none.lineBreak '\n')
        (((p.after (spaces k)).next '\n').glyphs F) := by
  induction k generalizing p blanks with
  | zero => exact plain_lineFeed
  | succ k ih => exact (plain_blank (by decide) (by decide) _).trans (ih _)

/-- Of idle lines a scalar takes those before the first comment, and the rest is a gap. -/
lemma plain_idleChars (hheld : held.lineEnded = true) (lines : List IdleLine) (hp : p.column = 0)
    (hF : Kept F) (h : Opens F) (hn : (n : Int) < indent) :
    ∃ (q : Place) (G : List Char), Kept G ∧
      plain false indent done held (p.glyphs (idleChars lines ++ (spaces n ++ F))) =
        .ok ⟨String.ofList done.reverse, q.glyphs G, true⟩ ∧
      Scan.gap false true false (q.glyphs G) =
        (true, ((p.after (idleChars lines)).after (spaces n)).glyphs F) := by
  induction lines generalizing p held with
  | nil =>
    have hcolumn : (p.after (spaces n)).column = n := by rw [Place.after_spaces, hp, Nat.zero_add]
    refine ⟨p.after (spaces n), F, hF, ?_, Scan.gap_opens hF h⟩
    exact (plain_spaces hheld n F).trans
      (plain_ends hheld hF h.beginsWith_isGap (.inl (by rwa [hcolumn])))
  | cons line lines ih =>
    cases line with
    | empty blanks =>
      obtain ⟨q, G, hG, hread, hgap⟩ := ih (p := (p.after (spaces blanks)).next '\n')
        (held.lineEnded_lineBreak '\n') (by rw [Place.next_lineFeed])
      refine ⟨q, G, hG, ?_, ?_⟩
      · rw [← hread, ← plain_lineFeed, ← plain_spaces hheld]
        simp [idleChars_cons, IdleLine.chars]
      · simpa [idleChars_cons, IdleLine.chars] using hgap
    | comment blanks text onLine =>
      -- the scalar ends before the comment, and the gap begins there
      set rest := idleChars (.comment 0 text onLine :: lines) ++ (spaces n ++ F) with hrest
      have hkept : Kept rest :=
        kept_append.mpr ⟨kept_idleChars _, kept_append.mpr ⟨kept_spaces _, hF⟩⟩
      have hchars : idleChars (.comment blanks text onLine :: lines) ++ (spaces n ++ F) =
          spaces blanks ++ rest := by
        simp [hrest, idleChars_cons, IdleLine.chars, spaces]
      refine ⟨p.after (spaces blanks), rest, hkept, ?_, ?_⟩
      · rw [hchars, plain_spaces hheld]
        exact plain_ends hheld hkept rfl (.inr rfl)
      · rw [hrest, Scan.gap_idleChars, Scan.gap_spaces, Scan.gap_opens hF h]
        simp [idleChars_cons, IdleLine.chars, spaces]

/-- A plain scalar ends with its line, if the next line with a token is not indented enough to go on
with it. -/
lemma plain_margin (done : List Char) (m : Margin) (hF : Kept F) (h : Opens F)
    (hn : (n : Int) < indent) :
    ∃ (q : Place) (G : List Char), Kept G ∧
      plain false indent done .none (p.glyphs (m.chars ++ (spaces n ++ F))) =
        .ok ⟨String.ofList done.reverse, q.glyphs G, true⟩ ∧
      Scan.gap false true false (q.glyphs G) =
        (true, ((p.after m.chars).after (spaces n)).glyphs F) := by
  obtain ⟨q, G, hG, hread, hgap⟩ := plain_idleChars
    (Pending.none.lineEnded_lineBreak '\n') m.idle
    (p := (p.after (spaces m.trailing)).next '\n') (by rw [Place.next_lineFeed]) hF h hn
  refine ⟨q, G, hG, ?_, ?_⟩
  · rw [← hread, ← plain_trailing [], Pending.ofBlanks_nil, Margin.chars, List.append_assoc,
      List.cons_append]
  · simpa [Margin.chars] using hgap

end Plain

end ConfigRegistry.Yaml
