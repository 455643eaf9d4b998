/-
# Double-quoted scalars are read as they are written

Between double quotes a character is written as an escape or as itself (`InDouble`).  A text that is
written like this is read back if what is written can be carried (`Carried`): its breaks are read in
full, and no line in it begins with the mark of a document.  Escapes are on one line, so a text in
which every break has an escape is always carried.
-/
import Mathlib.Algebra.Group.Nat.Defs
import ConfigRegistry.Proofs.Yaml.Scalar.Quoted

namespace ConfigRegistry.Yaml

/-! ## Escapes -/

lemma hexDigitValue_hexDigit : ∀ n < 16, hexDigitValue (hexDigit n) = some n := by
  decide

lemma isKept_hexDigit : ∀ n < 16, isKept (hexDigit n) = true ∧ isBreak (hexDigit n) = false := by
  decide

lemma mem_hexDigits {width n : ℕ} {c : Char} (h : c ∈ hexDigits width n) :
    ∃ m < 16, c = hexDigit m := by
  induction width generalizing n with
  | zero => cases h
  | succ width ih =>
    rw [hexDigits, List.mem_append, List.mem_singleton] at h
    rcases h with h | rfl
    · exact ih h
    · exact ⟨_, Nat.mod_lt _ (by decide), rfl⟩

lemma length_hexDigits (width n : ℕ) : (hexDigits width n).length = width := by
  induction width generalizing n with
  | zero => rfl
  | succ width ih => simp [hexDigits, ih]

/-- The digits of a number make up the number, as far as there are enough of them. -/
lemma hexNumber_hexDigits (width n : ℕ) :
    hexNumber (hexDigits width n) = some (n % 16 ^ width) := by
  induction width generalizing n with
  | zero => simp [hexDigits, hexNumber, Nat.mod_one]
  | succ width ih =>
    have hsplit : n / 16 % 16 ^ width * 16 + n % 16 = n % 16 ^ (width + 1) := by
      rw [Nat.pow_succ', Nat.mod_mul]
      omega
    have hlast := hexDigitValue_hexDigit (n % 16) (Nat.mod_lt _ (by decide))
    replace ih := ih (n / 16)
    rw [hexNumber] at ih
    rw [hexDigits, hexNumber, List.foldlM_append, ih]
    simp [hlast, hsplit]

lemma charOfCodePoint_toNat (c : Char) : charOfCodePoint c.toNat = some c := by
  have hvalid : c.toNat.isValidChar := c.valid
  rw [charOfCodePoint, dif_pos hvalid]
  rfl

/-- What stands behind a backslash is an escape of a character: a letter, and digits if it asks for
them. -/
structure IsEscape (letter : Char) (digits : List Char) (c : Char) : Prop where
  kept : Kept (letter :: digits)
  no_break : ∀ d ∈ letter :: digits, isBreak d = false
  length_le : digits.length ≤ 4
  read : ∀ (p : Place) (F : List Char),
    readEscape letter (p.glyphs (digits ++ F)) = .ok (c, digits.length)

lemma isEscape_of_escapedChar {letter c : Char} (hkept : isKept letter = true)
    (hbreak : isBreak letter = false) (h : escapedChar letter = some c) : IsEscape letter [] c where
  kept := by simp [hkept]
  no_break := by simp [hbreak]
  length_le := Nat.zero_le 4
  read p F := by simp [readEscape, h]

lemma isEscape_of_hexNumber {letter c : Char} {digits : List Char}
    (hletter : letter = 'x' ∨ letter = 'u')
    (hlength : escapeLength letter = some digits.length)
    (hdigits : ∀ d ∈ digits, isKept d = true ∧ isBreak d = false)
    (h : hexNumber digits = some c.toNat) : IsEscape letter digits c where
  kept := by
    refine kept_cons.mpr ⟨?_, fun d hd => (hdigits d hd).1⟩
    rcases hletter with rfl | rfl <;> decide
  no_break := by
    refine List.forall_mem_cons.mpr ⟨?_, fun d hd => (hdigits d hd).2⟩
    rcases hletter with rfl | rfl <;> decide
  length_le := by
    rcases hletter with rfl | rfl
    · have htwo : 2 = digits.length := Option.some.inj hlength
      omega
    · have hfour : 4 = digits.length := Option.some.inj hlength
      omega
  read p F := by
    obtain ⟨l, hl, hll, hchars⟩ :=
      p.glyphs_append (show Kept digits from fun d hd => (hdigits d hd).1) F
    have hnone : escapedChar letter = none := by rcases hletter with rfl | rfl <;> rfl
    have htake : ((p.glyphs (digits ++ F)).take digits.length).map Glyph.char = digits := by
      rw [hl, ← hll, List.take_left, hchars]
    rw [readEscape, hnone, hlength]
    simp [htake, h, charOfCodePoint_toNat]

lemma toNat_le_of_isBreak {c : Char} (h : isBreak c = true) : c.toNat ≤ 0xffff := by
  simp only [isBreak, Bool.or_eq_true, beq_iff_eq] at h
  rcases h with (((rfl | rfl) | rfl) | rfl) | rfl <;> decide

/-- Every character that may not be written as itself has an escape. -/
lemma exists_escapeOf {c : Char} (hc : isPrintable c = false ∨ c.toNat ≤ 0xffff) :
    ∃ letter digits, escapeOf c = '\\' :: letter :: digits ∧ IsEscape letter digits c := by
  have hplane : c.toNat ≤ 0xffff := by
    rcases hc with hc | hc
    · simp only [isPrintable, Bool.or_eq_false_iff, decide_eq_false_iff_not] at hc
      omega
    · exact hc
  have hhex : ∀ width, ∀ d ∈ hexDigits width c.toNat, isKept d = true ∧ isBreak d = false := by
    intro width d hd
    obtain ⟨m, hm, rfl⟩ := mem_hexDigits hd
    exact isKept_hexDigit m hm
  rw [escapeOf.eq_def]
  split
  case h_15 =>
    dsimp only
    split
    · next hsmall =>
      refine ⟨'x', _, rfl, isEscape_of_hexNumber (.inl rfl) ?_ (hhex 2) ?_⟩
      · rw [length_hexDigits]
        rfl
      · rw [hexNumber_hexDigits, Nat.mod_eq_of_lt (by omega)]
    · refine ⟨'u', _, rfl, isEscape_of_hexNumber (.inr rfl) ?_ (hhex 4) ?_⟩
      · rw [length_hexDigits]
        rfl
      · rw [hexNumber_hexDigits, Nat.mod_eq_of_lt (by omega)]
  all_goals exact ⟨_, [], rfl, isEscape_of_escapedChar (by decide) (by decide) rfl⟩

/-- A character is written as an escape, or as itself. -/
lemma writeInDouble_cases (c : Char) :
    (∃ letter digits, writeInDouble c = '\\' :: letter :: digits ∧ IsEscape letter digits c) ∨
      (writeInDouble c = [c] ∧ isPrintable c = true ∧ isBreak c = false ∧ c ≠ '"' ∧ c ≠ '\\') := by
  rw [writeInDouble]
  split
  · next hescape =>
    refine Or.inl (exists_escapeOf ?_)
    simp only [Bool.or_eq_true, Bool.not_eq_true', beq_iff_eq] at hescape
    rcases hescape with ((h | h) | rfl) | rfl
    · exact .inl h
    · exact .inr (toNat_le_of_isBreak h)
    · exact .inr (by decide)
    · exact .inr (by decide)
  · next hself =>
    simp only [Bool.not_eq_true, Bool.or_eq_false_iff, Bool.not_eq_false', beq_eq_false_iff_ne]
      at hself
    obtain ⟨⟨⟨hprint, hbreak⟩, hquote⟩, hbackslash⟩ := hself
    exact Or.inr ⟨rfl, hprint, hbreak, hquote, hbackslash⟩

/-- A character is written as an escape, or as itself if nothing else is meant by it. -/
inductive InDouble (c : Char) : List Char → Prop
  | escape {letter : Char} {digits : List Char} (h : IsEscape letter digits c) :
    InDouble c ('\\' :: letter :: digits)
  | itself (hquote : c ≠ '"') (hbackslash : c ≠ '\\') (htab : c ≠ '\t') : InDouble c [c]

lemma inDouble_writeInDouble (c : Char) : InDouble c (writeInDouble c) := by
  rcases writeInDouble_cases c with ⟨letter, digits, hc, h⟩ | ⟨hc, hprint, -, hquote, hbackslash⟩
  · rw [hc]
    exact .escape h
  · rw [hc]
    refine .itself hquote hbackslash ?_
    rintro rfl
    exact absurd hprint (by decide)

/-! ## What can be carried -/

/-- Whether a text begins with the mark of a document, and a gap behind it. -/
def beginsMark (s : List Char) : Bool :=
  (s.take 3 == ['-', '-', '-'] || s.take 3 == ['.', '.', '.']) && beginsWith isGap (s.drop 3)

/-- Whether a line that begins inside of a text begins with the mark of a document. -/
def hasInnerMark : List Char → Bool
  | [] => false
  | c :: rest => (isBreak c && beginsMark rest) || hasInnerMark rest

lemma hasInnerMark_append {u v : List Char} (h : hasInnerMark (u ++ v) = false) :
    hasInnerMark v = false := by
  induction u with
  | nil => exact h
  | cons c u ih =>
    rw [List.cons_append, hasInnerMark, Bool.or_eq_false_iff] at h
    exact ih h.2

/-- Where no mark begins in a text, none begins before the quote behind it. -/
lemma atDocumentMark_of_beginsMark {p : Place} {w F : List Char} (hw : Kept w) (hF : Kept F)
    (h : p.column = 0 → beginsMark w = false) :
    atDocumentMark (p.glyphs (w ++ '"' :: F)) = false := by
  have hkept : Kept (w ++ '"' :: F) := kept_append.mpr ⟨hw, kept_cons.mpr ⟨by decide, hF⟩⟩
  have hmark (mark : Char) (hne : mark ≠ '"') (hthree : ∀ t, w = mark :: mark :: mark :: t →
      p.column = 0 → beginsWith isGap t = false) :
      atMark mark (p.glyphs (w ++ '"' :: F)) = false := by
    rw [← Bool.not_eq_true]
    intro hat
    simp only [atMark, Bool.and_eq_true, beq_iff_eq, p.charAt_glyphs hkept, p.nextChar_glyphs hkept,
      p.column_glyphs hkept] at hat
    obtain ⟨⟨⟨⟨hcolumn, hzero⟩, hone⟩, htwo⟩, hgap⟩ := hat
    rcases w with _ | ⟨a, _ | ⟨b, _ | ⟨c, _ | ⟨d, t⟩⟩⟩⟩
    · exact hne hzero.symm
    · exact hne hone.symm
    · exact hne htwo.symm
    · cases hgap
    · obtain rfl : a = mark := hzero
      obtain rfl : b = a := hone
      obtain rfl : c = b := htwo
      have hvisible : isGap d = false := hthree (d :: t) rfl hcolumn
      exact absurd hgap (ne_true_of_eq_false hvisible)
  rw [atDocumentMark, Bool.or_eq_false_iff]
  constructor
  · refine hmark '-' (by decide) ?_
    rintro t rfl hcolumn
    simpa [beginsMark] using h hcolumn
  · refine hmark '.' (by decide) ?_
    rintro t rfl hcolumn
    simpa [beginsMark] using h hcolumn

/-- What stands between double quotes is read in full, and to its end. -/
structure Carried (w : List Char) : Prop where
  kept : Kept w
  unfolded : Unfolded w
  unmarked : hasInnerMark w = false

lemma Unfolded.of_append {u v : List Char} (h : Unfolded (u ++ v)) : Unfolded v := by
  induction u with
  | nil => exact h
  | cons c u ih => exact ih (unfolded_cons.mp h).2.2.2

lemma Carried.of_append {u v : List Char} (h : Carried (u ++ v)) : Carried v where
  kept := (kept_append.mp h.kept).2
  unfolded := h.unfolded.of_append
  unmarked := hasInnerMark_append h.unmarked

lemma hasAdjacent_of_forall {r q : Char → Bool} {s : List Char} (h : ∀ c ∈ s, q c = false) :
    hasAdjacent r q s = false ∧ hasAdjacent q r s = false := by
  induction s with
  | nil => exact ⟨rfl, rfl⟩
  | cons c s ih =>
    obtain ⟨hc, hs⟩ := List.forall_mem_cons.mp h
    have hbegins : beginsWith q s = false := by
      cases s with
      | nil => rfl
      | cons d s => exact hs d (by simp)
    rw [hasAdjacent_cons, hasAdjacent_cons, hc, hbegins, (ih hs).1, (ih hs).2]
    simp

lemma hasInnerMark_of_forall {s : List Char} (h : ∀ c ∈ s, isBreak c = false) :
    hasInnerMark s = false := by
  induction s with
  | nil => rfl
  | cons c s ih =>
    obtain ⟨hc, hs⟩ := List.forall_mem_cons.mp h
    rw [hasInnerMark, hc, ih hs]
    rfl

/-- Whatever is on one line can be carried. -/
lemma Carried.of_not_isBreak {w : List Char} (hkept : Kept w) (h : ∀ c ∈ w, isBreak c = false) :
    Carried w := by
  obtain ⟨hbefore, hafter⟩ := hasAdjacent_of_forall (r := isSpace) h
  have hfeed : '\n' ∉ w := fun hc => absurd (h _ hc) (by decide)
  exact ⟨hkept, ⟨hfeed, hbefore, hafter⟩, hasInnerMark_of_forall h⟩

/-! ## Double quotes -/

section Double

variable {done : List Char} {held : Pending} {p : Place} {c : Char} {F : List Char}

lemma doubleQuoted_space : doubleQuoted done held 0 (p.glyphs (' ' :: F)) =
    doubleQuoted done (held.blank ' ') 0 ((p.next ' ').glyphs F) := by
  rw [p.glyphs_cons (c := ' ') (by decide), doubleQuoted]
  simp [Place.glyph, isEnd, endMark, isBlank]

lemma doubleQuoted_lineBreak (hkept : isKept c = true) (hbreak : isBreak c = true) :
    doubleQuoted done held 0 (p.glyphs (c :: F)) =
      doubleQuoted done (held.lineBreak c) 0 ((p.next c).glyphs F) := by
  have hend : isEnd c = false := by simpa [isEnd] using ne_endMark_of_isKept hkept
  rw [p.glyphs_cons hkept, doubleQuoted]
  simp [Place.glyph, hend, not_isBlank_of_isBreak hbreak, hbreak]

lemma doubleQuoted_visible (hkept : isKept c = true) (hgap : isGap c = false) (hquote : c ≠ '"')
    (hbackslash : c ≠ '\\') (hmark : atDocumentMark (p.glyphs (c :: F)) = false) :
    doubleQuoted done held 0 (p.glyphs (c :: F)) =
      doubleQuoted (c :: (held.fold.reverse ++ done)) .none 0 ((p.next c).glyphs F) := by
  obtain ⟨hblank, hbreak, hend⟩ := isGap_eq_false_iff.mp hgap
  rw [p.glyphs_cons hkept] at hmark ⊢
  rw [doubleQuoted]
  simp only [Place.glyph] at hmark ⊢
  simp [hend, hblank, hbreak, hmark, hquote, hbackslash]

/-- A quote closes the scalar. -/
lemma doubleQuoted_close (hmark : atDocumentMark (p.glyphs ('"' :: F)) = false) :
    doubleQuoted done held 0 (p.glyphs ('"' :: F)) =
      .ok (String.ofList (held.fold.reverse ++ done).reverse, (p.next '"').glyphs F) := by
  rw [p.glyphs_cons (c := '"') (by decide)] at hmark ⊢
  rw [doubleQuoted]
  simp only [Place.glyph] at hmark ⊢
  simp [hmark, isEnd, endMark, isBlank, isBreak, nextLine, lineSeparator, paragraphSeparator]

/-- The characters of an escape that has been read are passed over. -/
lemma doubleQuoted_skip {w : List Char} (hw : Kept w) :
    doubleQuoted done held w.length (p.glyphs (w ++ F)) =
      doubleQuoted done held 0 ((p.after w).glyphs F) := by
  induction w generalizing p with
  | nil => rfl
  | cons c w ih =>
    obtain ⟨hc, hw⟩ := kept_cons.mp hw
    rw [List.cons_append, p.glyphs_cons hc, doubleQuoted, if_pos (by simp), List.length_cons,
      Nat.add_sub_cancel, ih hw, Place.after_cons]

lemma doubleQuoted_escape {letter : Char} {digits : List Char} (h : IsEscape letter digits c)
    (hmark : atDocumentMark (p.glyphs ('\\' :: (letter :: digits ++ F))) = false) :
    doubleQuoted done held 0 (p.glyphs ('\\' :: (letter :: digits ++ F))) =
      doubleQuoted (c :: (held.fold.reverse ++ done)) .none 0
        ((p.after ('\\' :: letter :: digits)).glyphs F) := by
  have hletter : isKept letter = true := (kept_cons.mp h.kept).1
  have hnext : nextChar ((p.next '\\').glyphs (letter :: digits ++ F)) = letter := by
    rw [List.cons_append, Place.glyphs_cons _ hletter]
    rfl
  have hread : readEscape letter (((p.next '\\').glyphs (letter :: digits ++ F)).drop 1) =
      .ok (c, digits.length) := by
    rw [List.cons_append, Place.glyphs_cons _ hletter, List.drop_one, List.tail_cons]
    exact h.read _ F
  have hbreak : isBreak letter = false := h.no_break letter (by simp)
  rw [p.glyphs_cons (c := '\\') (by decide)] at hmark ⊢
  rw [doubleQuoted, Place.after_cons, ← doubleQuoted_skip h.kept]
  generalize (p.next '\\').glyphs (letter :: digits ++ F) = rest at hmark hnext hread ⊢
  simp only [Place.glyph] at hmark ⊢
  rw [hnext, hread, hbreak]
  simp [hmark, isEnd, endMark, isBlank, isBreak, nextLine, lineSeparator, paragraphSeparator]

/-- What is written between the quotes is read back.  A part of it may begin a line, and then a mark
must not stand there. -/
lemma doubleQuoted_flatMap {write : Char → List Char} (hwrite : ∀ c, InDouble c (write c))
    (hF : Kept F) (s : List Char) (hs : Carried (s.flatMap write))
    (hheld : held.Precedes (s.flatMap write))
    (hmark : p.column = 0 → beginsMark (s.flatMap write) = false) :
    doubleQuoted done held 0 (p.glyphs (s.flatMap write ++ '"' :: F)) =
      .ok (String.ofList ((held.fold.reverse ++ done).reverse ++ s),
        ((p.after (s.flatMap write)).next '"').glyphs F) := by
  induction s generalizing done held p with
  | nil =>
    have hquote := atDocumentMark_of_beginsMark hs.kept hF hmark
    rw [List.flatMap_nil, List.nil_append] at hquote ⊢
    rw [doubleQuoted_close hquote]
    simp
  | cons c s ih =>
    have hquote := atDocumentMark_of_beginsMark hs.kept hF hmark
    rw [List.flatMap_cons] at hs hheld hquote ⊢
    have hrest := hs.of_append
    generalize hw : write c = w at *
    cases hw ▸ hwrite c with
    | @escape letter digits h =>
      have hplace : (p.after ('\\' :: letter :: digits)).column ≠ 0 := by
        rw [p.after_of_not_isBreak (List.forall_mem_cons.mpr ⟨by decide, h.no_break⟩)]
        simp
      rw [List.append_assoc] at hquote ⊢
      rw [List.cons_append, Place.after_append, doubleQuoted_escape h hquote,
        ih hrest (Pending.none_precedes _) fun h => absurd h hplace]
      simp
    | itself hnoquote hbackslash htab =>
      rw [List.singleton_append] at hs hheld hquote ⊢
      have hkept := (kept_cons.mp hs.kept).1
      rw [List.cons_append] at hquote ⊢
      by_cases hbreak : isBreak c = true
      · obtain ⟨hheld', -, hfold⟩ := hheld.lineBreak hs.unfolded hbreak
        have hbegin : beginsMark (s.flatMap write) = false := by
          have hinner := hs.unmarked
          rw [hasInnerMark, Bool.or_eq_false_iff] at hinner
          simpa [hbreak] using hinner.1
        rw [doubleQuoted_lineBreak hkept hbreak, ih hrest hheld' fun _ => hbegin, hfold]
        simp
      · rw [Bool.not_eq_true] at hbreak
        have hplace : (p.next c).column ≠ 0 := by
          rw [p.next_of_not_isBreak hbreak]
          exact Nat.succ_ne_zero _
        by_cases hspace : c = ' '
        · subst hspace
          obtain ⟨hheld', -, hfold⟩ := hheld.blank hs.unfolded
          rw [doubleQuoted_space, ih hrest hheld' fun h => absurd h hplace, hfold]
          simp
        · have hend : isEnd c = false := beq_eq_false_iff_ne.mpr (ne_endMark_of_isKept hkept)
          have hgap : isGap c = false :=
            isGap_eq_false_iff.mpr ⟨by simp [isBlank, hspace, htab], hbreak, hend⟩
          rw [doubleQuoted_visible hkept hgap hnoquote hbackslash hquote,
            ih hrest (Pending.none_precedes _) fun h => absurd h hplace]
          simp

/-- A text between double quotes is read back, up to the closing quote. -/
theorem doubleQuoted_written {write : Char → List Char} (hwrite : ∀ c, InDouble c (write c))
    {s : List Char} (hs : Carried (s.flatMap write)) (hF : Kept F) :
    doubleQuoted [] .none 0 ((p.next '"').glyphs (s.flatMap write ++ '"' :: F)) =
      .ok (String.ofList s, (p.after ('"' :: s.flatMap write ++ ['"'])).glyphs F) := by
  have hcolumn : (p.next '"').column ≠ 0 := Nat.succ_ne_zero _
  rw [doubleQuoted_flatMap hwrite hF s hs (Pending.none_precedes _) fun h => absurd h hcolumn]
  simp

end Double

end ConfigRegistry.Yaml
