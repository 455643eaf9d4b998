/-
# Plain scalars are read as they are written

A text without breaks, without blanks at its ends and without an indicator at a place where it would
count is read as it stands.  The reader holds back the blanks inside the text until a visible
character follows them; so the statement is about any part of a text, with the character before it
and with the blanks that are held back.

A plain scalar may end in two ways: at the colon that makes it a key, or with its line, if a comment
follows, or a line that is not indented enough to go on with the scalar.
-/
import ConfigRegistry.Proofs.Yaml.Glyph
import ConfigRegistry.Yaml.Scalar.Plain

namespace ConfigRegistry.Yaml

/-- Only blanks have been read. -/
def Pending.ofBlanks (blanks : List Char) : Pending := { blanks }

@[simp] lemma Pending.isNone_ofBlanks (blanks : List Char) :
    (ofBlanks blanks).isNone = blanks.isEmpty := by
  simp [ofBlanks, isNone]

@[simp] lemma Pending.fold_ofBlanks (blanks : List Char) : (ofBlanks blanks).fold = blanks := rfl

@[simp] lemma Pending.blank_ofBlanks (blanks : List Char) (c : Char) :
    (ofBlanks blanks).blank c = ofBlanks (blanks ++ [c]) := rfl

lemma Pending.ofBlanks_nil : ofBlanks [] = none := rfl

lemma Pending.lineEnded_lineBreak (held : Pending) (c : Char) :
    (held.lineBreak c).lineEnded = true := by
  rw [lineBreak]
  split <;> simp_all

/-- Of the printable characters only the space is a blank. -/
lemma isSpace_of_isBlank {c : Char} (hprint : isPrintable c = true) (h : isBlank c = true) :
    isSpace c = true := by
  simp only [isBlank, Bool.or_eq_true, beq_iff_eq] at h
  rcases h with rfl | rfl
  · rfl
  · exact absurd hprint (by decide)

lemma isGap_of_isBlank {c : Char} (h : isBlank c = true) : isGap c = true := by
  rw [isGap, h, Bool.true_or]

/-- A character that stands for itself in a plain scalar: it is printable and ends no line, and in a
flow collection it is nothing that the scalar could end with. -/
def isPlainChar (flow : Bool) (c : Char) : Bool :=
  isPrintable c && !isBreak c && !(flow && (c == ':' || isFlowIndicator c))

lemma isPlainChar_iff {flow : Bool} {c : Char} :
    isPlainChar flow c = true ↔ isPrintable c = true ∧ isBreak c = false ∧
      (flow = true → c ≠ ':' ∧ isFlowIndicator c = false) := by
  cases flow <;> simp [isPlainChar, and_assoc]

section Reading

variable {flow : Bool} {indent : Int} {done blanks : List Char} {p : Place} {c : Char}

/-- A blank is held back. -/
lemma plain_blank (hc : isKept c = true) (hblank : isBlank c = true) (s : List Char) :
    plain flow indent done (.ofBlanks blanks) (p.glyphs (c :: s)) =
      plain flow indent done (.ofBlanks (blanks ++ [c])) ((p.next c).glyphs s) := by
  have hend : isEnd c = false := by simpa [isEnd] using ne_endMark_of_isKept hc
  rw [p.glyphs_cons hc, plain]
  simp [Place.glyph, hend, hblank, Pending.ofBlanks, Pending.blank]

/-- A visible character that is no indicator at its place is read, and before it the blanks that
were held back. -/
lemma plain_visible (hc : isPlainChar flow c = true) (hblank : isBlank c = false) {s : List Char}
    (hs : Kept s) (hcolon : (c == ':' && gapFollows s) = false)
    (hplace : blanks ≠ [] → indent ≤ p.column ∧ 0 < p.column ∧ c ≠ '#') :
    plain flow indent done (.ofBlanks blanks) (p.glyphs (c :: s)) =
      plain flow indent (c :: (blanks.reverse ++ done)) (.ofBlanks []) ((p.next c).glyphs s) := by
  obtain ⟨hprint, hbreak, hflow⟩ := isPlainChar_iff.mp hc
  have hkept := isKept_of_isPrintable hprint
  have hend : isEnd c = false := by simpa [isEnd] using ne_endMark_of_isKept hkept
  have hgap : isGap (nextChar ((p.next c).glyphs s)) = gapFollows s :=
    Place.isGap_nextChar_glyphs _ hs
  have hstart : (!(Pending.ofBlanks blanks).isNone &&
      ((!flow && decide ((p.column : Int) < indent)) ||
        atDocumentMark (p.glyph c :: (p.next c).glyphs s) || c == '#')) = false := by
    cases blanks with
    | nil => rfl
    | cons b blanks =>
      obtain ⟨hindent, hcolumn, hcomment⟩ := hplace (by simp)
      simp [p.atDocumentMark_of_column_pos hcolumn, hcomment, Int.not_lt.mpr hindent]
  have hends : (c == ':' && gapFollows s || flow && isFlowIndicator c) = false := by
    rw [hcolon, Bool.false_or]
    cases flow with
    | false => rfl
    | true => exact (hflow rfl).2
  have hunexpected : (flow && c == ':' && (isFlowIndicator (nextChar ((p.next c).glyphs s)) ||
      nextChar ((p.next c).glyphs s) == '?')) = false := by
    cases flow with
    | false => rfl
    | true => simp [(hflow rfl).1]
  rw [p.glyphs_cons hkept, plain]
  simp only [Place.glyph, hend, hblank, hbreak, hunexpected, hgap, hends, Bool.false_eq_true,
    if_false, Pending.fold_ofBlanks, Pending.ofBlanks_nil]
  exact if_neg (ne_true_of_eq_false hstart)

/-- Any part of a text that can be written plain is read as it stands, if it does not end in a
blank. -/
lemma plain_chars {F : List Char} (hF : Kept F) (s : List Char) {previous : Char} (hne : s ≠ [])
    (hs : ∀ c ∈ s, isPlainChar flow c = true) (hinner : hasInnerIndicator previous s = false)
    (hlast : endsWith isSpace s = false)
    (hprevious : blanks ≠ [] → isGap previous = true ∧ indent ≤ p.column ∧ 0 < p.column)
    (hindent : indent ≤ p.column + 1) :
    plain flow indent done (.ofBlanks blanks) (p.glyphs (s ++ F)) =
      plain flow indent (s.reverse ++ (blanks.reverse ++ done)) .none ((p.after s).glyphs F) := by
  induction s generalizing previous done blanks p with
  | nil => exact absurd rfl hne
  | cons c s ih =>
    obtain ⟨hc, hs⟩ := List.forall_mem_cons.mp hs
    obtain ⟨hprint, hbreak, -⟩ := isPlainChar_iff.mp hc
    have hrest : Kept (s ++ F) :=
      kept_append.mpr ⟨.of_isPrintable fun c hc => (isPlainChar_iff.mp (hs c hc)).1, hF⟩
    simp only [hasInnerIndicator, Bool.or_eq_false_iff, Bool.and_eq_false_iff] at hinner
    obtain ⟨⟨hcolon, hcomment⟩, hinner⟩ := hinner
    have hcolumn : (p.next c).column = p.column + 1 := by rw [p.next_of_not_isBreak hbreak]
    have hlater : s ≠ [] → endsWith isSpace s = false := by
      intro hne
      rw [← hlast, endsWith, endsWith, List.getLast?_cons, List.getLast?_eq_some_getLast hne]
      rfl
    by_cases hblank : isBlank c = true
    · have hne : s ≠ [] := by
        rintro rfl
        have hvisible : isSpace c = false := hlast
        rw [isSpace_of_isBlank hprint hblank] at hvisible
        cases hvisible
      have hread := @ih done (blanks ++ [c]) (p.next c) _ hne hs hinner (hlater hne)
        (fun _ => ⟨isGap_of_isBlank hblank, by omega, by omega⟩) (by omega)
      rw [List.cons_append, plain_blank (isKept_of_isPrintable hprint) hblank, hread]
      simp
    · rw [Bool.not_eq_true] at hblank
      have hnocolon : (c == ':' && gapFollows (s ++ F)) = false := by
        rcases hcolon with hcolon | hcolon
        · rw [hcolon, Bool.false_and]
        · -- the gap would be inside the text
          cases s with
          | nil => cases hcolon
          | cons d s => rw [List.cons_append, show gapFollows (d :: (s ++ F)) = false from hcolon,
              Bool.and_false]
      have hplace : blanks ≠ [] → indent ≤ p.column ∧ 0 < p.column ∧ c ≠ '#' := by
        intro hne
        obtain ⟨hgap, hcol, hpos⟩ := hprevious hne
        refine ⟨hcol, hpos, ?_⟩
        rcases hcomment with hcomment | hcomment
        · exact beq_eq_false_iff_ne.mp hcomment
        · rw [hgap] at hcomment
          cases hcomment
      rw [List.cons_append, plain_visible hc hblank hrest hnocolon hplace, Place.after_cons]
      by_cases hne : s = []
      · subst hne
        rfl
      · rw [ih hne hs hinner (hlater hne) (fun h => absurd rfl h) (by omega)]
        simp

/-- The scalar ends at a colon before a gap. -/
lemma plain_colon {F : List Char} (hF : Kept F) (hgap : gapFollows F = true) :
    plain false indent done .none (p.glyphs (':' :: F)) =
      .ok ⟨String.ofList done.reverse, p.glyphs (':' :: F), false⟩ := by
  have hnext : isGap (nextChar ((p.next ':').glyphs F)) = true := by
    rw [Place.isGap_nextChar_glyphs _ hF, hgap]
  rw [p.glyphs_cons (c := ':') (by decide), plain]
  simp [Place.glyph, hnext, isEnd, endMark, isBlank, isBreak, nextLine, lineSeparator,
    paragraphSeparator, Pending.isNone, Pending.none, Plain.ofRead]

/-- In a flow collection the scalar ends at a comma or bracket. -/
lemma plain_flowIndicator (hc : isFlowIndicator c = true) {F : List Char} :
    plain true indent done .none (p.glyphs (c :: F)) =
      .ok ⟨String.ofList done.reverse, p.glyphs (c :: F), false⟩ := by
  simp only [isFlowIndicator, Bool.or_eq_true, beq_iff_eq] at hc
  rcases hc with (((rfl | rfl) | rfl) | rfl) | rfl <;>
    simp [p.glyphs_cons, isKept, isAllowed, nextLine, plain, Place.glyph, isEnd, endMark, isBlank,
      isBreak, lineSeparator, paragraphSeparator, Pending.isNone, Pending.none, isFlowIndicator,
      Plain.ofRead]

/-- The spaces at the beginning of a line count for nothing. -/
lemma plain_spaces {held : Pending} (h : held.lineEnded = true) (n : ℕ) (F : List Char) :
    plain flow indent done held (p.glyphs (spaces n ++ F)) =
      plain flow indent done held ((p.after (spaces n)).glyphs F) := by
  induction n generalizing p with
  | zero => rfl
  | succ n ih =>
    have hblank : held.blank ' ' = held := by rw [Pending.blank, if_pos h]
    rw [p.glyphs_spaces_succ, p.after_spaces_succ, plain, ← ih]
    simp [Place.glyph, isEnd, endMark, isBlank, hblank]

/-- A line feed ends the line of the scalar. -/
lemma plain_lineFeed {held : Pending} {F : List Char} :
    plain false indent done held (p.glyphs ('\n' :: F)) =
      plain false indent done (held.lineBreak '\n') ((p.next '\n').glyphs F) := by
  rw [p.glyphs_cons (c := '\n') (by decide), plain]
  simp [Place.glyph, isEnd, endMark, isBlank, isBreak]

/-- Once its line has ended, the scalar ends at a comment, and where a line is not indented
enough. -/
lemma plain_ends {held : Pending} {F : List Char} (hheld : held.lineEnded = true) (hF : Kept F)
    (hgap : beginsWith isGap F = false)
    (hend : (p.column : Int) < indent ∨ beginsWith (· == '#') F = true) :
    plain false indent done held (p.glyphs F) =
      .ok ⟨String.ofList done.reverse, p.glyphs F, true⟩ := by
  cases F with
  | nil =>
    rw [p.glyphs_nil, plain]
    simp [Place.glyph, isEnd, Plain.ofRead, hheld]
  | cons c F =>
    have hvisible : isGap c = false := hgap
    simp only [isGap, isBreakOrEnd, Bool.or_eq_false_iff] at hvisible
    have hpending : held.isNone = false := by simp [Pending.isNone, hheld]
    have hstop : (p.column : Int) < indent ∨ (c == '#') = true := hend
    rw [p.glyphs_cons (kept_cons.mp hF).1, plain]
    rcases hstop with hstop | hstop <;>
      simp [Place.glyph, hvisible, hpending, hstop, Plain.ofRead, hheld]

/-! ## Whole texts -/

/-- What a text fulfils that a plain scalar can carry. -/
lemma plainCarries_iff {s : List Char} : plainCarries s = true ↔
    (∀ c ∈ s, isPrintable c = true) ∧ hasAdjacent isSpace isBreak s = false ∧
      (∀ c ∈ s, isBreak c = false) ∧ beginsWith isSpace s = false ∧ endsWith isSpace s = false ∧
      hasIndicator s = false := by
  simp only [plainCarries, needsEscapes, Bool.not_eq_true', Bool.or_eq_false_iff,
    List.any_eq_false, Bool.not_eq_true, Bool.not_eq_false, and_assoc]

/-- A text in which no indicator counts has none after its first character either. -/
lemma hasInnerIndicator_of_hasIndicator {s : List Char} (h : hasIndicator s = false) :
    hasInnerIndicator 'a' s = false := by
  cases s with
  | nil => rfl
  | cons c s =>
    simp only [hasIndicator, Bool.or_eq_false_iff] at h
    obtain ⟨⟨⟨-, hindicator⟩, hgap⟩, hinner⟩ := h
    have hcolon : (c == ':' && gapFollows s) = false := by
      cases hc : c == ':' with
      | false => rfl
      | true =>
        rw [hc] at hgap
        simpa using hgap
    rw [hasInnerIndicator, hcolon, hinner]
    simp [isGap, isBlank, isBreakOrEnd, isBreak, isEnd, endMark, nextLine, lineSeparator,
      paragraphSeparator]

/-- A text that a plain scalar can carry is read to its end. -/
lemma plain_of_plainCarries {s F : List Char} (hne : s ≠ []) (hs : plainCarries s = true)
    (hF : Kept F) (hindent : indent ≤ p.column + 1) :
    plain false indent [] .none (p.glyphs (s ++ F)) =
      plain false indent s.reverse .none ((p.after s).glyphs F) := by
  obtain ⟨hprint, -, hbreak, -, hlast, hindicator⟩ := plainCarries_iff.mp hs
  have hchars : ∀ c ∈ s, isPlainChar false c = true := fun c hc =>
    isPlainChar_iff.mpr ⟨hprint c hc, hbreak c hc, fun h => by cases h⟩
  have hread : plain false indent [] (.ofBlanks []) (p.glyphs (s ++ F)) =
      plain false indent (s.reverse ++ ([] ++ [])) .none ((p.after s).glyphs F) :=
    plain_chars hF s hne hchars (hasInnerIndicator_of_hasIndicator hindicator) hlast
      (fun h => absurd rfl h) hindent
  simpa [Pending.ofBlanks_nil] using hread

end Reading

end ConfigRegistry.Yaml
