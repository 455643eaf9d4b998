/-
# Single-quoted scalars are read as they are written

Between quotes a text may have blanks at its ends and, between single quotes, breaks; the reader
holds both back.  Of the breaks only the separators of lines and paragraphs are ever written as they
are, and those are not folded: whatever is held back is read in full, as long as no blank stands
next to a break.  So the statements about a part of a text say what becomes of the characters read,
those held back, and the part together.
-/
import ConfigRegistry.Proofs.Yaml.Scalar.Plain
import ConfigRegistry.Yaml.Scalar.Quoted

namespace ConfigRegistry.Yaml

lemma isGap_eq_false_iff {c : Char} :
    isGap c = false ↔ isBlank c = false ∧ isBreak c = false ∧ isEnd c = false := by
  simp [isGap, isBreakOrEnd]

/-- A printable character that is neither a space nor a break is visible. -/
lemma isGap_of_isPrintable {c : Char} (hprint : isPrintable c = true) (hspace : c ≠ ' ')
    (hbreak : isBreak c = false) : isGap c = false := by
  refine isGap_eq_false_iff.mpr ⟨?_, hbreak, ?_⟩
  · cases hblank : isBlank c with
    | false => rfl
    | true => exact absurd (beq_iff_eq.mp (isSpace_of_isBlank hprint hblank)) hspace
  · exact beq_eq_false_iff_ne.mpr (ne_endMark_of_isKept (isKept_of_isPrintable hprint))

lemma not_isBlank_of_isBreak {c : Char} (h : isBreak c = true) : isBlank c = false := by
  rw [isBlank, Bool.or_eq_false_iff, beq_eq_false_iff_ne, beq_eq_false_iff_ne]
  constructor
  · rintro rfl
    exact absurd h (by decide)
  · rintro rfl
    exact absurd h (by decide)

/-! ## What is held back -/

lemma hasAdjacent_cons (p q : Char → Bool) (c : Char) (s : List Char) :
    hasAdjacent p q (c :: s) = (p c && beginsWith q s || hasAdjacent p q s) := by
  cases s <;> simp [hasAdjacent, beginsWith]

/-- A text without line feeds in which no space stands next to a break. -/
structure Unfolded (s : List Char) : Prop where
  no_lineFeed : '\n' ∉ s
  no_space_before : hasAdjacent isSpace isBreak s = false
  no_space_after : hasAdjacent isBreak isSpace s = false

lemma unfolded_cons {c : Char} {s : List Char} : Unfolded (c :: s) ↔
    c ≠ '\n' ∧ (isSpace c = true → beginsWith isBreak s = false) ∧
      (isBreak c = true → beginsWith isSpace s = false) ∧ Unfolded s := by
  constructor
  · rintro ⟨hfeed, hbefore, hafter⟩
    rw [hasAdjacent_cons, Bool.or_eq_false_iff] at hbefore hafter
    rw [List.mem_cons, not_or] at hfeed
    refine ⟨Ne.symm hfeed.1, fun h => ?_, fun h => ?_, hfeed.2, hbefore.2, hafter.2⟩
    · simpa [h] using hbefore.1
    · simpa [h] using hafter.1
  · rintro ⟨hc, hspace, hbreak, hfeed, hbefore, hafter⟩
    refine ⟨?_, ?_, ?_⟩
    · rw [List.mem_cons, not_or]
      exact ⟨hc.symm, hfeed⟩
    · rw [hasAdjacent_cons, hbefore, Bool.or_false, Bool.and_eq_false_imp]
      exact hspace
    · rw [hasAdjacent_cons, hafter, Bool.or_false, Bool.and_eq_false_imp]
      exact hbreak

namespace Pending

variable {held : Pending} {c : Char} {s : List Char}

@[simp] lemma fold_none : none.fold = [] := rfl

@[simp] lemma lineEnded_none : none.lineEnded = false := rfl

/-- What is held back is read in full if the text goes on like this: there is no line feed among it,
and no space comes next to a break. -/
structure Precedes (held : Pending) (s : List Char) : Prop where
  not_folded : held.lineEnded = true → held.first ≠ ['\n']
  no_space : held.lineEnded = true → beginsWith isSpace s = false
  no_break : held.lineEnded = false → held.blanks = [] ∨ beginsWith isBreak s = false

lemma none_precedes (s : List Char) : none.Precedes s :=
  ⟨fun h => (by cases h), fun h => (by cases h), fun _ => Or.inl rfl⟩

lemma blank_of_lineEnded (h : held.lineEnded = true) : held.blank c = held := by
  rw [blank, if_pos h]

lemma lineEnded_blank (h : held.lineEnded = false) : (held.blank c).lineEnded = false := by
  simp [blank, h]

lemma fold_blank (h : held.lineEnded = false) : (held.blank c).fold = held.fold ++ [c] := by
  simp [blank, fold, h]

/-- A space is held back behind the others. -/
lemma Precedes.blank (h : held.Precedes (' ' :: s)) (hs : Unfolded (' ' :: s)) :
    (held.blank ' ').Precedes s ∧ (held.blank ' ').lineEnded = false ∧
      (held.blank ' ').fold = held.fold ++ [' '] := by
  have hended : held.lineEnded = false := by
    cases hended : held.lineEnded with
    | false => rfl
    | true => exact absurd (h.no_space hended) (by simp [beginsWith, isSpace])
  have hline : (held.blank ' ').lineEnded = false := lineEnded_blank hended
  refine ⟨⟨fun h => ?_, fun h => ?_, fun _ => ?_⟩, hline, fold_blank hended⟩
  · exact absurd h (ne_true_of_eq_false hline)
  · exact absurd h (ne_true_of_eq_false hline)
  · exact Or.inr ((unfolded_cons.mp hs).2.1 rfl)

/-- A break is held back behind the others. -/
lemma Precedes.lineBreak (h : held.Precedes (c :: s)) (hs : Unfolded (c :: s))
    (hc : isBreak c = true) :
    (held.lineBreak c).Precedes s ∧ (held.lineBreak c).lineEnded = true ∧
      (held.lineBreak c).fold = held.fold ++ [c] := by
  obtain ⟨hne, -, hspace, -⟩ := unfolded_cons.mp hs
  cases hended : held.lineEnded with
  | true =>
    have hfirst := h.not_folded hended
    have hbreak : held.lineBreak c = { held with more := held.more ++ [c] } := by
      simp [Pending.lineBreak, hended]
    rw [hbreak]
    refine ⟨⟨fun _ => hfirst, fun _ => hspace hc, fun h => ?_⟩, hended, ?_⟩
    · exact absurd hended (ne_true_of_eq_false h)
    · simp [fold, hended, hfirst]
  | false =>
    have hblanks := (h.no_break hended).resolve_right (by simp [beginsWith, hc])
    have hbreak : held.lineBreak c = ⟨[], true, [c], []⟩ := by simp [Pending.lineBreak, hended]
    rw [hbreak]
    refine ⟨⟨fun _ => by simpa using hne, fun _ => hspace hc, fun h => by cases h⟩, rfl, ?_⟩
    simp [fold, hended, hblanks, hne]

end Pending

/-! ## Single quotes -/

section Single

variable {done : List Char} {held : Pending} {p : Place} {c : Char} {F : List Char}

lemma singleQuoted_space : singleQuoted done held (p.glyphs (' ' :: F)) =
    singleQuoted done (held.blank ' ') ((p.next ' ').glyphs F) := by
  rw [p.glyphs_cons (c := ' ') (by decide), singleQuoted]
  simp [Place.glyph, isEnd, endMark, isBlank]

lemma singleQuoted_lineBreak (hkept : isKept c = true) (hbreak : isBreak c = true) :
    singleQuoted done held (p.glyphs (c :: F)) =
      singleQuoted done (held.lineBreak c) ((p.next c).glyphs F) := by
  have hend : isEnd c = false := by simpa [isEnd] using ne_endMark_of_isKept hkept
  rw [p.glyphs_cons hkept, singleQuoted]
  simp [Place.glyph, hend, not_isBlank_of_isBreak hbreak, hbreak]

lemma singleQuoted_visible (hkept : isKept c = true) (hgap : isGap c = false) (hquote : c ≠ '\'')
    (hp : 0 < p.column) :
    singleQuoted done held (p.glyphs (c :: F)) =
      singleQuoted (c :: (held.fold.reverse ++ done)) .none ((p.next c).glyphs F) := by
  obtain ⟨hblank, hbreak, hend⟩ := isGap_eq_false_iff.mp hgap
  have hmark := p.atDocumentMark_of_column_pos hp c ((p.next c).glyphs F)
  rw [p.glyphs_cons hkept, singleQuoted]
  simp only [Place.glyph] at hmark ⊢
  simp [hend, hblank, hbreak, hmark, hquote]

/-- A quote is written twice. -/
lemma singleQuoted_quote (hp : 0 < p.column) :
    singleQuoted done held (p.glyphs ('\'' :: '\'' :: F)) =
      singleQuoted ('\'' :: (held.fold.reverse ++ done)) .none
        ((p.after ['\'', '\'']).glyphs F) := by
  have hmark := p.atDocumentMark_of_column_pos hp '\'' ((p.next '\'').glyphs ('\'' :: F))
  rw [p.glyphs_cons (c := '\'') (by decide), singleQuoted]
  rw [Place.glyphs_cons _ (c := '\'') (by decide)] at hmark ⊢
  simp only [Place.glyph] at hmark ⊢
  simp [hmark, isEnd, endMark, isBlank, isBreak, nextLine, lineSeparator, paragraphSeparator]

/-- A quote that stands alone closes the scalar. -/
lemma singleQuoted_close (hp : 0 < p.column) (hF : Kept F)
    (hquote : beginsWith (· == '\'') F = false) :
    singleQuoted done held (p.glyphs ('\'' :: F)) =
      .ok (String.ofList (held.fold.reverse ++ done).reverse, (p.next '\'').glyphs F) := by
  have hmark := p.atDocumentMark_of_column_pos hp '\'' ((p.next '\'').glyphs F)
  obtain ⟨c, l, hl, hhead⟩ := (p.next '\'').exists_glyphs_cons hF
  have hother : c ≠ '\'' := by
    rcases hhead with hhead | ⟨rfl, -⟩
    · rw [← hhead] at hquote
      simpa [beginsWith] using hquote
    · decide
  rw [p.glyphs_cons (c := '\'') (by decide), singleQuoted]
  rw [hl] at hmark ⊢
  simp only [Place.glyph] at hmark ⊢
  simp [hmark, hother, isEnd, endMark, isBlank, isBreak, nextLine, lineSeparator,
    paragraphSeparator]

/-- The spaces before a line count for nothing, and make room for a document mark that is none. -/
lemma singleQuoted_indent (done : List Char) {column : ℕ} (hcolumn : 0 < column)
    (hp : held.lineEnded = false → 0 < p.column) :
    ∃ q : Place, q = p.after (if held.lineEnded then spaces column else []) ∧ 0 < q.column ∧
      ∀ F, singleQuoted done held
          (p.glyphs ((if held.lineEnded then spaces column else []) ++ F)) =
        singleQuoted done held (q.glyphs F) := by
  cases hended : held.lineEnded with
  | false => exact ⟨p, rfl, hp hended, fun F => rfl⟩
  | true =>
    refine ⟨p.after (spaces column), rfl, ?_, fun F => ?_⟩
    · rw [Place.after_spaces]
      exact Nat.add_pos_right _ hcolumn
    · simp only [if_true]
      clear hcolumn hp
      induction column generalizing p with
      | zero => rfl
      | succ n ih =>
        have hspaces : spaces (n + 1) = ' ' :: spaces n := rfl
        rw [hspaces, List.cons_append, singleQuoted_space, Pending.blank_of_lineEnded hended, ih,
          Place.after_cons]

/-- A text is read back from single quotes if its breaks are not folded. -/
lemma singleQuoted_singleBody {column : ℕ} (hcolumn : 0 < column) (hF : Kept F)
    (hquote : beginsWith (· == '\'') F = false) (s : List Char)
    (hprint : ∀ c ∈ s, isPrintable c = true) (hs : Unfolded s) (hheld : held.Precedes s)
    (hp : held.lineEnded = false → 0 < p.column) :
    singleQuoted done held (p.glyphs (singleBody column held.lineEnded s ++ F)) =
      .ok (String.ofList ((held.fold.reverse ++ done).reverse ++ s),
        (p.after (singleBody column held.lineEnded s)).glyphs F) := by
  induction s generalizing done held p with
  | nil =>
    obtain ⟨q, hq, hpos, hindent⟩ := singleQuoted_indent done hcolumn hp
    rw [singleBody, List.append_assoc, hindent, List.singleton_append,
      singleQuoted_close hpos hF hquote, hq]
    simp
  | cons c s ih =>
    obtain ⟨hc, hprint'⟩ := List.forall_mem_cons.mp hprint
    have hkept := isKept_of_isPrintable hc
    have hrest := (unfolded_cons.mp hs).2.2.2
    by_cases hbreak : isBreak c = true
    · obtain ⟨hheld', hended, hfold⟩ := hheld.lineBreak hs hbreak
      have hread := @ih done _ (p.next c) hprint' hrest hheld' (by simp [hended])
      rw [hended, hfold] at hread
      rw [singleBody, if_pos hbreak, List.cons_append, singleQuoted_lineBreak hkept hbreak, hread]
      simp
    · rw [Bool.not_eq_true] at hbreak
      obtain ⟨q, hq, hpos, hindent⟩ := singleQuoted_indent done hcolumn hp
      have hnext : 0 < (q.next c).column := by
        rw [q.next_of_not_isBreak hbreak]
        exact Nat.succ_pos _
      have hbody : singleBody column held.lineEnded (c :: s) =
          (if held.lineEnded then spaces column else []) ++
            ((if c == '\'' then ['\'', '\''] else [c]) ++ singleBody column false s) := by
        rw [singleBody, if_neg (by simp [hbreak])]
        simp
      rw [hbody, List.append_assoc, hindent, Place.after_append, ← hq]
      by_cases hspace : c = ' '
      · subst hspace
        obtain ⟨hheld', hended, hfold⟩ := hheld.blank hs
        have hread := @ih done _ (q.next ' ') hprint' hrest hheld' (fun _ => hnext)
        rw [hended, hfold] at hread
        rw [if_neg (by decide), List.singleton_append, List.cons_append, singleQuoted_space, hread]
        simp
      · have hgap := isGap_of_isPrintable hc hspace hbreak
        by_cases hcquote : c = '\''
        · subst hcquote
          have hread := @ih ('\'' :: (held.fold.reverse ++ done)) .none
            ((q.next '\'').next '\'') hprint' hrest (Pending.none_precedes s)
            (fun _ => by rw [Place.next_of_not_isBreak _ hbreak]; exact Nat.succ_pos _)
          rw [Pending.lineEnded_none, Pending.fold_none] at hread
          rw [if_pos (by decide)]
          simp only [List.cons_append, List.nil_append, Place.after_cons]
          rw [singleQuoted_quote hpos, Place.after_cons, Place.after_cons, Place.after_nil, hread]
          simp
        · have hread := @ih (c :: (held.fold.reverse ++ done)) .none (q.next c) hprint' hrest
            (Pending.none_precedes s) (fun _ => hnext)
          rw [Pending.lineEnded_none, Pending.fold_none] at hread
          rw [if_neg (by simpa using hcquote), List.singleton_append, List.cons_append,
            singleQuoted_visible hkept hgap hcquote hpos, hread]
          simp

end Single

end ConfigRegistry.Yaml
