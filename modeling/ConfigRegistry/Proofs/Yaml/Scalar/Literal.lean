/-
# Literal blocks are read as they are written

Two things of a literal block are told apart from its lines: how deep they are indented, and what
becomes of the breaks at the end.  If the first line shows the indentation the reader finds it;
otherwise the header tells it (`block_writeLiteral` treats both cases alike, because reading the
empty lines at the beginning for their depth and reading them as lines comes to the same).  What the
reader holds after a text is a function of the text alone (`BlockState.write`), and the mark for the
end is the one that gives back the breaks that are held (`chomping_iff`).
-/
import Mathlib.Data.List.Induction
import ConfigRegistry.Proofs.Yaml.Scalar.Quoted
import ConfigRegistry.Yaml.Scalar.Block
import ConfigRegistry.Yaml.Printer

namespace ConfigRegistry.Yaml

/-! ## What is read of a text -/

namespace BlockState

/-- What has been read of a literal block after one more character; in the second part, whether it
is in the middle of a line. -/
def write : BlockState × Bool → Char → BlockState × Bool
  | (st, true), c =>
    if isBreak c then ({ st with first := [c] }, false)
    else ({ st with done := c :: st.done }, true)
  | (st, false), c =>
    if isBreak c then ({ st with more := st.more ++ [c] }, false)
    else
      let st := st.beginLine true c
      ({ st with done := c :: st.done }, true)

/-- What has been read of a text. -/
def ofText (s : List Char) : BlockState × Bool := s.foldl write ({}, false)

lemma ofText_append (s : List Char) (c : Char) : ofText (s ++ [c]) = write (ofText s) c := by
  rw [ofText, List.foldl_append]
  rfl

lemma beginLine_literal (st : BlockState) (c : Char) :
    st.beginLine true c =
      { done := st.more.reverse ++ st.first.reverse ++ st.done, indented := isBlank c } := by
  simp [beginLine]

/-- Nothing of a text is lost, and only what ends the text is kept apart. -/
lemma ofText_spec (s : List Char) :
    (ofText s).1.done.reverse ++ ((ofText s).1.first ++ (ofText s).1.more) = s ∧
      (ofText s).2 = endsWith (fun c => !isBreak c) s ∧
      ((ofText s).2 = true → (ofText s).1.first = [] ∧ (ofText s).1.more = []) ∧
      ((ofText s).2 = false → endsWith (fun c => !isBreak c) s.dropLast = true →
        (ofText s).1.more = []) := by
  induction s using List.reverseRecOn with
  | nil => simp [ofText, endsWith]
  | append_singleton s c ih =>
    obtain ⟨hall, hline, hnone, -⟩ := ih
    have hlast : endsWith (fun c => !isBreak c) (s ++ [c]) = !isBreak c := by simp [endsWith]
    rw [ofText_append, hlast, List.dropLast_concat, ← hline]
    clear hline
    generalize ofText s = read at hall hnone
    obtain ⟨st, inLine⟩ := read
    dsimp only at hall hnone
    cases hbreak : isBreak c with
    | true =>
      cases inLine with
      | true =>
        obtain ⟨hfirst, hmore⟩ := hnone rfl
        rw [hfirst, hmore, List.append_nil, List.append_nil] at hall
        simp [write, hbreak, hall, hmore]
      | false => simp [write, hbreak, ← hall]
    | false =>
      cases inLine with
      | true =>
        obtain ⟨hfirst, hmore⟩ := hnone rfl
        rw [hfirst, hmore, List.append_nil, List.append_nil] at hall
        simp [write, hbreak, hall, hfirst, hmore]
      | false => simp [write, hbreak, beginLine_literal, ← hall]

end BlockState

/-! ## The breaks at the end -/

lemma endsWith_concat (p : Char → Bool) (s : List Char) (c : Char) :
    endsWith p (s ++ [c]) = p c := by
  simp [endsWith]

/-- The mark of a chomping. -/
def Chomping.mark : Chomping → List Char
  | .strip => ['-']
  | .clip => []
  | .keep => ['+']

/-- The header tells to strip a text that ends on a line, to clip one that ends with a single break,
and to keep the breaks of any other. -/
lemma exists_chompingMark (s : List Char) : ∃ chomping : Chomping, chompingMark s = chomping.mark ∧
    (endsWith isBreak s = false → chomping = .strip) ∧
    (endsWith isBreak s = true → chomping = .keep ∨
      chomping = .clip ∧ endsWith (fun c => !isBreak c) s.dropLast = true) := by
  induction s using List.reverseRecOn with
  | nil => exact ⟨.strip, rfl, fun _ => rfl, fun h => absurd h (by decide)⟩
  | append_singleton s c _ =>
    have hlast : endsWith isBreak (s ++ [c]) = isBreak c := by simp [endsWith]
    rw [hlast, List.dropLast_concat]
    cases hbreak : isBreak c with
    | false =>
      refine ⟨.strip, ?_, fun _ => rfl, fun h => absurd h Bool.false_ne_true⟩
      rw [chompingMark, List.reverse_concat]
      cases s.reverse <;> simp [hbreak, Chomping.mark]
    | true =>
      induction s using List.reverseRecOn with
      | nil =>
        refine ⟨.keep, ?_, fun h => absurd h.symm Bool.false_ne_true, fun _ => Or.inl rfl⟩
        simp [chompingMark, hbreak, Chomping.mark]
      | append_singleton s d _ =>
        cases hbefore : isBreak d with
        | true =>
          refine ⟨.keep, ?_, fun h => absurd h.symm Bool.false_ne_true, fun _ => Or.inl rfl⟩
          simp [chompingMark, hbreak, hbefore, Chomping.mark]
        | false =>
          have hline : endsWith (fun c => !isBreak c) (s ++ [d]) = true := by
            simp [endsWith, hbefore]
          refine ⟨.clip, ?_, fun h => absurd h.symm Bool.false_ne_true, fun _ => ?_⟩
          · simp [chompingMark, hbreak, hbefore, Chomping.mark]
          · exact Or.inr ⟨rfl, hline⟩

open BlockState in
/-- The chomping that the header tells gives back the whole text; if the text ends on a line, the
break that ends this line has been read, too. -/
lemma exists_chomping (s : List Char) : ∃ chomping : Chomping, chompingMark s = chomping.mark ∧
    (endsWith isBreak s = true → (ofText s).1.finish chomping = String.ofList s) ∧
    (endsWith isBreak s = false →
      { (ofText s).1 with first := ['\n'] }.finish chomping = String.ofList s) := by
  obtain ⟨chomping, hmark, hstrip, hkeep⟩ := exists_chompingMark s
  obtain ⟨hall, hline, hnone, hclip⟩ := ofText_spec s
  refine ⟨chomping, hmark, fun h => ?_, fun h => ?_⟩
  · rcases hkeep h with rfl | ⟨rfl, hbefore⟩
    · rw [finish, hall]
    · have hended : (ofText s).2 = false := by
        rw [hline]
        revert h
        rw [endsWith, endsWith]
        cases s.getLast? <;> simp
      rw [hclip hended hbefore, List.append_nil] at hall
      rw [finish, hall]
  · obtain rfl := hstrip h
    cases s using List.reverseRecOn with
    | nil => rfl
    | append_singleton s c =>
      have hinLine : (ofText (s ++ [c])).2 = true := by
        rw [hline]
        simpa [endsWith] using h
      obtain ⟨hfirst, hmore⟩ := hnone hinLine
      rw [hfirst, hmore, List.append_nil, List.append_nil] at hall
      rw [finish]
      simp [hall]

/-! ## Lines -/

section Lines

variable {chomping : Chomping} {column : ℕ} {st : BlockState} {p : Place} {F : List Char}

/-- The spaces up to the column of the block count for nothing. -/
lemma blockLines_spaces {n : ℕ} (hn : p.column + n ≤ column) :
    blockLines true chomping column st false (p.glyphs (spaces n ++ F)) =
      blockLines true chomping column st false ((p.after (spaces n)).glyphs F) := by
  induction n generalizing p with
  | zero => rfl
  | succ n ih =>
    have hcolumn := p.column_next_space
    have hlt : p.column < column := by omega
    rw [p.glyphs_spaces_succ, p.after_spaces_succ, blockLines, ← ih (by omega)]
    simp [Place.glyph, hlt]

/-- The block ends where a line begins with something visible before its column. -/
lemma blockLines_end {n : ℕ} (hp : p.column = 0) (hn : n < column) (hF : Kept F)
    (hopens : beginsWith isGap F = false) :
    blockLines true chomping column st false (p.glyphs (spaces n ++ F)) =
      .ok (st.finish chomping, (p.after (spaces n)).glyphs F) := by
  have hcolumn : (p.after (spaces n)).column < column := by
    rw [p.after_spaces]
    show p.column + n < column
    omega
  rw [blockLines_spaces (by omega)]
  generalize p.after (spaces n) = q at hcolumn
  have hne : (q.column == column) = false := by
    rw [beq_eq_false_iff_ne]
    omega
  cases F with
  | nil =>
    rw [q.glyphs_nil, blockLines]
    simp [Place.glyph, endMark, isBreak, nextLine, lineSeparator, paragraphSeparator, hne]
  | cons c F =>
    have hvisible : isGap c = false := hopens
    obtain ⟨hblank, hbreak, -⟩ := isGap_eq_false_iff.mp hvisible
    simp only [isBlank, Bool.or_eq_false_iff] at hblank
    rw [q.glyphs_cons (kept_cons.mp hF).1, blockLines]
    simp [Place.glyph, hblank, hbreak, hne]

/-- A character is read if it ends a line, or stands in a line, or begins one at the column of the
block. -/
lemma blockLines_write {c : Char} (hkept : isKept c = true) {inLine : Bool}
    (hp : inLine = false → isBreak c = false → p.column = column) :
    blockLines true chomping column st inLine (p.glyphs (c :: F)) =
      blockLines true chomping column (BlockState.write (st, inLine) c).1
        (BlockState.write (st, inLine) c).2 ((p.next c).glyphs F) := by
  have hend : isEnd c = false := beq_eq_false_iff_ne.mpr (ne_endMark_of_isKept hkept)
  rw [p.glyphs_cons hkept, blockLines]
  cases hbreak : isBreak c with
  | true =>
    have hblank := not_isBlank_of_isBreak hbreak
    rw [isBlank, Bool.or_eq_false_iff] at hblank
    cases inLine <;> simp [Place.glyph, BlockState.write, hend, hbreak, hblank]
  | false =>
    cases inLine with
    | true => simp [Place.glyph, BlockState.write, hend, hbreak]
    | false => simp [Place.glyph, BlockState.write, hend, hbreak, hp rfl hbreak]

/-- The lines of a text are read as they are written. -/
lemma blockLines_literalBody (chomping : Chomping) (column : ℕ) (st : BlockState) (inLine : Bool)
    (F s : List Char) (hs : ∀ c ∈ s, isPrintable c = true) (hp : inLine = false → p.column = 0) :
    blockLines true chomping column st inLine (p.glyphs (literalBody column (!inLine) s ++ F)) =
        blockLines true chomping column (s.foldl BlockState.write (st, inLine)).1
          (s.foldl BlockState.write (st, inLine)).2
          ((p.after (literalBody column (!inLine) s)).glyphs F) ∧
      ((s.foldl BlockState.write (st, inLine)).2 = false →
        (p.after (literalBody column (!inLine) s)).column = 0) := by
  induction s generalizing st inLine p with
  | nil => exact ⟨rfl, hp⟩
  | cons c s ih =>
    obtain ⟨hc, hs⟩ := List.forall_mem_cons.mp hs
    have hkept := isKept_of_isPrintable hc
    rw [List.foldl_cons]
    cases hbreak : isBreak c with
    | true =>
      have hwrite : (BlockState.write (st, inLine) c).2 = false := by
        cases inLine <;> simp [BlockState.write, hbreak]
      have hcolumn : (p.next c).column = 0 := by rw [p.next_of_isBreak hbreak]
      rw [literalBody, if_pos hbreak, List.cons_append, Place.after_cons,
        blockLines_write hkept (fun _ h => by rw [hbreak] at h; cases h)]
      generalize BlockState.write (st, inLine) c = read at hwrite
      obtain ⟨st', inLine'⟩ := read
      obtain rfl : inLine' = false := hwrite
      exact ih _ _ hs (fun _ => hcolumn)
    | false =>
      have hwrite : (BlockState.write (st, inLine) c).2 = true := by
        cases inLine <;> simp [BlockState.write, hbreak]
      obtain ⟨q, hq, hcolumn, hspaces⟩ : ∃ q : Place,
          q = p.after (if !inLine then spaces column else []) ∧
          (inLine = false → q.column = column) ∧
          ∀ F, blockLines true chomping column st inLine
              (p.glyphs ((if !inLine then spaces column else []) ++ F)) =
            blockLines true chomping column st inLine (q.glyphs F) := by
        cases inLine with
        | true => exact ⟨p, rfl, fun h => (by cases h), fun F => rfl⟩
        | false =>
          have hzero := hp rfl
          refine ⟨p.after (spaces column), rfl, fun _ => ?_, fun F => ?_⟩
          · rw [p.after_spaces]
            show p.column + column = column
            omega
          · exact blockLines_spaces (by omega)
      rw [literalBody, if_neg (by simp [hbreak]), List.append_assoc, hspaces, List.cons_append,
        blockLines_write hkept (fun h _ => hcolumn h), Place.after_append, ← hq, Place.after_cons]
      generalize BlockState.write (st, inLine) c = read at hwrite
      obtain ⟨st', inLine'⟩ := read
      obtain rfl : inLine' = true := hwrite
      exact ih _ _ hs (fun h => by cases h)

end Lines

/-! ## The header and the empty lines -/

/-- A header is read to the end of its line. -/
lemma readHeader_mark (told : Bool) (chomping : Chomping) (p : Place) (F : List Char) :
    readHeader (p.glyphs ((if told then ['2'] else []) ++ (chomping.mark ++ '\n' :: F))) =
      .ok (⟨chomping, if told then some 2 else none⟩,
        (p.after ((if told then ['2'] else []) ++ (chomping.mark ++ ['\n']))).glyphs F) := by
  cases told <;> cases chomping <;>
    simp [Chomping.mark, p.glyphs_cons, Place.glyphs_cons, readHeader, readHeaderParts, chompingOf,
      readIncrement, nextChar, Place.glyph, dropBlanks, dropComment, dropBreak, isBreakOrEnd,
      bind, Except.bind, pure, Except.pure, isKept, isAllowed, isBreak, isBlank, nextLine]

section EmptyLines

variable {chomping : Chomping} {indent : Option ℕ} {column depth : ℕ} {breaks : List Char}
  {p : Place} {c : Char} {F : List Char}

/-- What has been read of empty lines may as well be read as lines of the block. -/
lemma blockLines_of_emptyLines {s : List Glyph} {lines : EmptyLines}
    (h : emptyLines (some column) breaks depth s = .ok lines) :
    blockLines true chomping column { more := lines.breaks } false lines.rest =
      blockLines true chomping column { more := breaks } false s := by
  induction s generalizing breaks depth with
  | nil =>
    rw [emptyLines] at h
    cases h
    rfl
  | cons g s ih =>
    rw [emptyLines] at h
    dsimp only at h
    split at h
    · next hspace =>
      rw [Bool.and_eq_true] at hspace
      rw [ih h, blockLines, if_neg Bool.false_ne_true, if_pos (by simpa using hspace)]
    · next hspace =>
      split at h
      · cases h
      · next htab =>
        split at h
        · next hbreak =>
          rw [ih h, blockLines, if_neg Bool.false_ne_true, if_neg (by simpa using hspace),
            if_neg (by simpa using htab), if_pos hbreak]
        · cases h
          rfl

/-- Spaces up to the column that is sought are passed over. -/
lemma emptyLines_spaces {n : ℕ} (hn : ∀ m ∈ indent, p.column + n ≤ m) :
    emptyLines indent breaks depth (p.glyphs (spaces n ++ F)) =
      emptyLines indent breaks depth ((p.after (spaces n)).glyphs F) := by
  induction n generalizing p with
  | zero => rfl
  | succ n ih =>
    have hcolumn := p.column_next_space
    have hrest := ih (p := p.next ' ') fun m hm => by
      have hm := hn m hm
      omega
    rw [p.glyphs_spaces_succ, p.after_spaces_succ, ← hrest]
    cases indent with
    | none => simp [emptyLines, Place.glyph]
    | some m =>
      have hlt : p.column < m := by
        have hm := hn m rfl
        omega
      simp [emptyLines, Place.glyph, hlt]

/-- Empty lines end at a visible character, and at any that stands in the column of the block. -/
lemma emptyLines_end (hkept : isKept c = true) (hbreak : isBreak c = false)
    (hc : isGap c = false ∨ indent = some p.column) :
    emptyLines indent breaks depth (p.glyphs (c :: F)) =
      .ok ⟨breaks, max depth p.column, p.glyphs (c :: F)⟩ := by
  rw [p.glyphs_cons hkept, emptyLines.eq_def]
  rcases hc with hgap | rfl
  · obtain ⟨hblank, -, -⟩ := isGap_eq_false_iff.mp hgap
    rw [isBlank, Bool.or_eq_false_iff] at hblank
    simp [Place.glyph, hblank, hbreak]
  · simp [Place.glyph, hbreak]

/-- Empty lines end where the block ends. -/
lemma emptyLines_opens {n : ℕ} (hp : p.column = 0) (hn : n < column) (hF : Kept F)
    (hopens : beginsWith isGap F = false) :
    ∃ lines, emptyLines (some column) breaks depth (p.glyphs (spaces n ++ F)) = .ok lines := by
  rw [emptyLines_spaces (by simp; omega)]
  cases F with
  | nil =>
    rw [Place.glyphs_nil, emptyLines]
    simp [Place.glyph, endMark, isBreak, nextLine, lineSeparator, paragraphSeparator]
  | cons c F =>
    have hgap : isGap c = false := hopens
    exact ⟨_, emptyLines_end (kept_cons.mp hF).1 (isGap_eq_false_iff.mp hgap).2.1 (.inl hgap)⟩

lemma emptyLines_lineBreak (indent : Option ℕ) (breaks : List Char) (depth : ℕ) (p : Place)
    (F : List Char) (hkept : isKept c = true) (hbreak : isBreak c = true) :
    ∃ depth', emptyLines indent breaks depth (p.glyphs (c :: F)) =
      emptyLines indent (breaks ++ [c]) depth' ((p.next c).glyphs F) := by
  have hblank := not_isBlank_of_isBreak hbreak
  rw [isBlank, Bool.or_eq_false_iff] at hblank
  refine ⟨max depth p.column, ?_⟩
  rw [p.glyphs_cons hkept, emptyLines.eq_def]
  simp [Place.glyph, hblank, hbreak]

/-- The empty lines of a text are found. -/
lemma exists_emptyLines (breaks : List Char) (depth : ℕ) (s : List Char)
    (hs : ∀ c ∈ s, isPrintable c = true) (hp : p.column = 0)
    (hF : ∀ (q : Place) (breaks : List Char) (depth : ℕ), q.column = 0 →
      ∃ lines, emptyLines (some column) breaks depth (q.glyphs F) = .ok lines) :
    ∃ lines, emptyLines (some column) breaks depth
      (p.glyphs (literalBody column true s ++ F)) = .ok lines := by
  induction s generalizing breaks depth p with
  | nil => exact hF p breaks depth hp
  | cons c s ih =>
    obtain ⟨hc, hs⟩ := List.forall_mem_cons.mp hs
    have hkept := isKept_of_isPrintable hc
    cases hbreak : isBreak c with
    | true =>
      have hcolumn : (p.next c).column = 0 := by rw [p.next_of_isBreak hbreak]
      obtain ⟨depth', hstep⟩ := emptyLines_lineBreak (some column) breaks depth p
        (literalBody column true s ++ F) hkept hbreak
      rw [literalBody, if_pos hbreak, List.cons_append, hstep]
      exact ih _ _ hs hcolumn
    | false =>
      have hcolumn : (p.after (spaces column)).column = column := by
        rw [p.after_spaces]
        show p.column + column = column
        omega
      rw [literalBody, if_neg (by simp [hbreak]), if_pos rfl, List.append_assoc,
        emptyLines_spaces (by simp; omega), List.cons_append]
      exact ⟨_, emptyLines_end hkept hbreak (.inr (by rw [hcolumn]))⟩

end EmptyLines

/-! ## Whole blocks -/

lemma exists_literalBody_append (column : ℕ) (s : List Char) (c : Char) (lineStart : Bool) :
    ∃ t, literalBody column lineStart (s ++ [c]) = t ++ [c] := by
  induction s generalizing lineStart with
  | nil =>
    cases hbreak : isBreak c with
    | true => exact ⟨[], by simp [literalBody, hbreak]⟩
    | false => exact ⟨if lineStart then spaces column else [], by simp [literalBody, hbreak]⟩
  | cons d s ih =>
    cases hbreak : isBreak d with
    | true =>
      obtain ⟨t, ht⟩ := ih true
      exact ⟨d :: t, by simp [literalBody, hbreak, ht]⟩
    | false =>
      obtain ⟨t, ht⟩ := ih false
      exact ⟨(if lineStart then spaces column else []) ++ d :: t, by simp [literalBody, hbreak, ht]⟩

/-- A literal block ends as its text does. -/
lemma endsWith_writeLiteral (column : ℕ) {s : List Char} (hne : s ≠ []) (p : Char → Bool) :
    endsWith p (writeLiteral column s) = endsWith p s := by
  obtain ⟨u, c, rfl⟩ := List.eq_nil_or_concat s |>.resolve_left hne
  obtain ⟨t, ht⟩ := exists_literalBody_append column u c true
  rw [List.concat_eq_append, writeLiteral, ht, endsWith_concat, ← List.cons_append,
    ← List.append_assoc, endsWith_concat]

/-- The reader finds the lines of a block at the depth at which they are written: either the header
tells it, or the first line shows it. -/
lemma block_eq_blockLines {outer : Int} {column : ℕ} (hcolumn : column = outer.toNat + 2)
    (houter : -1 ≤ outer) {s F : List Char} (hne : s ≠ []) (hs : ∀ c ∈ s, isPrintable c = true)
    {p : Place} (hF : ∀ (q : Place) (breaks : List Char) (depth : ℕ), q.column = 0 →
      ∃ lines, emptyLines (some column) breaks depth (q.glyphs F) = .ok lines)
    {chomping : Chomping} (hmark : chompingMark s = chomping.mark) :
    ∃ q : Place, q.column = 0 ∧
      p.after (writeLiteral column s).tail = q.after (literalBody column true s) ∧
      block true outer (p.glyphs ((writeLiteral column s).tail ++ F)) =
        blockLines true chomping column {} false (q.glyphs (literalBody column true s ++ F)) := by
  obtain ⟨told, htold⟩ : ∃ told, told = beginsWith (fun c => isSpace c || isBreak c) s := ⟨_, rfl⟩
  have htail : (writeLiteral column s).tail =
      ((if told then ['2'] else []) ++ (chomping.mark ++ ['\n'])) ++ literalBody column true s := by
    rw [writeLiteral, hmark, htold]
    simp
  have hheader := readHeader_mark told chomping p (literalBody column true s ++ F)
  refine ⟨p.after ((if told then ['2'] else []) ++ (chomping.mark ++ ['\n'])), ?_, ?_, ?_⟩
  · rw [← List.append_assoc, Place.after_append]
    rfl
  · rw [htail, Place.after_append]
  · rw [htail]
    simp only [List.append_assoc, List.cons_append, List.nil_append] at hheader ⊢
    rw [block, hheader]
    simp only [bind, Except.bind]
    generalize hq : p.after ((if told then ['2'] else []) ++ (chomping.mark ++ ['\n'])) = q
    have hzero : q.column = 0 := by
      rw [← hq, ← List.append_assoc, Place.after_append]
      rfl
    cases told with
    | true =>
      have hgiven : 2 + outer.toNat = column := by omega
      obtain ⟨lines, hlines⟩ := exists_emptyLines [] 0 s hs hzero hF
      simp only [if_true, Option.map_some, hgiven, Option.getD_some, hlines]
      exact blockLines_of_emptyLines hlines
    | false =>
      -- the first character is visible, and the only one up to which spaces are passed over
      obtain ⟨c, t, rfl⟩ := List.exists_cons_of_ne_nil hne
      obtain ⟨hc, -⟩ := List.forall_mem_cons.mp hs
      have hfirst : isSpace c = false ∧ isBreak c = false := by
        simpa [beginsWith] using htold.symm
      have hgap : isGap c = false :=
        isGap_of_isPrintable hc (beq_eq_false_iff_ne.mp hfirst.1) hfirst.2
      have hcolumn' : (q.after (spaces column)).column = column := by
        rw [q.after_spaces]
        show q.column + column = column
        omega
      have hbody : literalBody column true (c :: t) ++ F =
          spaces column ++ (c :: (literalBody column false t ++ F)) := by
        simp [literalBody, hfirst.2]
      have hlines : emptyLines none [] 0 (q.glyphs (literalBody column true (c :: t) ++ F)) =
          .ok ⟨[], column, (q.after (spaces column)).glyphs
            (c :: (literalBody column false t ++ F))⟩ := by
        rw [hbody, emptyLines_spaces (by simp),
          emptyLines_end (isKept_of_isPrintable hc) hfirst.2 (.inl hgap), hcolumn', Nat.zero_max]
      have hdepth : max column (max (outer + 1).toNat 1) = column := by omega
      simp only [Bool.false_eq_true, if_false, Option.map_none, hlines, Option.getD_none, hdepth]
      rw [hbody, blockLines_spaces (by omega)]

/-- What is written as a literal block is read back, up to the next line. -/
theorem block_writeLiteral {outer : Int} {column n : ℕ} (hcolumn : column = outer.toNat + 2)
    (houter : -1 ≤ outer) (hn : n < column) {s F : List Char} (hne : s ≠ [])
    (hs : ∀ c ∈ s, isPrintable c = true) (hF : Kept F) (hopens : beginsWith isGap F = false)
    (p : Place) :
    block true outer (p.glyphs ((writeLiteral column s).tail ++
        (lineAfter (writeLiteral column s) n ++ F))) =
      .ok (String.ofList s, (p.after ((writeLiteral column s).tail ++
        lineAfter (writeLiteral column s) n)).glyphs F) := by
  obtain ⟨chomping, hmark, hbroken, hunbroken⟩ := exists_chomping s
  have hline : lineAfter (writeLiteral column s) n =
      (if endsWith isBreak s then [] else ['\n']) ++ spaces n := by
    rw [lineAfter, endsWith_writeLiteral column hne]
  have hempty : ∀ (q : Place) (breaks : List Char) (depth : ℕ), q.column = 0 →
      ∃ lines, emptyLines (some column) breaks depth
        (q.glyphs (lineAfter (writeLiteral column s) n ++ F)) = .ok lines := by
    intro q breaks depth hq
    rw [hline]
    cases endsWith isBreak s with
    | true => exact emptyLines_opens hq hn hF hopens
    | false =>
      have hcolumn : (q.next '\n').column = 0 := rfl
      obtain ⟨depth', hstep⟩ := emptyLines_lineBreak (some column) breaks depth q (c := '\n')
        (spaces n ++ F) (by decide) (by decide)
      rw [if_neg Bool.false_ne_true, List.append_assoc, List.singleton_append, hstep]
      exact emptyLines_opens hcolumn hn hF hopens
  obtain ⟨q, hq, hplace, hblock⟩ := block_eq_blockLines hcolumn houter hne hs (p := p) hempty hmark
  obtain ⟨hread, hzero⟩ := blockLines_literalBody chomping column {} false
    (lineAfter (writeLiteral column s) n ++ F) s hs (fun _ => hq)
  obtain ⟨-, hinLine, -⟩ := BlockState.ofText_spec s
  rw [Bool.not_false] at hread hzero
  rw [hblock, Place.after_append, hplace, hread]
  change (BlockState.ofText s).2 = false → _ at hzero
  change blockLines true chomping column (BlockState.ofText s).1 (BlockState.ofText s).2 _ = _
  generalize q.after (literalBody column true s) = r at hzero
  obtain ⟨u, c, rfl⟩ := List.eq_nil_or_concat s |>.resolve_left hne
  rw [List.concat_eq_append] at *
  rw [endsWith_concat] at hinLine hline hbroken hunbroken
  cases hbreak : isBreak c with
  | true =>
    rw [hbreak] at hinLine hline
    rw [hinLine, hline, if_pos rfl, List.nil_append, Bool.not_true,
      blockLines_end (hzero hinLine) hn hF hopens, hbroken hbreak]
  | false =>
    rw [hbreak] at hinLine hline
    have hcolumn' : (r.next '\n').column = 0 := rfl
    have hwrite (st : BlockState) :
        BlockState.write (st, true) '\n' = ({ st with first := ['\n'] }, false) := rfl
    rw [hinLine, hline, if_neg Bool.false_ne_true, List.append_assoc, List.singleton_append,
      Bool.not_false, blockLines_write (by decide) (fun h => by cases h), hwrite,
      blockLines_end hcolumn' hn hF hopens, hunbroken hbreak]
    rfl

end ConfigRegistry.Yaml
