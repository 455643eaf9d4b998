/-
# Tokens of block collections

A tree is written in block style, and read token by token.
-/
import ConfigRegistry.Proofs.Yaml.Scalar.Written
import ConfigRegistry.Proofs.Yaml.Token.Margin
import ConfigRegistry.Proofs.Yaml.Token.Scalar

namespace ConfigRegistry.Yaml.Scan

/-- A scan of a text that begins at a place, inside of blocks only: the tokens found, the last one
first, the column of the innermost block, those of the blocks around it, and whether a key may
begin. -/
def inBlock (p : Place) (F : List Char) (done : List Token) (indent : Int) (outer : List Int)
    (allowed : Bool) : Scan :=
  { rest := p.glyphs F, done, indent, outer, keyAllowed := allowed }

section InBlock

variable {p q r : Place} {F G : List Char} {done : List Token} {indent : Int} {outer : List Int}
  {allowed allowed' : Bool} {keyStart : Option KeyStart}

@[simp] lemma rest_inBlock : (inBlock p F done indent outer allowed).rest = p.glyphs F := rfl

@[simp] lemma rest_unroll {s : Scan} {column : Int} : (s.unroll column).rest = s.rest := by
  rw [unroll]
  split <;> rfl

/-- Closing a block is a matter of the block itself and of those around it. -/
lemma unroll_inBlock_cons {column around : Int} (h : column < indent) :
    (inBlock p F done indent (around :: outer) allowed).unroll column =
      (inBlock p F (.blockEnd :: done) around outer allowed).unroll column := by
  have hreplicate (n : ℕ) : List.replicate (n + 1) Token.blockEnd ++ done =
      List.replicate n Token.blockEnd ++ .blockEnd :: done := by
    rw [List.replicate_succ', List.append_assoc]
    rfl
  simp [unroll, inBlock, inFlow, unrolled, h, hreplicate]

lemma unroll_inBlock_of_le {column : Int} (h : indent ≤ column) :
    (inBlock p F done indent outer allowed).unroll column = inBlock p F done indent outer allowed :=
  unroll_of_le h

/-! ## Coming to the next token -/

/-- A gap is passed over, and with it a key that it cannot reach. -/
lemma come_inBlock (hF : Kept F) (hG : Kept G)
    (hgap : gap false allowed false (p.glyphs F) = (allowed', q.glyphs G))
    (hkey : ∀ k ∈ keyStart, k.required = false ∧ k.line < q.line) :
    come { inBlock p F done indent outer allowed with keyStart := keyStart } =
      .ok ((inBlock q G done indent outer allowed').unroll q.column) := by
  obtain ⟨c, l, hl, -⟩ := p.exists_glyphs_cons hF
  obtain ⟨d, m, hm, -⟩ := q.exists_glyphs_cons hG
  have hreaches : ∀ g, Reaches keyStart g := by
    intro g k hk hrequired
    rw [(hkey k hk).1] at hrequired
    cases hrequired
  have hgone : freshAt (q.glyph d) (freshAt (p.glyph c) keyStart) = none := by
    cases keyStart with
    | none => rfl
    | some k =>
      have hstale : isStale (q.glyph d) k = true := by
        simp [isStale, Place.glyph, (hkey k rfl).2]
      rw [freshAt, freshAt, Option.filter_filter]
      simp [hstale]
  have hgap' : gap false allowed false (p.glyph c :: l) = (allowed', q.glyph d :: m) := by
    rw [← hl, ← hm]
    exact hgap
  have hcome := come_eq (s := { inBlock p F done indent outer allowed with keyStart := keyStart })
    (g := p.glyph c) (h := q.glyph d) (l := l) (m := m) hl hgap' (by simp [inBlock, hreaches])
  rw [hcome, hgone, ← hm]
  rfl

/-- Right behind a key nothing is passed over, and the key is not given up. -/
lemma come_key (hF : Kept F) (hopens : Opens F) {k : KeyStart} (hline : k.line = p.line)
    (hindex : p.index ≤ k.index + keyLimit) (hindent : indent ≤ p.column) :
    come { inBlock p F done indent outer allowed with keyStart := some k } =
      .ok { inBlock p F done indent outer allowed with keyStart := some k } := by
  obtain ⟨c, l, hl, -⟩ := p.exists_glyphs_cons hF
  have hfresh : isStale (p.glyph c) k = false := by
    simp [isStale, Place.glyph, hline, Nat.not_lt.mpr hindex]
  have hreaches : Reaches (some k) (p.glyph c) := by
    intro x hx _
    obtain rfl := Option.some.inj hx
    exact hfresh
  have hgap : gap false allowed false (p.glyph c :: l) = (allowed, p.glyph c :: l) := by
    rw [← hl]
    exact gap_opens hF hopens
  have hcome := come_eq (s := { inBlock p F done indent outer allowed with keyStart := some k })
    (g := p.glyph c) (h := p.glyph c) (l := l) (m := l) hl hgap (by simp [inBlock, hreaches])
  rw [hcome, unroll_of_le hindent, ← hl]
  simp [inBlock, freshAt, hfresh]

/-- The tokens of a text behind idle lines, if the scanner reaches its end. -/
lemma tokens_of_idle (idle : List IdleLine) {a b : Scan} (hF : Kept F) (hopens : Opens F)
    (h : Leads (inBlock (Place.start.after (idleChars idle)) F [] (-1) [] true) a)
    (htake : a.takeNext = .ok b) (hover : b.isOver = true) :
    Token.ofText (idleChars idle ++ F) = b.done.reverse := by
  have hkept : Kept (idleChars idle ++ F) := kept_append.mpr ⟨kept_idleChars idle, hF⟩
  have hgap : gap false true false (Place.start.glyphs (idleChars idle ++ F)) =
      (true, (Place.start.after (idleChars idle)).glyphs F) := by
    rw [gap_idleChars, gap_opens hF hopens]
  have hcome : come (inBlock Place.start (idleChars idle ++ F) [] (-1) [] true) = _ :=
    come_inBlock hkept hF hgap nofun
  rw [unroll_inBlock_of_le (by omega)] at hcome
  rw [Token.ofText, Glyph.ofText_of_kept hkept]
  refine tokens_of_leads hcome h htake hover ?_
  rw [rest_inBlock, Place.length_glyphs _ hF, Place.length_glyphs _ hkept, List.length_append]
  omega

/-- The tokens of a text, of which the scanner reaches the end. -/
lemma tokens_of_text {a b : Scan} (hF : Kept F) (hopens : Opens F)
    (h : Leads (inBlock Place.start F [] (-1) [] true) a) (htake : a.takeNext = .ok b)
    (hover : b.isOver = true) : Token.ofText F = b.done.reverse :=
  tokens_of_idle [] hF hopens h htake hover

/-- A token that has been taken and the gap behind it are one step. -/
lemma step_of_takeNext (keyStart : Option KeyStart) {a : Scan} {W : List Char} {t : Token}
    (hrest : a.rest = p.glyphs W)
    (hW : Kept W) (hlength : F.length < W.length) (ht : t ≠ .streamEnd)
    (htake : a.takeNext =
      .ok { inBlock q G (t :: done) indent outer allowed with keyStart := keyStart })
    (hF : Kept F) (hG : Kept G)
    (hgap : gap false allowed false (q.glyphs G) = (allowed', r.glyphs F))
    (hkey : ∀ k ∈ keyStart, k.required = false ∧ k.line < r.line) :
    Step a ((inBlock r F (t :: done) indent outer allowed').unroll r.column) := by
  refine ⟨_, htake, ?_, come_inBlock hG hF hgap hkey, ?_⟩
  · simpa [isOver, inBlock] using ht
  · rw [rest_unroll, rest_inBlock, hrest, r.length_glyphs hF, p.length_glyphs hW]
    exact Nat.succ_lt_succ hlength

end InBlock

/-! ## Plain scalars -/

/-- A plain scalar is taken for no mark of a document. -/
lemma atDocumentMark_of_plainCarries {p : Place} {s F : List Char} (hne : s ≠ [])
    (hs : plainCarries s = true) (hF : Kept F)
    (hfirst : beginsWith (fun c => c == '-' || c == '.') F = false) :
    atDocumentMark (p.glyphs (s ++ F)) = false := by
  obtain ⟨hprint, -, -, -, -, hindicator⟩ := plainCarries_iff.mp hs
  have hkept : Kept (s ++ F) := kept_append.mpr ⟨.of_isPrintable hprint, hF⟩
  obtain ⟨c, t, rfl⟩ := List.exists_cons_of_ne_nil hne
  have hhead : F.headD endMark ≠ '-' ∧ F.headD endMark ≠ '.' := by
    cases F with
    | nil => decide
    | cons d F => simpa [beginsWith] using hfirst
  simp only [hasIndicator, Bool.or_eq_false_iff, beq_eq_false_iff_ne] at hindicator
  obtain ⟨⟨⟨⟨hdashes, hdots⟩, -⟩, hgap⟩, -⟩ := hindicator
  have hmark : ∀ mark, (mark = '-' ∨ mark = '.') → (c :: t).take 3 ≠ [mark, mark, mark] →
      atMark mark (p.glyphs (c :: t ++ F)) = false := by
    intro mark hmark hthree
    have hend : F.headD endMark ≠ mark := by
      rcases hmark with rfl | rfl
      · exact hhead.1
      · exact hhead.2
    rw [← Bool.not_eq_true]
    intro hat
    simp only [atMark, Bool.and_eq_true, beq_iff_eq, p.charAt_glyphs hkept, p.nextChar_glyphs hkept]
      at hat
    obtain ⟨⟨⟨⟨-, hzero⟩, hone⟩, htwo⟩, -⟩ := hat
    cases t with
    | nil => exact hend hone
    | cons d t =>
      cases t with
      | nil => exact hend htwo
      | cons e t =>
        obtain rfl : c = mark := hzero
        obtain rfl : d = c := hone
        obtain rfl : e = d := htwo
        exact hthree rfl
  rw [atDocumentMark, hmark '-' (.inl rfl) hdashes, hmark '.' (.inr rfl) hdots, Bool.or_self]

section Scalars

variable {p : Place} {F : List Char} {done : List Token} {indent : Int} {outer : List Int}
  {allowed : Bool}

lemma free_inBlock : (inBlock p F done indent outer allowed).Free := by
  intro k hk
  cases hk

/-- The place of a key in a block, if one may begin. -/
lemma mem_noted_inBlock {c : Char} {k : KeyStart}
    (hk : k ∈ (inBlock p F done indent outer allowed).noted (p.glyph c)) :
    allowed = true ∧ k = ⟨done.length, indent == p.column, p.index, p.line, p.column⟩ := by
  cases allowed with
  | true => exact ⟨rfl, (Option.some.inj hk).symm⟩
  | false => cases hk

/-- A text that a plain scalar can carry is taken as far as the reader of plain scalars goes. -/
lemma takeNext_plainText (done : List Token) (outer : List Int) (allowed : Bool) {s : List Char}
    (hne : s ≠ []) (hs : plainCarries s = true) (hF : Kept F)
    (hfirst : beginsWith (fun c => c == '-' || c == '.') F = false) (hp : indent ≤ p.column)
    {text : Plain}
    (hread : plain false (indent + 1) s.reverse .none ((p.after s).glyphs F) = .ok text) :
    ∃ c, (inBlock p (s ++ F) done indent outer allowed).takeNext =
      .ok { inBlock p F (.scalar .plain text.text :: done) indent outer text.lineEnded with
        rest := text.rest
        keyStart := (inBlock p (s ++ F) done indent outer allowed).noted (p.glyph c) } := by
  have hmark := atDocumentMark_of_plainCarries (p := p) hne hs hF hfirst
  have hplain : plain false (indent + 1) [] .none (p.glyphs (s ++ F)) =
      plain false (indent + 1) s.reverse .none ((p.after s).glyphs F) :=
    plain_of_plainCarries hne hs hF (by omega)
  obtain ⟨hprint, -, hbreak, hspace, -, hindicator⟩ := plainCarries_iff.mp hs
  have hkept : Kept (s ++ F) := kept_append.mpr ⟨.of_isPrintable hprint, hF⟩
  obtain ⟨c, t, rfl⟩ := List.exists_cons_of_ne_nil hne
  simp only [hasIndicator, Bool.or_eq_false_iff] at hindicator
  obtain ⟨⟨⟨-, hindicator⟩, hgap⟩, -⟩ := hindicator
  refine ⟨c, takeNext_plain (p := p) (c := c) (F := t ++ F) rfl
    (isKept_of_isPrintable (hprint c (by simp))) free_inBlock
    (isGap_of_isPrintable (hprint c (by simp)) (beq_eq_false_iff_ne.mp hspace) (hbreak c (by simp)))
    hindicator (fun hc => ⟨rfl, ?_⟩) hmark (hplain.trans hread)⟩
  -- an indicator that does not count has something visible behind it
  have hmany : (c == '?' || c == ':' || c == '-') = true := by
    rcases hc with rfl | rfl | rfl <;> rfl
  rw [hmany, Bool.true_and] at hgap
  cases t with
  | nil => cases hgap
  | cons d t =>
    have hvisible : isGap d = false := hgap
    rw [rest_inBlock, p.charAt_glyphs hkept]
    exact hvisible

/-- In a block, the place of a key is noted only behind its beginning. -/
lemma noted_inBlock_spec {c : Char} {q : Place} (hp : indent < p.column) (hline : p.line < q.line) :
    ∀ k ∈ (inBlock p F done indent outer allowed).noted (p.glyph c),
      k.required = false ∧ k.line < q.line := by
  intro k hk
  obtain ⟨-, rfl⟩ := mem_noted_inBlock hk
  exact ⟨beq_eq_false_iff_ne.mpr (Int.ne_of_lt hp), hline⟩

lemma kept_newLine (hF : Kept F) (n : ℕ) : Kept ('\n' :: (spaces n ++ F)) :=
  kept_cons.mpr ⟨by decide, kept_append.mpr ⟨kept_spaces n, hF⟩⟩

/-- A plain scalar that is no key, and the margin behind it, are one step. -/
lemma step_plainText (done : List Token) (outer : List Int) (allowed : Bool) {s : List Char}
    (hne : s ≠ []) (hs : plainCarries s = true) (m : Margin) (hF : Kept F)
    (hopens : Opens F) (hp : indent < p.column) {n : ℕ} (hn : n ≤ indent) :
    ∃ r : Place, r.column = n ∧
      Step (inBlock p (s ++ (m.chars ++ (spaces n ++ F))) done indent outer allowed)
        ((inBlock r F (.scalar .plain (String.ofList s) :: done) indent outer true).unroll n) := by
  have hprint := (plainCarries_iff.mp hs).1
  have hrest := m.kept_append hF n
  obtain ⟨q, G, hG, hread, hgap⟩ := plain_margin (p := p.after s) s.reverse m hF hopens
    (Int.lt_add_one_of_le hn)
  rw [List.reverse_reverse] at hread
  obtain ⟨c, htake⟩ := takeNext_plainText (p := p) done outer allowed hne hs hrest
    (m.beginsWith_append (by decide) (by decide) _) (Int.le_of_lt hp) hread
  have hcolumn := (p.after s).column_after_margin m n
  have hline := Nat.lt_of_le_of_lt (p.line_le_after s) ((p.after s).line_lt_after_margin m n)
  generalize ((p.after s).after m.chars).after (spaces n) = r at *
  subst hcolumn
  exact ⟨r, rfl, step_of_takeNext _ (q := q) (G := G) rfl
    (kept_append.mpr ⟨.of_isPrintable hprint, hrest⟩) (by simp [Margin.chars]; omega) (by simp)
    htake hF hG hgap (noted_inBlock_spec hp hline)⟩

/-- A quoted scalar that is no key, and the margin behind it, are one step. -/
lemma step_quoted {W : List Char} {t : Token} {c : Char} (hW : Kept W) (ht : t ≠ .streamEnd)
    (m : Margin) (hF : Kept F) (hopens : Opens F) (hp : indent < p.column) (n : ℕ)
    (htake : (inBlock p (W ++ (m.chars ++ (spaces n ++ F))) done indent outer allowed).takeNext =
      .ok { inBlock (p.after W) (m.chars ++ (spaces n ++ F)) (t :: done) indent outer false with
        keyStart := (inBlock p (W ++ (m.chars ++ (spaces n ++ F))) done indent outer allowed).noted
          (p.glyph c) }) :
    ∃ r : Place, r.column = n ∧
      Step (inBlock p (W ++ (m.chars ++ (spaces n ++ F))) done indent outer allowed)
        ((inBlock r F (t :: done) indent outer true).unroll n) := by
  have hrest := m.kept_append hF n
  have hcolumn := (p.after W).column_after_margin m n
  have hline := Nat.lt_of_le_of_lt (p.line_le_after W) ((p.after W).line_lt_after_margin m n)
  have hgap : gap false false false ((p.after W).glyphs (m.chars ++ (spaces n ++ F))) = _ :=
    gap_margin m n hF hopens
  generalize ((p.after W).after m.chars).after (spaces n) = r at *
  subst hcolumn
  exact ⟨r, rfl, step_of_takeNext _ rfl (kept_append.mpr ⟨hW, hrest⟩)
    (by simp [Margin.chars]; omega) ht htake hF hrest hgap (noted_inBlock_spec hp hline)⟩

/-- A text between quotes is taken up to its closing quote. -/
lemma takeNext_quotedText (done : List Token) (indent : Int) (outer : List Int) (allowed : Bool)
    {s : String} {column : ℕ} (hcolumn : 0 < column) (hF : Kept F)
    (hquote : beginsWith (· == '\'') F = false)
    (hstyle : styleOf s = .singleQuoted ∨ styleOf s = .doubleQuoted) :
    ∃ c, (inBlock p (writeText column s ++ F) done indent outer allowed).takeNext =
      .ok { inBlock (p.after (writeText column s)) F (.scalar (styleOf s) s :: done) indent outer
          false with
        keyStart := (inBlock p (writeText column s ++ F) done indent outer allowed).noted
          (p.glyph c) } := by
  rcases writeText_cases column s with ⟨h, -⟩ | ⟨h, htext⟩ | ⟨h, -⟩ | ⟨h, htext⟩
  · simp [h] at hstyle
  · obtain ⟨hprint, hunfolded⟩ := styleOf_eq_singleQuoted h
    have hread : singleQuoted [] .none
        ((p.next '\'').glyphs (singleBody column false s.toList ++ F)) = _ :=
      singleQuoted_singleBody hcolumn hF hquote s.toList hprint hunfolded (Pending.none_precedes _)
        (fun _ => Nat.succ_pos _)
    simp only [Pending.fold_none, List.reverse_nil, List.nil_append, String.ofList_toList,
      Pending.lineEnded_none] at hread
    rw [h, htext]
    exact ⟨'\'', takeNext_singleQuoted rfl free_inBlock hread⟩
  · simp [h] at hstyle
  · have hread : doubleQuoted [] .none 0
        ((p.next '"').glyphs (s.toList.flatMap writeInDouble ++ '"' :: F)) = _ :=
      doubleQuoted_written inDouble_writeInDouble (carried_flatMap_writeInDouble _) hF
    rw [String.ofList_toList] at hread
    rw [h, htext, List.append_assoc]
    exact ⟨'"', takeNext_doubleQuoted rfl free_inBlock hread⟩

/-- A literal block, and the line behind it, are one step. -/
lemma step_literal (done : List Token) (outer : List Int) (allowed : Bool) {s : String}
    {column : ℕ} (hcolumn : column = indent.toNat + 2) {n : ℕ} (hn : n ≤ indent) (hF : Kept F)
    (hopens : Opens F) (hstyle : styleOf s = .literal) :
    ∃ r : Place, r.column = n ∧
      Step (inBlock p (writeText column s ++ (lineAfter (writeText column s) n ++ F)) done indent
          outer allowed)
        ((inBlock r F (.scalar .literal s :: done) indent outer true).unroll n) := by
  obtain ⟨hne, hprint⟩ := styleOf_eq_literal hstyle
  have htext : writeText column s = writeLiteral column s.toList := by simp [writeText, hstyle]
  have hkept := kept_writeText column s
  have hplace := column_after_lineAfter p (writeText column s) n
  rw [htext] at hkept hplace ⊢
  have hline : Kept (lineAfter (writeLiteral column s.toList) n ++ F) := by
    rw [lineAfter, List.append_assoc]
    split
    · exact kept_append.mpr ⟨kept_nil, kept_append.mpr ⟨kept_spaces n, hF⟩⟩
    · exact kept_newLine hF n
  have hread := block_writeLiteral hcolumn (by omega) (by omega) hne hprint hF
    hopens.beginsWith_isGap (p.next '|') (n := n)
  rw [String.ofList_toList] at hread
  have htake := takeNext_literal (s := inBlock p (writeLiteral column s.toList ++
    (lineAfter (writeLiteral column s.toList) n ++ F)) done indent outer allowed) rfl rfl
    free_inBlock hread
  change _ = Except.ok { inBlock (p.after (writeLiteral column s.toList ++
    lineAfter (writeLiteral column s.toList) n)) F (.scalar .literal s :: done) indent outer true
    with keyStart := none } at htake
  generalize p.after (writeLiteral column s.toList ++ lineAfter (writeLiteral column s.toList) n)
    = r at htake hplace
  refine ⟨r, hplace, ?_⟩
  have hstep := step_of_takeNext none (q := r) rfl (kept_append.mpr ⟨hkept, hline⟩)
    (by simp [writeLiteral]; omega) (by simp) htake hF hF (gap_opens hF hopens) (by simp)
  rw [hplace] at hstep
  exact hstep

/-- A scalar that is no key, and the line behind it, are one step. -/
lemma step_text (done : List Token) (outer : List Int) (allowed : Bool) {s : String} {column : ℕ}
    (hcolumn : column = indent.toNat + 2)
    (hp : indent < p.column) {n : ℕ} (hn : n ≤ indent) (hF : Kept F) (hopens : Opens F) :
    ∃ r : Place, r.column = n ∧
      Step (inBlock p (writeText column s ++ (lineAfter (writeText column s) n ++ F)) done indent
          outer allowed)
        ((inBlock r F (.scalar (styleOf s) s :: done) indent outer true).unroll n) := by
  have hkept := kept_writeText column s
  have hrest := kept_newLine hF n
  cases hstyle : styleOf s with
  | plain =>
    obtain ⟨hne, hcarries, -⟩ := styleOf_eq_plain hstyle
    have htext : writeText column s = s.toList := by simp [writeText, hstyle]
    have hstep := step_plainText (p := p) done outer allowed hne hcarries .newLine hF hopens hp hn
    rw [String.ofList_toList] at hstep
    rw [lineAfter_writeText (by simp [hstyle]), htext]
    exact hstep
  | singleQuoted =>
    obtain ⟨c, htake⟩ := takeNext_quotedText (p := p) done indent outer allowed
      (show 0 < column by omega) hrest rfl (.inl hstyle)
    rw [hstyle] at htake
    rw [lineAfter_writeText (by simp [hstyle])]
    exact step_quoted hkept (by simp) .newLine hF hopens hp n htake
  | doubleQuoted =>
    obtain ⟨c, htake⟩ := takeNext_quotedText (p := p) done indent outer allowed
      (show 0 < column by omega) hrest rfl (.inr hstyle)
    rw [hstyle] at htake
    rw [lineAfter_writeText (by simp [hstyle])]
    exact step_quoted hkept (by simp) .newLine hF hopens hp n htake
  | literal => exact step_literal done outer allowed hcolumn hn hF hopens hstyle
  | folded => exact absurd hstyle styleOf_ne_folded

end Scalars

/-! ## Indicators -/

/-- A block is open at a column: it was so before, or it is opened there by a token. -/
inductive Opened (t : Token) (column : ℕ) (done : List Token) (indent : Int) (outer : List Int) :
    List Token → List Int → Prop
  | new (h : indent < column) : Opened t column done indent outer (t :: done) (indent :: outer)
  | old (h : indent = column) : Opened t column done indent outer done outer

section Indicators

variable {p q r : Place} {F G : List Char} {t : Token} {done done' : List Token} {indent : Int}
  {outer outer' : List Int} {column : ℕ} {allowed allowed' : Bool}

lemma Opened.le (h : Opened t column done indent outer done' outer') : indent ≤ column := by
  cases h with
  | new h => exact Int.le_of_lt h
  | old h => exact Int.le_of_eq h

lemma Opened.roll_eq (h : Opened t column done indent outer done' outer') (allowed : Bool) :
    (inBlock p F done indent outer allowed).roll column done.length t =
      inBlock p F done' column outer' allowed := by
  cases h with
  | new h => simp [roll, inBlock, inFlow, emitAt, h]
  | old h => simp [roll, inBlock, inFlow, h]

/-- An indicator and the space behind it are one step. -/
lemma step_indicator {a : Scan} {c : Char} (hrest : a.rest = p.glyphs (c :: ' ' :: F))
    (hc : isKept c = true) (hbreak : isBreak c = false) (hF : Kept F) (hopens : Opens F)
    (ht : t ≠ .streamEnd)
    (htake : a.takeNext = .ok (inBlock (p.next c) (' ' :: F) (t :: done) indent outer allowed))
    (hindent : indent ≤ p.column) :
    ∃ r : Place, r.column = p.column + 2 ∧
      Step a (inBlock r F (t :: done) indent outer allowed) := by
  have hrest' : Kept (' ' :: F) := kept_cons.mpr ⟨by decide, hF⟩
  have hcolumn : ((p.next c).after (spaces 1)).column = p.column + 2 := by
    rw [p.next_of_not_isBreak hbreak, Place.after_spaces]
  have hgap : gap false allowed false ((p.next c).glyphs (' ' :: F)) =
      (allowed, ((p.next c).after (spaces 1)).glyphs F) := by
    rw [← gap_opens hF hopens, ← gap_spaces]
    rfl
  refine ⟨_, hcolumn, ?_⟩
  have hstep := step_of_takeNext none hrest (kept_cons.mpr ⟨hc, hrest'⟩)
    (Nat.lt_succ_of_lt (Nat.lt_succ_self _))
    ht htake hF hrest' hgap (by simp)
  rw [unroll_of_le (by show indent ≤ _; omega)] at hstep
  exact hstep

/-- The hyphen of an item is taken; it opens the sequence if none is open. -/
lemma step_hyphen (h : Opened .blockSequenceStart p.column done indent outer done' outer')
    (hF : Kept F) (hopens : Opens F) :
    ∃ r : Place, r.column = p.column + 2 ∧ Step (inBlock p ('-' :: ' ' :: F) done indent outer true)
      (inBlock r F (.blockEntry :: done') p.column outer' true) := by
  have hkept : Kept ('-' :: ' ' :: F) := kept_cons.mpr ⟨by decide, kept_cons.mpr ⟨by decide, hF⟩⟩
  refine step_indicator rfl (by decide) (by decide) hF hopens (by simp) ?_ (Int.le_refl _)
  have htake : (inBlock p ('-' :: ' ' :: F) done indent outer true).takeNext =
      (inBlock p ('-' :: ' ' :: F) done indent outer true).blockEntry := by
    simp [takeNext, rest_inBlock, p.nextChar_glyphs hkept, p.charAt_glyphs hkept, isEnd, endMark,
      atMark, isGap, isBlank]
  have hroll := h.roll_eq (p := p) (F := '-' :: ' ' :: F) true
  rw [htake, blockEntry, if_neg (by simp [inBlock]), rest_inBlock, p.column_glyphs hkept]
  change Scan.dropKey (roll p.column done.length _ _) >>= _ = _
  rw [hroll, dropKey_eq free_inBlock]
  simp [inBlock, allowKey, skip, emit, p.glyphs_cons, bind, Except.bind, pure, Except.pure, isKept,
    isAllowed, nextLine]

/-- The question mark of a key is taken; it opens the mapping if none is open. -/
lemma step_question (h : Opened .blockMappingStart p.column done indent outer done' outer')
    (hF : Kept F) (hopens : Opens F) :
    ∃ r : Place, r.column = p.column + 2 ∧ Step (inBlock p ('?' :: ' ' :: F) done indent outer true)
      (inBlock r F (.key :: done') p.column outer' true) := by
  have hkept : Kept ('?' :: ' ' :: F) := kept_cons.mpr ⟨by decide, kept_cons.mpr ⟨by decide, hF⟩⟩
  refine step_indicator rfl (by decide) (by decide) hF hopens (by simp) ?_ (Int.le_refl _)
  have htake : (inBlock p ('?' :: ' ' :: F) done indent outer true).takeNext =
      (inBlock p ('?' :: ' ' :: F) done indent outer true).keyMark := by
    simp [takeNext, rest_inBlock, p.nextChar_glyphs hkept, p.charAt_glyphs hkept, isEnd, endMark,
      atMark, isGap, isBlank]
  have hroll := h.roll_eq (p := p) (F := '?' :: ' ' :: F) true
  rw [htake, keyMark, if_neg (by simp [inBlock]), rest_inBlock, p.column_glyphs hkept]
  change Scan.dropKey (roll p.column done.length _ _) >>= _ = _
  rw [hroll, dropKey_eq free_inBlock]
  simp [inBlock, inFlow, allowKey, skip, emit, p.glyphs_cons, bind, Except.bind, pure, Except.pure,
    isKept, isAllowed, nextLine]

/-- The colon behind a key that has a question mark is taken. -/
lemma step_colon (done : List Token) (outer : List Int) (hindent : indent = p.column) (hF : Kept F)
    (hopens : Opens F) :
    ∃ r : Place, r.column = p.column + 2 ∧ Step (inBlock p (':' :: ' ' :: F) done indent outer true)
      (inBlock r F (.value :: done) indent outer true) := by
  have hkept : Kept (':' :: ' ' :: F) := kept_cons.mpr ⟨by decide, kept_cons.mpr ⟨by decide, hF⟩⟩
  refine step_indicator rfl (by decide) (by decide) hF hopens (by simp) ?_ (Int.le_of_eq hindent)
  have htake : (inBlock p (':' :: ' ' :: F) done indent outer true).takeNext =
      (inBlock p (':' :: ' ' :: F) done indent outer true).valueMark := by
    simp [takeNext, rest_inBlock, p.nextChar_glyphs hkept, p.charAt_glyphs hkept, isEnd, endMark,
      atMark, isGap, isBlank]
  have hopened : Opened .blockMappingStart p.column done indent outer done outer := .old hindent
  have hroll := hopened.roll_eq (p := p) (F := ':' :: ' ' :: F) true
  have hmark : (inBlock p (':' :: ' ' :: F) done indent outer true).valueMark =
      let s := (inBlock p (':' :: ' ' :: F) done indent outer true).roll
        (column (p.glyphs (':' :: ' ' :: F))) done.length .blockMappingStart
      .ok (((s.allowKey !s.inFlow).skip 1).emit .value) := rfl
  rw [htake, hmark, p.column_glyphs hkept, hroll, hindent]
  simp [inBlock, inFlow, allowKey, skip, emit, p.glyphs_cons, isKept, isAllowed, nextLine]

end Indicators

/-! ## Simple keys -/

/-- What is written is taken as a scalar that is a simple key, if a colon follows: it stands on one
line, and it is short enough that the colon is seen as its own. -/
structure IsKey (W : List Char) (style : Style) (k : String) : Prop where
  kept : Kept W
  ne_nil : W ≠ []
  not_isBreak : ∀ c ∈ W, isBreak c = false
  length_le : W.length ≤ keyLimit
  takeNext_eq : ∀ (p : Place) {G : List Char} (done : List Token) {indent : Int} (outer : List Int),
    indent ≤ p.column → Kept G → gapFollows G = true →
    (inBlock p (W ++ ':' :: G) done indent outer true).takeNext =
      .ok { inBlock (p.after W) (':' :: G) (.scalar style k :: done) indent outer false with
        keyStart := some ⟨done.length, indent == p.column, p.index, p.line, p.column⟩ }

section SimpleKeys

variable {p q r : Place} {F G W : List Char} {t : Token} {done done' : List Token} {indent : Int}
  {outer outer' : List Int} {column : ℕ} {allowed' : Bool} {style : Style} {k : String}

/-- A text that a plain scalar can carry is a key, if it is short enough. -/
lemma isKey_of_plainCarries {s : List Char} (hne : s ≠ []) (hs : plainCarries s = true)
    (hlength : s.length ≤ keyLimit) : IsKey s .plain (String.ofList s) := by
  obtain ⟨hprint, -, hbreak, -⟩ := plainCarries_iff.mp hs
  refine ⟨.of_isPrintable hprint, hne, hbreak, hlength, ?_⟩
  intro p G done indent outer hp hG hgap
  have hread : plain false (indent + 1) s.reverse .none ((p.after s).glyphs (':' :: G)) = _ :=
    plain_colon hG hgap
  rw [List.reverse_reverse] at hread
  obtain ⟨c, htake⟩ := takeNext_plainText (p := p) done outer true hne hs
    (kept_cons.mpr ⟨by decide, hG⟩) rfl hp hread
  exact htake

/-- A simple key is one as it is written. -/
lemma isKey_writeText (hkey : isSimpleKey k = true) (hcolumn : 0 < column) :
    IsKey (writeText column k) (styleOf k) k := by
  obtain ⟨hliteral, hbreak, hlength⟩ := isSimpleKey_spec hkey column
  cases hstyle : styleOf k with
  | plain =>
    obtain ⟨hne, hcarries, -⟩ := styleOf_eq_plain hstyle
    have htext : writeText column k = k.toList := by simp [writeText, hstyle]
    rw [htext] at hlength ⊢
    have hk := isKey_of_plainCarries hne hcarries hlength
    rwa [String.ofList_toList] at hk
  | singleQuoted =>
    refine ⟨kept_writeText _ _, writeText_ne_nil _ _, hbreak, hlength, ?_⟩
    intro p G done indent outer _ hG _
    have hrest : Kept (':' :: G) := kept_cons.mpr ⟨by decide, hG⟩
    obtain ⟨c, htake⟩ :=
      takeNext_quotedText (p := p) done indent outer true hcolumn hrest rfl (.inl hstyle)
    rw [← hstyle]
    exact htake
  | doubleQuoted =>
    refine ⟨kept_writeText _ _, writeText_ne_nil _ _, hbreak, hlength, ?_⟩
    intro p G done indent outer _ hG _
    have hrest : Kept (':' :: G) := kept_cons.mpr ⟨by decide, hG⟩
    obtain ⟨c, htake⟩ :=
      takeNext_quotedText (p := p) done indent outer true hcolumn hrest rfl (.inr hstyle)
    rw [← hstyle]
    exact htake
  | literal => exact absurd hstyle hliteral
  | folded => exact absurd hstyle styleOf_ne_folded

/-- A simple key is a step to the colon behind it, where the key still reaches. -/
lemma step_key (done : List Token) (outer : List Int) (hkey : IsKey W style k)
    (hp : indent ≤ p.column) (hG : Kept G) (hgap : gapFollows G = true) :
    Step (inBlock p (W ++ ':' :: G) done indent outer true)
      { inBlock (p.after W) (':' :: G) (.scalar style k :: done) indent outer false with
        keyStart := some ⟨done.length, indent == p.column, p.index, p.line, p.column⟩ } := by
  have hrest : Kept (':' :: G) := kept_cons.mpr ⟨by decide, hG⟩
  have htake := hkey.takeNext_eq p done outer hp hG hgap
  have hplace := p.after_of_not_isBreak hkey.not_isBreak
  have hopens : Opens (':' :: G) := opens_cons.mpr (by decide)
  refine ⟨_, htake, by simp [isOver, inBlock], come_key hrest hopens ?_ ?_ ?_, ?_⟩
  · rw [hplace]
  · rw [hplace]
    exact Nat.add_le_add_left hkey.length_le _
  · rw [hplace]
    show indent ≤ ((p.column + W.length : ℕ) : Int)
    omega
  · have hpos := List.length_pos_of_ne_nil hkey.ne_nil
    have hkept := kept_append.mpr ⟨hkey.kept, hrest⟩
    show ((p.after _).glyphs _).length < (p.glyphs _).length
    rw [Place.length_glyphs _ hrest, p.length_glyphs hkept, List.length_append]
    omega

/-- At the colon behind a simple key, the place that was noted becomes that of a key. -/
lemma takeNext_colon (required : Bool) (index line : ℕ)
    (h : Opened .blockMappingStart column done indent outer done' outer') (hG : Kept G)
    (hgap : gapFollows G = true) :
    takeNext { inBlock p (':' :: G) (t :: done) indent outer false with
        keyStart := some ⟨done.length, required, index, line, column⟩ } =
      .ok (inBlock (p.next ':') G (.value :: t :: .key :: done') column outer' false) := by
  have hkept : Kept (':' :: G) := kept_cons.mpr ⟨by decide, hG⟩
  have hahead : isGap (charAt (p.glyphs (':' :: G)) 1) = true := by
    rw [p.charAt_glyphs_cons (by decide)]
    exact (Place.isGap_nextChar_glyphs _ hG).trans hgap
  generalize hs : { inBlock p (':' :: G) (t :: done) indent outer false with
    keyStart := some ⟨done.length, required, index, line, column⟩ } = s
  have htake : s.takeNext = s.valueMark := by
    subst hs
    simp only [inBlock]
    simp [takeNext, p.nextChar_glyphs hkept, hahead, isEnd, endMark, atMark]
  subst hs
  rw [htake]
  cases h with
  | new h =>
    have hlater : done.length + 1 + 1 - done.length = 2 := by omega
    simp [valueMark, inBlock, emitAt, roll, inFlow, h, allowKey, skip, emit, p.glyphs_cons, isKept,
      isAllowed, nextLine, hlater]
  | old h =>
    simp [valueMark, inBlock, emitAt, roll, inFlow, h, allowKey, skip, emit, p.glyphs_cons, isKept,
      isAllowed, nextLine]

/-- A simple key and its colon are two steps, if the value stands on the same line or deeper on the
next one. -/
lemma leads_key (hkey : IsKey W style k)
    (h : Opened .blockMappingStart p.column done indent outer done' outer') (hF : Kept F)
    (hG : Kept G) (hgapFollows : gapFollows G = true) (hlength : F.length < (':' :: G).length)
    (hgap : gap false false false (((p.after W).next ':').glyphs G) = (allowed', r.glyphs F))
    (hr : p.column ≤ r.column) :
    Leads (inBlock p (W ++ ':' :: G) done indent outer true)
      (inBlock r F (.value :: .scalar style k :: .key :: done') p.column outer' allowed') := by
  have hfirst := step_key done outer hkey h.le hG hgapFollows
  have htake := takeNext_colon (p := p.after W) (t := .scalar style k)
    (indent == p.column) p.index p.line h hG hgapFollows
  have hsecond := step_of_takeNext none rfl (kept_cons.mpr ⟨by decide, hG⟩) hlength
    (by simp) htake hF hG hgap (by simp)
  rw [unroll_of_le (by exact Int.ofNat_le.mpr hr)] at hsecond
  exact (Relation.ReflTransGen.single hfirst).tail hsecond

end SimpleKeys

/-! ## Empty collections -/

/-- A scan of a text that begins behind the opening bracket of a collection in a block: the place
where the collection may begin a key is put aside. -/
def inBracket (p : Place) (F : List Char) (done : List Token) (indent : Int) (outer : List Int)
    (k : Option KeyStart) : Scan :=
  { rest := p.glyphs F, done, indent, outer, outerKeys := [k], keyAllowed := true }

section Empty

variable {p : Place} {F : List Char} {done : List Token} {indent : Int} {outer : List Int}
  {allowed : Bool} {o c : Char} {t u : Token} {k : Option KeyStart}

/-- Behind the bracket nothing is passed over, and a place that still reaches there is kept. -/
lemma come_inBracket (hF : Kept F) (hopens : Opens F)
    (hfresh : ∀ x ∈ k, ∀ d, isStale (p.glyph d) x = false) :
    come (inBracket p F done indent outer k) = .ok (inBracket p F done indent outer k) := by
  obtain ⟨d, l, hl, -⟩ := p.exists_glyphs_cons hF
  have hkeep : freshAt (p.glyph d) k = k := by
    cases k with
    | none => rfl
    | some x => simp [freshAt, hfresh x rfl d]
  have hreaches : ∀ x ∈ [none, k], Reaches x (p.glyph d) := by
    simpa [Reaches] using fun x hx _ => hfresh x hx d
  have hgap : gap true true false (p.glyph d :: l) = (true, p.glyph d :: l) := by
    rw [← hl]
    exact gap_opens hF hopens
  have hcome := come_eq (s := inBracket p F done indent outer k) (g := p.glyph d)
    (h := p.glyph d) (l := l) (m := l) hl hgap fun x hx => ⟨hreaches x hx, hreaches x hx⟩
  rw [unroll_of_inFlow (by simp [inFlow, inBracket]), ← hl] at hcome
  refine hcome.trans ?_
  simp [inBracket, hkeep]

/-- The opening bracket; the place of a key that has been noted is put aside. -/
lemma step_opening (done : List Token) (indent : Int) (outer : List Int) (allowed : Bool)
    (ho : Opening o t) (hF : Kept F) (hopens : Opens F) :
    Step (inBlock p (o :: F) done indent outer allowed)
      (inBracket (p.next o) F (t :: done) indent outer
        ((inBlock p (o :: F) done indent outer allowed).noted (p.glyph o))) := by
  have hkept : isKept o = true := by cases ho <;> decide
  have hbreak : isBreak o = false := by cases ho <;> decide
  have htake := takeNext_opening (s := inBlock p (o :: F) done indent outer allowed) ho rfl
    free_inBlock
  refine ⟨_, htake, by cases ho <;> rfl, come_inBracket hF hopens ?_, ?_⟩
  · intro x hx d
    obtain ⟨-, rfl⟩ := mem_noted_inBlock hx
    simp only [isStale, Place.glyph, p.next_of_not_isBreak hbreak, keyLimit, Nat.lt_irrefl,
      decide_false, Bool.false_or, decide_eq_false_iff_not]
    omega
  · show ((p.next o).glyphs F).length < (p.glyphs (o :: F)).length
    rw [Place.length_glyphs _ hF, p.length_glyphs (kept_cons.mpr ⟨hkept, hF⟩)]
    exact Nat.lt_succ_self _

/-- The closing bracket and the line behind it, where the collection can no longer be a key. -/
lemma step_closing (done : List Token) (outer : List Int) (hc : Closing c u) (n : ℕ) (hF : Kept F)
    (hopens : Opens F) (hk : ∀ x ∈ k, x.required = false ∧ x.line ≤ p.line) :
    ∃ r : Place, r.column = n ∧
      Step (inBracket p (c :: '\n' :: (spaces n ++ F)) done indent outer k)
        ((inBlock r F (u :: done) indent outer true).unroll n) := by
  have hkept : isKept c = true := by cases hc <;> decide
  have hbreak : isBreak c = false := by cases hc <;> decide
  have hline := kept_newLine hF n
  have htake := takeNext_closing (p := p) (F := '\n' :: (spaces n ++ F))
    (s := inBracket p (c :: '\n' :: (spaces n ++ F)) done indent outer k) hc rfl nofun rfl
  have hgap : gap false false false ((p.next c).glyphs ('\n' :: (spaces n ++ F))) = _ :=
    gap_newLine hF hopens n
  have hcolumn : ((p.next c).after ('\n' :: spaces n)).column = n := by
    rw [Place.after_break_spaces _ (by decide)]
  have hnext : p.line < ((p.next c).after ('\n' :: spaces n)).line := by
    rw [Place.after_break_spaces _ (by decide), p.next_of_not_isBreak hbreak]
    exact Nat.lt_succ_self _
  generalize (p.next c).after ('\n' :: spaces n) = r at hgap hcolumn hnext
  have hstep := step_of_takeNext k rfl (kept_cons.mpr ⟨hkept, hline⟩) (by simp; omega)
    (by cases hc <;> simp) htake hF hline hgap
    fun x hx => ⟨(hk x hx).1, Nat.lt_of_le_of_lt (hk x hx).2 hnext⟩
  rw [hcolumn] at hstep
  exact ⟨r, hcolumn, hstep⟩

/-- The two brackets of an empty collection, and the line behind them. -/
lemma leads_empty (ho : Opening o t) (hc : Closing c u) (hp : indent < p.column) (n : ℕ)
    (hF : Kept F) (hopens : Opens F) :
    ∃ r : Place, r.column = n ∧
      Leads (inBlock p (o :: c :: '\n' :: (spaces n ++ F)) done indent outer allowed)
        ((inBlock r F (u :: t :: done) indent outer true).unroll n) := by
  have hbreak : isBreak o = false := by cases ho <;> decide
  have hclose : Kept (c :: '\n' :: (spaces n ++ F)) :=
    kept_cons.mpr ⟨by cases hc <;> decide, kept_newLine hF n⟩
  have hopensClose : Opens (c :: '\n' :: (spaces n ++ F)) := by
    rw [opens_cons]
    cases hc <;> decide
  have hfirst := step_opening (p := p) done indent outer allowed ho hclose hopensClose
  have hnoted : ∀ x ∈ (inBlock p (o :: c :: '\n' :: (spaces n ++ F)) done indent outer
      allowed).noted (p.glyph o), x.required = false ∧ x.line ≤ (p.next o).line := by
    intro x hx
    obtain ⟨-, rfl⟩ := mem_noted_inBlock hx
    rw [p.next_of_not_isBreak hbreak]
    exact ⟨beq_eq_false_iff_ne.mpr (Int.ne_of_lt hp), Nat.le_refl _⟩
  obtain ⟨r, hr, hsecond⟩ := step_closing (t :: done) outer hc n hF hopens hnoted
  exact ⟨r, hr, (Relation.ReflTransGen.single hfirst).tail hsecond⟩

end Empty

end ConfigRegistry.Yaml.Scan
