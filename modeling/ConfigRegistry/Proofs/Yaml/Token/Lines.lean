/-
# Tokens of mappings that are written line by line

A mapping in block style is a list of entries that begin in one column.  An entry has its key and
its value on one line, or its value is a mapping of its own, on lines that are indented deeper
(`EntryLines`).  Here a word needs no quotes, neither as a key nor as a value, other texts may have
double quotes, and whatever else stands behind a key is written as the printer writes it.  Spaces
may follow a text, and empty lines and comments may stand between the lines.

The scanner is followed along such lines as it is along a printed tree.  What is said of an entry
does not depend on what the entry is (`Scan.ReadsAt`), so it is said of lists of entries by going
along the list, and of nested entries by going down the tree.
-/
import ConfigRegistry.Proofs.Yaml.Scalar.Json
import ConfigRegistry.Proofs.Yaml.Scalar.Word
import ConfigRegistry.Proofs.Yaml.Token.Tree

namespace ConfigRegistry.Yaml

/-! ## Lines -/

/-- A key on the line of which a colon follows: a word, or a text as the printer writes it. -/
inductive LineKey
  | word (w : BareWord) (short : w.text.toList.length ≤ Scan.keyLimit)
  | printed (k : String) (simple : isSimpleKey k = true)

namespace LineKey

/-- The text of a key. -/
def name : LineKey → String
  | word w _ => w.text
  | printed k _ => k

/-- The style of a key. -/
def style : LineKey → Style
  | word _ _ => .plain
  | printed k _ => styleOf k

/-- A key as it is written in an entry that begins at a column. -/
def chars (column : ℕ) : LineKey → List Char
  | word w _ => w.text.toList
  | printed k _ => writeText (column + 2) k

end LineKey

/-- A text on the line of its key: a word, or any text between double quotes that is read as
itself. -/
inductive LineText
  | word (w : BareWord)
  | quoted (s : String) (carries : jsonTextCarries s = true)

namespace LineText

/-- The text itself. -/
def text : LineText → String
  | word w => w.text
  | quoted s _ => s

/-- The style of a text. -/
def style : LineText → Style
  | word _ => .plain
  | quoted _ _ => .doubleQuoted

/-- A text as it is written. -/
def chars : LineText → List Char
  | word w => w.text.toList
  | quoted s _ => Json.printString s

end LineText

/-- A value behind its key: a text on the same line, behind any number of spaces but at least one,
with the margin that follows it, or a tree as the printer writes it. -/
inductive LineValue
  | text (gap : ℕ) (t : LineText) (margin : Margin)
  | printed (j : Json) (numberless : j.Numberless)

namespace LineValue

/-- The colon of a key, the value behind it, and what is before the next line with a token. -/
def chars (column : ℕ) : LineValue → List Char
  | text gap t margin => ':' :: (spaces (gap + 1) ++ (t.chars ++ margin.chars))
  | printed j _ => besideLead column j ++ (print (besideColumn column j) j ++
      lineAfter (print (besideColumn column j) j) 0)

/-- The tokens of a value. -/
def tokens : LineValue → List Token
  | text _ t _ => [.scalar t.style t.text]
  | printed j _ => blockTokens false j

end LineValue

/-- An entry of a mapping, line by line.  The entries of a value that is a mapping begin deeper than
the key, by one column and some more. -/
inductive EntryLines
  | line (key : LineKey) (value : LineValue)
  | block (key : LineKey) (margin : Margin) (deeper : ℕ) (first : EntryLines)
      (more : List EntryLines)

namespace EntryLines

/-- The key of an entry. -/
def key : EntryLines → LineKey
  | line key _ => key
  | block key _ _ _ _ => key

mutual

/-- The lines of an entry whose key begins at a column. -/
def chars (column : ℕ) : EntryLines → List Char
  | line key value => key.chars column ++ value.chars column
  | block key margin deeper first more => key.chars column ++ ':' :: (margin.chars ++
      (spaces (column + 1 + deeper) ++ (first.chars (column + 1 + deeper) ++
        charsAll (column + 1 + deeper) more)))

/-- The lines of entries whose keys begin at a column. -/
def charsAll (column : ℕ) : List EntryLines → List Char
  | [] => []
  | e :: es => spaces column ++ (e.chars column ++ charsAll column es)

end

mutual

/-- The tokens of an entry. -/
def tokens : EntryLines → List Token
  | line key value => .key :: .scalar key.style key.name :: .value :: value.tokens
  | block key _ _ first more => .key :: .scalar key.style key.name :: .value ::
      .blockMappingStart :: (first.tokens ++ tokensAll more ++ [.blockEnd])

/-- The tokens of entries. -/
def tokensAll : List EntryLines → List Token
  | [] => []
  | e :: es => e.tokens ++ tokensAll es

end

/-- The text of a document that is a mapping, below some idle lines. -/
def document (idle : List IdleLine) (entries : List EntryLines) : String :=
  String.ofList (idleChars idle ++ charsAll 0 entries)

end EntryLines

/-! ## Keys and values -/

lemma lineAfter_eq (s : List Char) (n : ℕ) : lineAfter s n = lineAfter s 0 ++ spaces n := by
  simp [lineAfter, spaces]

lemma LineKey.isKey (key : LineKey) (column : ℕ) :
    Scan.IsKey (key.chars column) key.style key.name := by
  cases key with
  | word w short =>
    have hw := Scan.isKey_of_plainCarries w.ne_nil w.plainCarries short
    rwa [String.ofList_toList] at hw
  | printed k simple => exact Scan.isKey_writeText simple (Nat.succ_pos _)

lemma LineKey.opens_append (key : LineKey) (column : ℕ) (F : List Char) :
    Opens (key.chars column ++ F) := by
  cases key with
  | word w short => exact w.opens_append F
  | printed k simple => exact opens_writeText_append _ k F

lemma LineText.kept_chars (t : LineText) : Kept t.chars := by
  cases t with
  | word w => exact w.kept
  | quoted s carries =>
    rw [chars, printString_eq]
    exact kept_cons.mpr ⟨by decide, kept_append.mpr ⟨(jsonTextCarries_iff.mp carries).kept,
      kept_cons.mpr ⟨by decide, kept_nil⟩⟩⟩

lemma LineText.opens_append (t : LineText) (F : List Char) : Opens (t.chars ++ F) := by
  cases t with
  | word w => exact w.opens_append F
  | quoted s carries =>
    rw [chars, printString_eq, List.cons_append, opens_cons]
    decide

lemma LineValue.kept_chars (v : LineValue) (column : ℕ) : Kept (v.chars column) := by
  cases v with
  | text gap t margin =>
    exact kept_cons.mpr ⟨by decide, kept_append.mpr ⟨kept_spaces _,
      kept_append.mpr ⟨t.kept_chars, margin.kept_chars⟩⟩⟩
  | printed j hj =>
    have hlead : Kept (besideLead column j) := by
      rw [Scan.besideLead_eq]
      exact kept_cons.mpr ⟨by decide, Scan.kept_besideGap column j⟩
    exact kept_append.mpr ⟨hlead, kept_append.mpr ⟨kept_print j hj _, kept_lineAfter _ _⟩⟩

namespace Scan

section Lines

variable {p : Place} {F W : List Char} {done done' : List Token} {indent : Int}
  {outer outer' : List Int} {column n : ℕ} {style : Style} {k : String}

/-- A text and the margin behind it are one step. -/
lemma step_lineText (done : List Token) (outer : List Int) (allowed : Bool) (t : LineText)
    (m : Margin) (hF : Kept F) (hopens : Opens F) (hp : indent < p.column) (hn : n ≤ indent) :
    ∃ r : Place, r.column = n ∧
      Step (inBlock p (t.chars ++ (m.chars ++ (spaces n ++ F))) done indent outer allowed)
        ((inBlock r F (.scalar t.style t.text :: done) indent outer true).unroll n) := by
  cases t with
  | word w =>
    have hstep :=
      step_plainText (p := p) done outer allowed w.ne_nil w.plainCarries m hF hopens hp hn
    rwa [String.ofList_toList] at hstep
  | quoted s carries =>
    have hrest := m.kept_append hF n
    have htake := takeNext_doubleQuoted (p := p)
      (F := jsonBody s.toList ++ '"' :: (m.chars ++ (spaces n ++ F)))
      (s := inBlock p (Json.printString s ++ (m.chars ++ (spaces n ++ F))) done indent outer
        allowed)
      (by rw [rest_inBlock, printString_eq]; simp) free_inBlock
      (doubleQuoted_printString carries hrest)
    exact step_quoted (LineText.quoted s carries).kept_chars (by simp) m hF hopens hp n htake

/-- A key and a text on its line. -/
lemma leads_lineText (hkey : IsKey W style k) (gap : ℕ) (t : LineText) (m : Margin)
    (h : Opened .blockMappingStart p.column done indent outer done' outer') (hn : n ≤ p.column)
    (hF : Kept F) (hopens : Opens F) :
    ∃ r : Place, r.column = n ∧
      Leads (inBlock p (W ++ ':' :: (spaces (gap + 1) ++ (t.chars ++
          (m.chars ++ (spaces n ++ F))))) done indent outer true)
        ((inBlock r F ((Token.key :: .scalar style k :: .value ::
          [.scalar t.style t.text]).reverse ++ done') p.column outer' true).unroll n) := by
  have htext : Kept (t.chars ++ (m.chars ++ (spaces n ++ F))) :=
    kept_append.mpr ⟨t.kept_chars, m.kept_append hF n⟩
  set q := ((p.after W).next ':').after (spaces (gap + 1)) with hq
  have hcolumn : q.column = p.column + W.length + 1 + (gap + 1) := by
    rw [hq, Place.after_spaces, p.after_of_not_isBreak hkey.not_isBreak,
      Place.next_of_not_isBreak _ (by decide)]
  have hgap : Scan.gap false false false (((p.after W).next ':').glyphs
      (spaces (gap + 1) ++ (t.chars ++ (m.chars ++ (spaces n ++ F))))) =
      (false, q.glyphs (t.chars ++ (m.chars ++ (spaces n ++ F)))) := by
    rw [gap_spaces, gap_opens htext (t.opens_append _)]
  have hbeside := leads_key hkey h htext (kept_append.mpr ⟨kept_spaces _, htext⟩) rfl
    (by simp only [List.length_cons, List.length_append]; omega) hgap (by omega)
  obtain ⟨r, hr, hvalue⟩ := step_lineText (p := q) (.value :: .scalar style k :: .key :: done')
    outer' false t m hF hopens (show (p.column : Int) < q.column by omega) (Int.ofNat_le.mpr hn)
  exact ⟨r, hr, hbeside.tail hvalue⟩

/-! ## Entries -/

/-- Lines that begin at a column are read as an entry of a mapping: they lead to what follows them,
whether the mapping has been opened before or not. -/
structure ReadsAt (column : ℕ) (W : List Char) (ts : List Token) : Prop where
  kept : Kept W
  opens : ∀ F, Opens (W ++ F)
  leads : ∀ {p : Place} {F : List Char} {done done' : List Token} {indent : Int}
    {outer outer' : List Int} {n : ℕ}, p.column = column →
    Opened .blockMappingStart p.column done indent outer done' outer' → n ≤ column → Kept F →
    Opens F →
    ∃ r : Place, r.column = n ∧
      Leads (inBlock p (W ++ (spaces n ++ F)) done indent outer true)
        ((inBlock r F (ts.reverse ++ done') column outer' true).unroll n)

/-- A key and a value that is no mapping of its own. -/
lemma readsAt_line (key : LineKey) (value : LineValue) (column : ℕ) :
    ReadsAt column ((EntryLines.line key value).chars column)
      (EntryLines.line key value).tokens where
  kept := kept_append.mpr ⟨(key.isKey column).kept, value.kept_chars column⟩
  opens F := by
    rw [EntryLines.chars, List.append_assoc]
    exact key.opens_append column _
  leads {p F done done' indent outer outer' n} hp h hn hF hopens := by
    subst hp
    have hkey := key.isKey p.column
    cases value with
    | text gap t margin =>
      have hleads := leads_lineText hkey gap t margin h hn hF hopens
      simpa [EntryLines.chars, EntryLines.tokens, LineValue.chars, LineValue.tokens] using hleads
    | printed j hj =>
      have hleads := leads_keyed hkey hj (reads_print j hj) h hn hF hopens
      rw [lineAfter_eq] at hleads
      simpa [EntryLines.chars, EntryLines.tokens, LineValue.chars, LineValue.tokens] using hleads

/-- The lines of an entry are read at a column. -/
abbrev EntryReadsAt (column : ℕ) (e : EntryLines) : Prop :=
  ReadsAt column (e.chars column) e.tokens

lemma kept_charsAll {es : List EntryLines} (h : ∀ e ∈ es, EntryReadsAt column e) :
    Kept (EntryLines.charsAll column es) := by
  induction es with
  | nil => exact kept_nil
  | cons e es ih =>
    obtain ⟨he, hes⟩ := List.forall_mem_cons.mp h
    exact kept_append.mpr ⟨kept_spaces _, kept_append.mpr ⟨he.kept, ih hes⟩⟩

/-- Entries are read one after another; the first one opens the mapping if none is open. -/
lemma leads_entryLines {e : EntryLines} {es : List EntryLines}
    (h : ∀ x ∈ e :: es, EntryReadsAt column x) (hp : p.column = column)
    (hopened : Opened .blockMappingStart p.column done indent outer done' outer') (hn : n ≤ column)
    (hF : Kept F) (hopens : Opens F) :
    ∃ r : Place, r.column = n ∧
      Leads (inBlock p (e.chars column ++ (EntryLines.charsAll column es ++ (spaces n ++ F))) done
          indent outer true)
        ((inBlock r F ((EntryLines.tokensAll (e :: es)).reverse ++ done') column outer'
          true).unroll n) := by
  induction es generalizing e p done indent outer done' outer' with
  | nil =>
    obtain ⟨r, hr, hleads⟩ := (h e List.mem_cons_self).leads hp hopened hn hF hopens
    exact ⟨r, hr, by simpa [EntryLines.charsAll, EntryLines.tokensAll] using hleads⟩
  | cons e₂ es ih =>
    obtain ⟨he, hes⟩ := List.forall_mem_cons.mp h
    have he₂ := hes e₂ List.mem_cons_self
    have hrest : Kept (e₂.chars column ++ (EntryLines.charsAll column es ++ (spaces n ++ F))) :=
      kept_append.mpr ⟨he₂.kept, kept_append.mpr ⟨kept_charsAll fun x hx => hes x (.tail _ hx),
        kept_append.mpr ⟨kept_spaces n, hF⟩⟩⟩
    obtain ⟨q, hq, hfirst⟩ := he.leads hp hopened (Nat.le_refl _) hrest (he₂.opens _)
    rw [unroll_inBlock_of_le (Int.le_refl _)] at hfirst
    obtain ⟨r, hr, hmore⟩ := ih (p := q) hes hq (.old (congrArg _ hq.symm))
    refine ⟨r, hr, ?_⟩
    simp only [EntryLines.charsAll, EntryLines.tokensAll, List.reverse_append, List.append_assoc]
      at hfirst hmore ⊢
    exact hfirst.trans hmore

/-- A key whose value is a mapping on lines of its own. -/
lemma readsAt_block (key : LineKey) (margin : Margin) (deeper : ℕ) {first : EntryLines}
    {more : List EntryLines}
    (h : ∀ e ∈ first :: more, EntryReadsAt (column + 1 + deeper) e) :
    EntryReadsAt column (.block key margin deeper first more) where
  kept := by
    obtain ⟨hfirst, hmore⟩ := List.forall_mem_cons.mp h
    refine kept_append.mpr ⟨(key.isKey column).kept, kept_cons.mpr ⟨by decide, ?_⟩⟩
    exact margin.kept_append (kept_append.mpr ⟨hfirst.kept, kept_charsAll hmore⟩) _
  opens F := by
    rw [EntryLines.chars, List.append_assoc]
    exact key.opens_append column _
  leads {p F done done' indent outer outer' n} hp hopened hn hF hopens := by
    subst hp
    obtain ⟨hfirst, hmore⟩ := List.forall_mem_cons.mp h
    have hkey := key.isKey p.column
    set depth := p.column + 1 + deeper with hdepth
    set lines := first.chars depth ++ (EntryLines.charsAll depth more ++ (spaces n ++ F))
      with hlines
    have hkept : Kept lines := kept_append.mpr ⟨hfirst.kept, kept_append.mpr ⟨kept_charsAll hmore,
      kept_append.mpr ⟨kept_spaces n, hF⟩⟩⟩
    set q := (((p.after (key.chars p.column)).next ':').after margin.chars).after (spaces depth)
      with hq
    have hcolumn : q.column = depth := Place.column_after_margin _ margin depth
    have hbeside := leads_key hkey hopened hkept (margin.kept_append hkept depth)
      (margin.gapFollows_append _) (by simp only [List.length_cons, List.length_append]; omega)
      (gap_margin margin depth hkept (hfirst.opens _)) (show p.column ≤ q.column by omega)
    obtain ⟨r, hr, hentries⟩ := leads_entryLines (p := q) (n := n) h hcolumn
      (.new (show (p.column : Int) < q.column by omega)) (by omega) hF hopens
    rw [unroll_inBlock_cons (by omega)] at hentries
    refine ⟨r, hr, ?_⟩
    have hleads := hbeside.trans hentries
    simpa [hlines, EntryLines.chars, EntryLines.tokens, EntryLines.tokensAll] using hleads

mutual

/-- The lines of an entry are read at whatever column they begin. -/
theorem entryReadsAt : (e : EntryLines) → (column : ℕ) → EntryReadsAt column e
  | .line key value, column => readsAt_line key value column
  | .block key margin deeper first more, _ =>
    readsAt_block key margin deeper (List.forall_mem_cons.mpr
      ⟨entryReadsAt first _, entriesReadAt more _⟩)

lemma entriesReadAt : (es : List EntryLines) → (column : ℕ) → ∀ e ∈ es, EntryReadsAt column e
  | [], _ => by simp
  | e :: es, column => List.forall_mem_cons.mpr ⟨entryReadsAt e column, entriesReadAt es column⟩

end

/-! ## Documents -/

/-- The tokens of a document that is a mapping, line by line. -/
theorem tokens_document (idle : List IdleLine) (first : EntryLines) (more : List EntryLines) :
    Token.ofText (EntryLines.document idle (first :: more)).toList =
      .blockMappingStart :: (EntryLines.tokensAll (first :: more) ++ [.blockEnd, .streamEnd]) := by
  have hentries := entriesReadAt (first :: more) 0
  set lines := EntryLines.charsAll 0 (first :: more) with hlines
  have htext : lines = first.chars 0 ++ (EntryLines.charsAll 0 more ++ (spaces 0 ++ [])) := by
    simp [hlines, EntryLines.charsAll, spaces]
  have hkept : Kept lines := kept_charsAll hentries
  have hopens : Opens lines := htext ▸ (hentries first List.mem_cons_self).opens _
  have hcolumn : (Place.start.after (idleChars idle)).column = 0 :=
    Place.column_after_idleChars rfl idle
  have hopened : Opened .blockMappingStart (Place.start.after (idleChars idle)).column [] (-1) []
      [.blockMappingStart] [-1] := .new (by omega)
  obtain ⟨r, hr, hleads⟩ := leads_entryLines (n := 0) hentries hcolumn hopened (Nat.zero_le _)
    kept_nil opens_nil
  rw [unroll_inBlock_of_le (Int.le_refl _), ← htext] at hleads
  rw [EntryLines.document, String.toList_ofList,
    tokens_of_idle idle hkept hopens hleads takeNext_end rfl]
  simp [inBlock]

end Lines

end Scan

end ConfigRegistry.Yaml
