/-
# Tokens of printed trees

The tokens of a printed tree are those of its scalars, its indicators and its blocks
(`blockTokens`).  The proof goes along the tree, and says of every part of the text what the scanner
has found when it comes to the first token behind it (`Scan.Reads`): the tokens of that part, and no
open block but those that were open before.
-/
import ConfigRegistry.Proofs.Yaml.Printer
import ConfigRegistry.Proofs.Yaml.Token.Block

namespace ConfigRegistry.Yaml

open Json (Numberless NumberlessItems NumberlessMembers)

/-! ## The tokens -/

mutual

/-- The tokens of a tree in block style.  No token tells where a sequence begins that is not
indented. -/
def blockTokens (indented : Bool) : Json → List Token
  | .null => [.scalar .plain "null"]
  | .bool true => [.scalar .plain "true"]
  | .bool false => [.scalar .plain "false"]
  | .number n => [.scalar .plain (String.ofList (writeNumber n))]
  | .string s => [.scalar (styleOf s) s]
  | .array items =>
    if items.isEmpty then [.flowSequenceStart, .flowSequenceEnd]
    else if indented then .blockSequenceStart :: itemTokens items ++ [.blockEnd]
    else itemTokens items
  | .object members =>
    if members.isEmpty then [.flowMappingStart, .flowMappingEnd]
    else .blockMappingStart :: entryTokens members ++ [.blockEnd]

/-- The tokens of the items of a sequence. -/
def itemTokens : List Json → List Token
  | [] => []
  | x :: xs => .blockEntry :: blockTokens true x ++ itemTokens xs

/-- The tokens of the entries of a mapping. -/
def entryTokens : List (String × Json) → List Token
  | [] => []
  | (k, v) :: ms =>
    .key :: .scalar (styleOf k) k :: .value :: blockTokens (!isSimpleKey k) v ++ entryTokens ms

end

lemma blockTokens_array {items : List Json} (h : items ≠ []) :
    blockTokens true (.array items) = .blockSequenceStart :: (itemTokens items ++ [.blockEnd]) := by
  simp [blockTokens, h]

lemma blockTokens_indentless {items : List Json} (h : items ≠ []) :
    blockTokens false (.array items) = itemTokens items := by
  simp [blockTokens, h]

lemma blockTokens_object {members : List (String × Json)} (h : members ≠ []) (indented : Bool) :
    blockTokens indented (.object members) =
      .blockMappingStart :: (entryTokens members ++ [.blockEnd]) := by
  simp [blockTokens, h]

namespace Scan

section Trees

variable {p q r : Place} {F G W : List Char} {done done' : List Token} {indent : Int}
  {outer outer' : List Int} {allowed indented : Bool} {column n : ℕ} {j v x : Json}
  {style : Style} {k : String}

/-! ## Where a tree stands -/

/-- A tree stands at a place in a block: its lines but for the first one begin at a column.  The
entries of a collection all begin there, deeper than the block around them; only the items of a
sequence that is not indented begin where the entries of that block do. -/
inductive Stands (p : Place) (indent : Int) : Json → ℕ → Bool → Bool → Prop
  | leaf {j : Json} {indented allowed : Bool} (hj : hasEntries j = false) (h : indent < p.column) :
    Stands p indent j (indent.toNat + 2) indented allowed
  | array {items : List Json} (hne : items ≠ []) (h : indent < p.column) :
    Stands p indent (.array items) p.column true true
  | indentless {items : List Json} (hne : items ≠ []) (h : indent = p.column) :
    Stands p indent (.array items) p.column false true
  | object {members : List (String × Json)} {indented : Bool} (hne : members ≠ [])
      (h : indent < p.column) :
    Stands p indent (.object members) p.column indented true

/-- Behind an indicator a tree begins two columns deeper. -/
lemma stands_behind (j : Json) (hr : r.column = n + 2) : Stands r n j (n + 2) true true := by
  have hlt : (n : Int) < r.column := by omega
  cases h : hasEntries j with
  | false => exact .leaf h hlt
  | true =>
    rw [← hr]
    cases j with
    | array items => exact .array (by simpa [hasEntries] using h) hlt
    | object members => exact .object (by simpa [hasEntries] using h) hlt
    | null | bool _ | number _ | string _ => cases h

/-- Behind a simple key a tree begins on the same line, or on a line of its own. -/
lemma stands_beside (h : if hasEntries v then r.column = besideColumn n v else n < r.column) :
    Stands r n v (besideColumn n v) false (hasEntries v) := by
  cases hv : hasEntries v with
  | false =>
    have hcolumn : besideColumn n v = n + 2 := by
      cases v with
      | array items =>
        cases items with
        | nil => rfl
        | cons x xs => cases hv
      | object _ | null | bool _ | number _ | string _ => rfl
    rw [hcolumn]
    rw [hv, if_neg Bool.false_ne_true] at h
    exact .leaf hv (Int.ofNat_lt.mpr h)
  | true =>
    rw [if_pos hv] at h
    cases v with
    | array items =>
      cases items with
      | nil => cases hv
      | cons x xs =>
        rw [← h]
        exact .indentless (by simp) (by simp [h, besideColumn])
    | object members =>
      rw [← h]
      exact .object (by simpa [hasEntries] using hv) (by rw [h]; simp only [besideColumn]; omega)
    | null | bool _ | number _ | string _ => cases hv

/-- The text of a tree and the line behind it lead to what follows them, wherever the tree
stands. -/
def Reads (j : Json) : Prop :=
  ∀ (done : List Token) (outer : List Int) ⦃p : Place⦄ ⦃F : List Char⦄ ⦃indent : Int⦄
    ⦃column : ℕ⦄ ⦃indented allowed : Bool⦄ ⦃n : ℕ⦄, Stands p indent j column indented allowed →
    n ≤ indent → Kept F → Opens F →
    ∃ r : Place, r.column = n ∧
      Leads (inBlock p (print column j ++ (lineAfter (print column j) n ++ F)) done indent outer
          allowed)
        ((inBlock r F ((blockTokens indented j).reverse ++ done) indent outer true).unroll n)

/-! ## Scalars and empty collections -/

/-- A word that is written plain is read. -/
lemma reads_word {s : List Char} (hs : plainCarries s = true) (hne : s ≠ [])
    (hbreak : endsWith isBreak s = false) (hj : hasEntries j = false)
    (hprint : ∀ column, print column j = s)
    (htokens : ∀ indented, blockTokens indented j = [.scalar .plain (String.ofList s)]) :
    Reads j := by
  intro done outer p F indent column indented allowed n hstands hn hF hopens
  have hp : indent < p.column := by cases hstands <;> simp_all [hasEntries]
  rw [hprint, htokens, lineAfter, hbreak, if_neg Bool.false_ne_true, List.append_assoc,
    List.singleton_append]
  obtain ⟨r, hr, hstep⟩ :=
    step_plainText (p := p) done outer allowed hne hs .newLine hF hopens hp hn
  exact ⟨r, hr, .single hstep⟩

lemma reads_string (s : String) : Reads (.string s) := by
  intro done outer p F indent column indented allowed n hstands hn hF hopens
  cases hstands with
  | leaf _ hp =>
    obtain ⟨r, hr, hstep⟩ := step_text (s := s) done outer allowed rfl hp hn hF hopens
    exact ⟨r, hr, .single hstep⟩

lemma reads_empty {o c : Char} {t u : Token} (ho : Opening o t) (hc : Closing c u)
    (hj : hasEntries j = false) (hprint : ∀ column, print column j = [o, c])
    (htokens : ∀ indented, blockTokens indented j = [t, u]) : Reads j := by
  intro done outer p F indent column indented allowed n hstands hn hF hopens
  have hp : indent < p.column := by cases hstands <;> simp_all [hasEntries]
  have hbreak : isBreak c = false := by cases hc <;> decide
  have hline : lineAfter [o, c] n = '\n' :: spaces n := by simp [lineAfter, endsWith, hbreak]
  rw [hprint, htokens, hline]
  exact leads_empty ho hc hp n hF hopens

/-! ## Sequences -/

/-- An item of a sequence is read; its hyphen opens the sequence if none is open. -/
lemma leads_item (hx : x.Numberless) (hreads : Reads x)
    (h : Opened .blockSequenceStart p.column done indent outer done' outer') (hn : n ≤ p.column)
    (hF : Kept F) (hopens : Opens F) :
    ∃ r : Place, r.column = n ∧
      Leads (inBlock p (itemText p.column x ++ (lineAfter (itemText p.column x) n ++ F)) done indent
          outer true)
        ((inBlock r F ((Token.blockEntry :: blockTokens true x).reverse ++ done') p.column outer'
          true).unroll n) := by
  have hline : lineAfter (itemText p.column x) n = lineAfter (print (p.column + 2) x) n :=
    lineAfter_append ['-', ' '] (print_ne_nil hx _) n
  have hkept : Kept (print (p.column + 2) x ++ (lineAfter (print (p.column + 2) x) n ++ F)) :=
    kept_append.mpr ⟨kept_print x hx _, kept_append.mpr ⟨kept_lineAfter _ _, hF⟩⟩
  obtain ⟨q, hq, hhyphen⟩ := step_hyphen h hkept (opens_print_append hx _ _)
  obtain ⟨r, hr, hitem⟩ := hreads (.blockEntry :: done') outer' (stands_behind x hq)
    (Int.ofNat_le.mpr hn) hF hopens
  refine ⟨r, hr, ?_⟩
  rw [hline, List.reverse_cons, List.append_assoc]
  exact .head hhyphen hitem

/-- The items of a sequence are read. -/
lemma leads_printItems : (items : List Json) → items ≠ [] → NumberlessItems items →
    (∀ x ∈ items, Reads x) → ∀ (done : List Token) (outer : List Int) {p : Place} {indent : Int}
    {done' : List Token} {outer' : List Int},
    Opened .blockSequenceStart p.column done indent outer done' outer' →
    n ≤ p.column → Kept F → Opens F →
    ∃ r : Place, r.column = n ∧
      Leads (inBlock p (printItems p.column none items ++
          (lineAfter (printItems p.column none items) n ++ F)) done indent outer true)
        ((inBlock r F ((itemTokens items).reverse ++ done') p.column outer' true).unroll n)
  | [], hne, _, _, _, _, _, _, _, _, _, _, _, _ => absurd rfl hne
  | [x], _, h, hreads, done, outer, p, indent, done', outer', hopened, hn, hF, hopens => by
    have hlines : printItems p.column none [x] = itemText p.column x := by
      rw [printItems_cons, printItems, List.append_nil]
    rw [hlines, itemTokens, itemTokens, List.append_nil]
    exact leads_item h.1 (hreads x (by simp)) hopened hn hF hopens
  | x :: y :: ys, _, h, hreads, done, outer, p, indent, done', outer', hopened, hn, hF, hopens => by
    have hys := List.cons_ne_nil y ys
    have hlines : printItems p.column none (x :: y :: ys) = itemText p.column x ++
        (lineAfter (itemText p.column x) p.column ++ printItems p.column none (y :: ys)) := by
      rw [printItems_cons, printItems_some hys]
    have hlast : lineAfter (printItems p.column none (x :: y :: ys)) n =
        lineAfter (printItems p.column none (y :: ys)) n := by
      rw [hlines, ← List.append_assoc, lineAfter_append _ (printItems_ne_nil hys)]
    have hrest : Kept (printItems p.column none (y :: ys) ++
        (lineAfter (printItems p.column none (y :: ys)) n ++ F)) :=
      kept_append.mpr ⟨kept_printItems _ h.2 _ _, kept_append.mpr ⟨kept_lineAfter _ _, hF⟩⟩
    obtain ⟨q, hq, hitem⟩ := leads_item h.1 (hreads x (by simp)) hopened (Nat.le_refl _) hrest
      (opens_printItems_append hys _)
    rw [unroll_inBlock_of_le (Int.le_refl _)] at hitem
    obtain ⟨r, hr, hitems⟩ := leads_printItems (y :: ys) hys h.2
      (fun z hz => hreads z (.tail _ hz))
      ((Token.blockEntry :: blockTokens true x).reverse ++ done')
      outer' (p := q) (.old (congrArg _ hq.symm)) (by omega) hF hopens
    rw [hq] at hitems
    refine ⟨r, hr, ?_⟩
    rw [hlast, hlines]
    simp only [itemTokens, List.reverse_append, List.append_assoc] at hitem hitems ⊢
    exact hitem.trans hitems

lemma reads_array {items : List Json} (h : NumberlessItems items) (hreads : ∀ x ∈ items, Reads x) :
    Reads (.array items) := by
  rcases eq_or_ne items [] with rfl | hne
  · exact reads_empty .sequence .sequence rfl (fun _ => rfl) fun _ => rfl
  intro done outer p F indent column indented allowed n hstands hn hF hopens
  have hempty : items.isEmpty = false := by simpa using hne
  have hprint : print column (.array items) = printItems column none items := by
    simp [print, hempty]
  rw [hprint]
  cases hstands with
  | leaf hj => simp [hasEntries, hempty] at hj
  | array _ hp =>
    obtain ⟨r, hr, hitems⟩ := leads_printItems (n := n) items hne h hreads done outer
      (.new hp) (by omega) hF hopens
    rw [unroll_inBlock_cons (by omega)] at hitems
    refine ⟨r, hr, ?_⟩
    simpa [blockTokens_array hne] using hitems
  | indentless _ hp =>
    obtain ⟨r, hr, hitems⟩ := leads_printItems (n := n) items hne h hreads done outer
      (.old hp) (by omega) hF hopens
    subst hp
    refine ⟨r, hr, ?_⟩
    simpa [blockTokens_indentless hne] using hitems

/-! ## Mappings -/

/-- What stands between the colon of a simple key and its value. -/
def besideGap (column : ℕ) (v : Json) : List Char :=
  if hasEntries v then '\n' :: spaces (besideColumn column v) else [' ']

lemma besideLead_eq (column : ℕ) (v : Json) : besideLead column v = ':' :: besideGap column v := by
  rw [besideLead, besideGap]
  split <;> rfl

lemma kept_besideGap (column : ℕ) (v : Json) : Kept (besideGap column v) := by
  rw [besideGap]
  split
  · exact kept_cons.mpr ⟨by decide, kept_spaces _⟩
  · exact kept_cons.mpr ⟨by decide, kept_nil⟩

lemma gapFollows_besideGap (column : ℕ) (v : Json) (F : List Char) :
    gapFollows (besideGap column v ++ F) = true := by
  rw [besideGap]
  split <;> rfl

/-- A value with lines of its own may begin with a key, and stands where its entries do. -/
lemma gap_besideGap (q : Place) (column : ℕ) (v : Json) (hF : Kept F) (hopens : Opens F) :
    ∃ r : Place, gap false false false (q.glyphs (besideGap column v ++ F)) =
        (hasEntries v, r.glyphs F) ∧
      r.column = if hasEntries v then besideColumn column v else q.column + 1 := by
  cases hv : hasEntries v with
  | true =>
    refine ⟨q.after ('\n' :: spaces (besideColumn column v)), ?_, ?_⟩
    · simpa [besideGap, hv] using gap_newLine hF hopens (besideColumn column v)
    · rw [Place.after_break_spaces _ (by decide), if_pos rfl]
  | false =>
    refine ⟨q.after (spaces 1), ?_, ?_⟩
    · rw [besideGap, hv, ← gap_opens hF hopens, ← gap_spaces]
      rfl
    · rw [Place.after_spaces, if_neg Bool.false_ne_true]

lemma le_besideColumn (column : ℕ) (v : Json) : column ≤ besideColumn column v := by
  unfold besideColumn
  split <;> omega

/-- The text of a simple key, up to its value. -/
lemma leads_beside (hkey : IsKey W style k) (hF : Kept F) (hopens : Opens F)
    (h : Opened .blockMappingStart p.column done indent outer done' outer') :
    ∃ r : Place, Stands r p.column v (besideColumn p.column v) false (hasEntries v) ∧
      Leads (inBlock p (W ++ (besideLead p.column v ++ F)) done indent outer true)
        (inBlock r F (.value :: .scalar style k :: .key :: done') p.column outer'
          (hasEntries v)) := by
  have hcolon : ((p.after W).next ':').column = p.column + W.length + 1 := by
    rw [p.after_of_not_isBreak hkey.not_isBreak, Place.next_of_not_isBreak _ (by decide)]
  obtain ⟨r, hgap, hr⟩ := gap_besideGap ((p.after W).next ':') p.column v hF hopens
  have hbeside := le_besideColumn p.column v
  have hle : p.column ≤ r.column := by
    rw [hr]
    split <;> omega
  refine ⟨r, stands_beside ?_, ?_⟩
  · cases hv : hasEntries v with
    | true => rwa [hv, if_pos rfl] at hr
    | false =>
      rw [hv, if_neg Bool.false_ne_true] at hr
      rw [if_neg Bool.false_ne_true]
      omega
  have hlength : F.length < (':' :: (besideGap p.column v ++ F)).length := by
    rw [List.length_cons, List.length_append]
    omega
  rw [besideLead_eq]
  exact leads_key hkey h hF (kept_append.mpr ⟨kept_besideGap _ _, hF⟩)
    (gapFollows_besideGap _ _ _) hlength hgap hle

/-- The text of a simple key and its value. -/
lemma leads_keyed (hkey : IsKey W style k) (hv : v.Numberless) (hreads : Reads v)
    (h : Opened .blockMappingStart p.column done indent outer done' outer') (hn : n ≤ p.column)
    (hF : Kept F) (hopens : Opens F) :
    ∃ r : Place, r.column = n ∧
      Leads (inBlock p (W ++ (besideLead p.column v ++ (print (besideColumn p.column v) v ++
          (lineAfter (print (besideColumn p.column v) v) n ++ F)))) done indent outer true)
        ((inBlock r F ((Token.key :: .scalar style k :: .value :: blockTokens false v).reverse ++
          done') p.column outer' true).unroll n) := by
  have hkept : Kept (print (besideColumn p.column v) v ++
      (lineAfter (print (besideColumn p.column v) v) n ++ F)) :=
    kept_append.mpr ⟨kept_print v hv _, kept_append.mpr ⟨kept_lineAfter _ _, hF⟩⟩
  obtain ⟨q, hstands, hbeside⟩ := leads_beside (v := v) hkey hkept (opens_print_append hv _ _) h
  obtain ⟨r, hr, hvalue⟩ := hreads (.value :: .scalar style k :: .key :: done') outer' hstands
    (Int.ofNat_le.mpr hn) hF hopens
  refine ⟨r, hr, ?_⟩
  simpa using hbeside.trans hvalue

/-- The text of a key with a question mark, up to its value. -/
lemma leads_question (hF : Kept F) (hopens : Opens F)
    (h : Opened .blockMappingStart p.column done indent outer done' outer') :
    ∃ r : Place, r.column = p.column + 2 ∧
      Leads (inBlock p ('?' :: ' ' :: (writeText (p.column + 2) k ++
          (lineAfter (writeText (p.column + 2) k) p.column ++ ':' :: ' ' :: F))) done indent outer
          true)
        (inBlock r F (.value :: .scalar (styleOf k) k :: .key :: done') p.column outer' true) := by
  have hcolon : Kept (':' :: ' ' :: F) := kept_cons.mpr ⟨by decide, kept_cons.mpr ⟨by decide, hF⟩⟩
  have hkey : Kept (writeText (p.column + 2) k ++
      (lineAfter (writeText (p.column + 2) k) p.column ++ ':' :: ' ' :: F)) :=
    kept_append.mpr ⟨kept_writeText _ _, kept_append.mpr ⟨kept_lineAfter _ _, hcolon⟩⟩
  obtain ⟨a, ha, hquestion⟩ := step_question h hkey (opens_writeText_append _ _ _)
  obtain ⟨b, hb, htext⟩ := step_text (p := a) (s := k) (n := p.column) (.key :: done') outer' true
    (show p.column + 2 = (p.column : Int).toNat + 2 by simp) (by omega) (Int.le_refl _) hcolon
    (opens_cons.mpr (by decide))
  rw [unroll_inBlock_of_le (Int.le_refl _)] at htext
  obtain ⟨r, hr, hvalue⟩ := step_colon (p := b) (.scalar (styleOf k) k :: .key :: done')
    outer' (congrArg _ hb.symm) hF hopens
  exact ⟨r, by omega, .head hquestion (.head htext (.single hvalue))⟩

/-- An entry of a mapping is read; its key opens the mapping if none is open. -/
lemma leads_entry (hv : v.Numberless) (hreads : Reads v)
    (h : Opened .blockMappingStart p.column done indent outer done' outer') (hn : n ≤ p.column)
    (hF : Kept F) (hopens : Opens F) :
    ∃ r : Place, r.column = n ∧
      Leads (inBlock p (entryText p.column k v ++ (lineAfter (entryText p.column k v) n ++ F)) done
          indent outer true)
        ((inBlock r F ((Token.key :: .scalar (styleOf k) k :: .value ::
          blockTokens (!isSimpleKey k) v).reverse ++ done') p.column outer' true).unroll n) := by
  have hkept (column : ℕ) : Kept (print column v ++ (lineAfter (print column v) n ++ F)) :=
    kept_append.mpr ⟨kept_print v hv _, kept_append.mpr ⟨kept_lineAfter _ _, hF⟩⟩
  have hline (s : List Char) (column : ℕ) :
      lineAfter (s ++ print column v) n = lineAfter (print column v) n :=
    lineAfter_append s (print_ne_nil hv _) n
  cases hkey : isSimpleKey k with
  | true =>
    have htext : entryText p.column k v = writeText (p.column + 2) k ++ (besideLead p.column v ++
        print (besideColumn p.column v) v) := by
      simp [entryText, hkey]
    have hisKey : IsKey (writeText (p.column + 2) k) (styleOf k) k :=
      isKey_writeText hkey (Nat.succ_pos _)
    obtain ⟨r, hr, hkeyed⟩ := leads_keyed hisKey hv hreads h hn hF hopens
    refine ⟨r, hr, ?_⟩
    rw [htext, ← List.append_assoc (writeText _ k), hline]
    simpa using hkeyed
  | false =>
    have htext : entryText p.column k v = '?' :: ' ' :: (writeText (p.column + 2) k ++
        (lineAfter (writeText (p.column + 2) k) p.column ++
          ':' :: ' ' :: print (p.column + 2) v)) := by
      simp [entryText, hkey]
    have hlast : lineAfter (entryText p.column k v) n = lineAfter (print (p.column + 2) v) n := by
      have := hline ('?' :: ' ' :: (writeText (p.column + 2) k ++
        (lineAfter (writeText (p.column + 2) k) p.column ++ [':', ' ']))) (p.column + 2)
      simpa [htext] using this
    obtain ⟨q, hq, hquestion⟩ := leads_question (k := k) (hkept (p.column + 2))
      (opens_print_append hv _ _) h
    obtain ⟨r, hr, hvalue⟩ := hreads
      (.value :: .scalar (styleOf k) k :: .key :: done') outer' (stands_behind v hq)
      (Int.ofNat_le.mpr hn) hF hopens
    refine ⟨r, hr, ?_⟩
    rw [hlast, htext]
    simpa using hquestion.trans hvalue

/-- The entries of a mapping are read. -/
lemma leads_printEntries : (members : List (String × Json)) → members ≠ [] →
    NumberlessMembers members → (∀ m ∈ members, Reads m.2) →
    ∀ (done : List Token) (outer : List Int) {p : Place} {indent : Int} {done' : List Token}
      {outer' : List Int},
    Opened .blockMappingStart p.column done indent outer done' outer' → n ≤ p.column → Kept F →
    Opens F →
    ∃ r : Place, r.column = n ∧
      Leads (inBlock p (printEntries p.column none members ++
          (lineAfter (printEntries p.column none members) n ++ F)) done indent outer true)
        ((inBlock r F ((entryTokens members).reverse ++ done') p.column outer' true).unroll n)
  | [], hne, _, _, _, _, _, _, _, _, _, _, _, _ => absurd rfl hne
  | [(k, v)], _, h, hreads, done, outer, p, indent, done', outer', hopened, hn, hF, hopens => by
    have hlines : printEntries p.column none [(k, v)] = entryText p.column k v := by
      rw [printEntries_cons, printEntries, List.append_nil]
    rw [hlines, entryTokens, entryTokens, List.append_nil]
    exact leads_entry h.1 (hreads (k, v) (by simp)) hopened hn hF hopens
  | (k, v) :: m :: ms, _, h, hreads, done, outer, p, indent, done', outer', hopened, hn, hF,
      hopens => by
    have hms := List.cons_ne_nil m ms
    have hlines : printEntries p.column none ((k, v) :: m :: ms) = entryText p.column k v ++
        (lineAfter (entryText p.column k v) p.column ++ printEntries p.column none (m :: ms)) := by
      rw [printEntries_cons, printEntries_some hms]
    have hlast : lineAfter (printEntries p.column none ((k, v) :: m :: ms)) n =
        lineAfter (printEntries p.column none (m :: ms)) n := by
      rw [hlines, ← List.append_assoc, lineAfter_append _ (printEntries_ne_nil hms)]
    have hrest : Kept (printEntries p.column none (m :: ms) ++
        (lineAfter (printEntries p.column none (m :: ms)) n ++ F)) :=
      kept_append.mpr ⟨kept_printEntries _ h.2 _ _, kept_append.mpr ⟨kept_lineAfter _ _, hF⟩⟩
    obtain ⟨q, hq, hentry⟩ := leads_entry (k := k) h.1 (hreads (k, v) (by simp)) hopened
      (Nat.le_refl _) hrest (opens_printEntries_append hms _)
    rw [unroll_inBlock_of_le (Int.le_refl _)] at hentry
    obtain ⟨r, hr, hentries⟩ := leads_printEntries (m :: ms) hms h.2
      (fun m' hm' => hreads m' (.tail _ hm'))
      ((Token.key :: .scalar (styleOf k) k :: .value :: blockTokens (!isSimpleKey k) v).reverse ++
        done') outer' (p := q) (.old (congrArg _ hq.symm)) (by omega) hF hopens
    rw [hq] at hentries
    refine ⟨r, hr, ?_⟩
    rw [hlast, hlines, entryTokens, List.reverse_append, List.append_assoc, List.append_assoc,
      List.append_assoc]
    exact hentry.trans hentries

lemma reads_object {members : List (String × Json)} (h : NumberlessMembers members)
    (hreads : ∀ m ∈ members, Reads m.2) : Reads (.object members) := by
  rcases eq_or_ne members [] with rfl | hne
  · exact reads_empty .mapping .mapping rfl (fun _ => rfl) fun _ => rfl
  intro done outer p F indent column indented allowed n hstands hn hF hopens
  have hempty : members.isEmpty = false := by simpa using hne
  have hprint : print column (.object members) = printEntries column none members := by
    simp [print, hempty]
  rw [hprint]
  cases hstands with
  | leaf hj => simp [hasEntries, hempty] at hj
  | object _ hp =>
    obtain ⟨r, hr, hentries⟩ := leads_printEntries (n := n) members hne h hreads done outer
      (.new hp) (by omega) hF hopens
    rw [unroll_inBlock_cons (by omega)] at hentries
    refine ⟨r, hr, ?_⟩
    simpa [blockTokens_object hne] using hentries

end Trees

/-! ## All trees -/

mutual

/-- Every printed tree is read. -/
theorem reads_print : (j : Json) → j.Numberless → Reads j
  | .null, _ =>
    reads_word (s := ['n', 'u', 'l', 'l']) (by decide) (by simp) (by decide) rfl (fun _ => rfl)
      fun _ => rfl
  | .bool true, _ =>
    reads_word (s := ['t', 'r', 'u', 'e']) (by decide) (by simp) (by decide) rfl (fun _ => rfl)
      fun _ => rfl
  | .bool false, _ =>
    reads_word (s := ['f', 'a', 'l', 's', 'e']) (by decide) (by simp) (by decide) rfl (fun _ => rfl)
      fun _ => rfl
  | .number _, h => h.elim
  | .string s, _ => reads_string s
  | .array items, h => reads_array h (reads_items items h)
  | .object members, h => reads_object h (reads_members members h)

lemma reads_items : (items : List Json) → NumberlessItems items → ∀ x ∈ items, Reads x
  | [], _, _, hx => absurd hx List.not_mem_nil
  | x :: xs, h, y, hy => by
    rcases List.mem_cons.mp hy with heq | hy
    · exact heq ▸ reads_print x h.1
    · exact reads_items xs h.2 y hy

lemma reads_members : (members : List (String × Json)) → NumberlessMembers members →
    ∀ m ∈ members, Reads m.2
  | [], _, _, hm => absurd hm List.not_mem_nil
  | (k, v) :: ms, h, m, hm => by
    rcases List.mem_cons.mp hm with heq | hm
    · exact heq ▸ reads_print v h.1
    · exact reads_members ms h.2 m hm

end

/-! ## Documents -/

/-- At the end of a text all blocks are closed. -/
lemma takeNext_end {p : Place} {done : List Token} {column : ℕ} :
    (inBlock p [] done column [-1] true).takeNext =
      .ok (inBlock p [] (.streamEnd :: .blockEnd :: done) (-1) [] false) := by
  have hclosed : (inBlock p [] done column [-1] true).unroll (-1) =
      inBlock p [] (.blockEnd :: done) (-1) [] true := by
    rw [unroll_inBlock_cons (by omega), unroll_inBlock_of_le (Int.le_refl _)]
  have hend : isEnd (nextChar (inBlock p [] done column [-1] true).rest) = true := by
    rw [rest_inBlock, p.nextChar_glyphs kept_nil]
    rfl
  rw [takeNext]
  simp only [hend, if_true, close, takeOutside, hclosed, dropKey_eq free_inBlock]
  rfl

/-- The tokens of a document that holds a mapping. -/
theorem tokens_render {members : List (String × Json)} (hne : members ≠ [])
    (h : NumberlessMembers members) :
    Token.ofText (render (.object members)).toList =
      blockTokens true (.object members) ++ [.streamEnd] := by
  have hempty : members.isEmpty = false := by simpa using hne
  have htext : (render (.object members)).toList =
      printEntries 0 none members ++ (lineAfter (printEntries 0 none members) 0 ++ []) := by
    simp [render, rootColumn, print, hempty]
  have hkept : Kept (render (.object members)).toList := by
    rw [htext]
    exact kept_append.mpr
      ⟨kept_printEntries _ h _ _, kept_append.mpr ⟨kept_lineAfter _ _, kept_nil⟩⟩
  have hopens : Opens (render (.object members)).toList := by
    rw [htext]
    exact opens_printEntries_append hne _
  obtain ⟨r, hr, hleads⟩ := leads_printEntries (p := Place.start) (n := 0) members hne h
    (reads_members members h) [] [] (.new (show -1 < ((0 : ℕ) : Int) by decide))
    (Nat.zero_le _) kept_nil opens_nil
  have hstart : Place.start.column = 0 := rfl
  rw [hstart, unroll_inBlock_of_le (Int.le_refl _), ← htext] at hleads
  rw [tokens_of_text hkept hopens hleads takeNext_end rfl]
  simp [inBlock, blockTokens_object hne]

end Scan

end ConfigRegistry.Yaml
