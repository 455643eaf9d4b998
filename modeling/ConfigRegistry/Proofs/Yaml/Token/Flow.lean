/-
# Tokens of JSON texts

A JSON text is written in brackets, where lines and columns count for little.  All that the scanner
keeps there is where a key may have begun: once for each open bracket, and none of these keys is
required.  The text of a tree is therefore put together from parts (`Scan.Passes`): a part is read
wherever it stands in brackets, if what follows it begins in the right way, and the parts of a text
make up the tokens of its tree (`flowTokens`).

Two things can go wrong.  A string may be read as another one, or not at all; and a key may be too
long for a key without an indicator, or go over more than one line.  `jsonCarries` excludes both.
-/
import ConfigRegistry.Proofs.Json.Spelling
import ConfigRegistry.Proofs.Yaml.Scalar.Json
import ConfigRegistry.Proofs.Yaml.Token.Block

namespace ConfigRegistry.Yaml

open Json (Numberless NumberlessItems NumberlessMembers printString)

/-! ## Trees that are read as themselves -/

/-- Whether a JSON string is read as itself where it is a key: on one line, and not too far from the
colon. -/
def jsonKeyCarries (k : String) : Bool :=
  (jsonBody k.toList).all (fun c => isKept c && !isBreak c) &&
    (printString k).length ≤ Scan.keyLimit

mutual

/-- Whether all the strings and keys of a tree are read as themselves. -/
def jsonCarries : Json → Bool
  | .null | .bool _ | .number _ => true
  | .string s => jsonTextCarries s
  | .array items => jsonItemsCarry items
  | .object members => jsonMembersCarry members

/-- Whether all the strings and keys of some items are read as themselves. -/
def jsonItemsCarry : List Json → Bool
  | [] => true
  | x :: xs => jsonCarries x && jsonItemsCarry xs

/-- Whether all the strings and keys of some members are read as themselves. -/
def jsonMembersCarry : List (String × Json) → Bool
  | [] => true
  | (k, v) :: ms => jsonKeyCarries k && (jsonCarries v && jsonMembersCarry ms)

end

/-- A key is read as itself, on one line, and up to its colon it is not too long. -/
lemma jsonKeyCarries_spec {k : String} (h : jsonKeyCarries k = true) :
    jsonTextCarries k = true ∧ (∀ c ∈ printString k, isBreak c = false) ∧
      (printString k).length ≤ Scan.keyLimit := by
  simp only [jsonKeyCarries, Bool.and_eq_true, List.all_eq_true, Bool.not_eq_true',
    decide_eq_true_eq] at h
  obtain ⟨hchars, hlength⟩ := h
  have hbreak : ∀ c ∈ jsonBody k.toList, isBreak c = false := fun c hc => (hchars c hc).2
  refine ⟨jsonTextCarries_iff.mpr (.of_not_isBreak (fun c hc => (hchars c hc).1) hbreak), ?_,
    hlength⟩
  intro c hc
  rw [printString_eq, List.mem_cons, List.mem_append, List.mem_singleton] at hc
  rcases hc with rfl | hc | rfl
  · decide
  · exact hbreak c hc
  · decide

/-! ## The tokens -/

mutual

/-- The tokens of a tree in flow style. -/
def flowTokens : Json → List Token
  | .null => [.scalar .plain "null"]
  | .bool true => [.scalar .plain "true"]
  | .bool false => [.scalar .plain "false"]
  | .number n => [.scalar .plain (String.ofList (n.print .json))]
  | .string s => [.scalar .doubleQuoted s]
  | .array items => .flowSequenceStart :: (flowItemTokens true items ++ [.flowSequenceEnd])
  | .object members => .flowMappingStart :: (flowEntryTokens true members ++ [.flowMappingEnd])

/-- The tokens of the items of a sequence, from the first one or a later one on. -/
def flowItemTokens (first : Bool) : List Json → List Token
  | [] => []
  | x :: xs => (if first then [] else [.flowEntry]) ++ (flowTokens x ++ flowItemTokens false xs)

/-- The tokens of the entries of a mapping, from the first one or a later one on. -/
def flowEntryTokens (first : Bool) : List (String × Json) → List Token
  | [] => []
  | (k, v) :: ms => (if first then [] else [.flowEntry]) ++
      ([.key, .scalar .doubleQuoted k, .value] ++ (flowTokens v ++ flowEntryTokens false ms))

end

namespace Scan

section Tokens

variable {s : Scan} {p : Place} {F : List Char} {done : List Token} {depth : ℕ} {allowed : Bool}

/-! ## Inside of brackets -/

/-- A scan of a text inside of brackets and of no blocks: the place, what is left, the tokens found,
the number of brackets that are open, and whether a key may begin. -/
structure Within (s : Scan) (p : Place) (F : List Char) (done : List Token) (depth : ℕ)
    (allowed : Bool) : Prop where
  rest_eq : s.rest = p.glyphs F
  kept : Kept F
  done_eq : s.done = done
  indent_eq : s.indent = -1
  length_eq : s.outerKeys.length = depth
  allowed_eq : s.keyAllowed = allowed
  free : s.Free
  outer_free : ∀ k ∈ s.outerKeys, ∀ x ∈ k, x.required = false

namespace Within

lemma inFlow_eq (h : Within s p F done (depth + 1) allowed) : s.inFlow = true := by
  have hne : s.outerKeys ≠ [] := List.ne_nil_of_length_eq_add_one h.length_eq
  simpa [inFlow] using hne

/-- Outside of blocks no key is required. -/
lemma noted_free (h : Within s p F done depth allowed) (c : Char) :
    ∀ x ∈ s.noted (p.glyph c), x.required = false := by
  intro x hx
  rw [noted] at hx
  split at hx
  · obtain rfl := Option.some.inj hx
    have hcolumn : (-1 : Int) ≠ ((p.glyph c).column : Int) := by omega
    simp [h.indent_eq, hcolumn]
  · exact h.free x hx

/-- Nothing is passed over before a token, and what becomes of a key is only whether it can reach
there. -/
lemma come (h : Within s p F done depth allowed) (hopens : Opens F) :
    ∃ b, s.come = .ok b ∧ Within b p F done depth allowed ∧
      b.keyStart = freshAt (p.glyph (F.headD endMark)) s.keyStart := by
  obtain ⟨c, l, hl, hhead⟩ := p.exists_glyphs_cons h.kept
  have hc : F.headD endMark = c := by
    rcases hhead with hF | ⟨rfl, rfl⟩
    · rw [← hF]
      rfl
    · rfl
  have hgap : gap s.inFlow s.keyAllowed false (p.glyph c :: l) = (allowed, p.glyph c :: l) := by
    rw [← hl, h.allowed_eq]
    exact gap_opens h.kept hopens
  have hreaches : ∀ k ∈ s.keyStart :: s.outerKeys, Reaches k (p.glyph c) := by
    refine List.forall_mem_cons.mpr ⟨fun x hx hrequired => ?_, fun k hk x hx hrequired => ?_⟩
    · exact absurd (h.free x hx) (ne_false_of_eq_true hrequired)
    · exact absurd (h.outer_free k hk x hx) (ne_false_of_eq_true hrequired)
  have htwice (k : Option KeyStart) :
      freshAt (p.glyph c) (freshAt (p.glyph c) k) = freshAt (p.glyph c) k := by
    rw [freshAt, freshAt, Option.filter_filter]
    simp
  have hcome := come_eq (h.rest_eq.trans hl) hgap fun k hk => ⟨hreaches k hk, hreaches k hk⟩
  rw [unroll_of_le (by show s.indent ≤ _; rw [h.indent_eq]; omega)] at hcome
  refine ⟨_, hcome, ⟨hl.symm, h.kept, h.done_eq, h.indent_eq, ?_, rfl, ?_, ?_⟩, ?_⟩
  · simpa using h.length_eq
  · intro x hx
    have hx : x ∈ freshAt (p.glyph c) (freshAt (p.glyph c) s.keyStart) := hx
    rw [htwice] at hx
    exact h.free x (Option.mem_filter_iff.mp hx).1
  · intro k hk x hx
    obtain ⟨k', hk', rfl⟩ := List.mem_map.mp hk
    rw [htwice] at hx
    exact h.outer_free k' hk' x (Option.mem_filter_iff.mp hx).1
  · rw [hc]
    exact htwice _

/-- A token that has been taken, with nothing behind it that is passed over, is one step. -/
lemma step {a : Scan} {q : Place} {W : List Char} {t : Token} {done' : List Token} {depth' : ℕ}
    {allowed' : Bool} (ha : Within a p W done depth allowed) (htake : a.takeNext = .ok s)
    (hs : Within s q F (t :: done') depth' allowed') (ht : t ≠ .streamEnd)
    (hlength : F.length < W.length) (hopens : Opens F) :
    ∃ b, Step a b ∧ Within b q F (t :: done') depth' allowed' ∧
      b.keyStart = freshAt (q.glyph (F.headD endMark)) s.keyStart := by
  obtain ⟨b, hcome, hb, hkey⟩ := hs.come hopens
  refine ⟨b, ⟨s, htake, ?_, hcome, ?_⟩, hb, hkey⟩
  · simpa [isOver, hs.done_eq] using ht
  · rw [hb.rest_eq, ha.rest_eq, q.length_glyphs hs.kept, p.length_glyphs ha.kept]
    exact Nat.succ_lt_succ hlength

end Within

/-! ## Single tokens -/

lemma takeNext_comma (hrest : s.rest = p.glyphs (',' :: F)) (h : s.Free) :
    s.takeNext = .ok { s with rest := (p.next ',').glyphs F, done := .flowEntry :: s.done
                              keyStart := none, keyAllowed := true } := by
  rw [p.glyphs_cons (by decide)] at hrest
  have hnext : nextChar s.rest = ',' := by rw [hrest]; rfl
  have htake : s.takeNext = s.flowEntry := by
    simp [takeNext, hnext, isEnd, endMark, atMark]
  rw [htake, flowEntry, dropKey_eq h]
  simp [hrest, skip, emit, allowKey, bind, Except.bind, pure, Except.pure]

/-- The colon behind a scalar that may be a key makes it one. -/
lemma takeNext_colon_of_inFlow {t : Token} {k : KeyStart} (hrest : s.rest = p.glyphs (':' :: F))
    (hflow : s.inFlow = true) (hdone : s.done = t :: done) (hkey : s.keyStart = some k)
    (hnumber : k.number = done.length) :
    s.takeNext = .ok { s with rest := (p.next ':').glyphs F, done := .value :: t :: .key :: done
                              keyStart := none, keyAllowed := false } := by
  rw [p.glyphs_cons (by decide)] at hrest
  have hnext : nextChar s.rest = ':' := by rw [hrest]; rfl
  have htake : s.takeNext = s.valueMark := by
    simp [takeNext, hnext, isEnd, endMark, atMark, hflow]
  have hroll : (s.emitAt k.number .key).roll k.column k.number .blockMappingStart =
      s.emitAt k.number .key := if_pos hflow
  rw [htake, valueMark, hkey]
  simp only [hroll]
  simp [hrest, hdone, hnumber, emitAt, skip, emit, allowKey]

/-! ## Parts of a text -/

/-- A part of a text is read: from its beginning the scan leads to what follows it, provided that
this begins in the right way, and the tokens of the part have been found. -/
def Passes (depth depth' : ℕ) (allowed allowed' : Bool) (W : List Char) (ts : List Token)
    (Follows : List Char → Prop) : Prop :=
  ∀ ⦃s : Scan⦄ ⦃p : Place⦄ ⦃F : List Char⦄ ⦃done : List Token⦄,
    Within s p (W ++ F) done depth allowed → Follows F →
    ∃ b, Leads s b ∧ Within b (p.after W) F (ts.reverse ++ done) depth' allowed'

/-- What stands behind an item, and behind a value: a comma or bracket. -/
def Enclosed (F : List Char) : Prop := beginsWith isFlowIndicator F = true

lemma opens_append {W F : List Char} (hW : Opens W) (hF : Opens F) : Opens (W ++ F) := by
  cases W with
  | nil => exact hF
  | cons c W => exact opens_cons.mpr (opens_cons.mp hW)

lemma Enclosed.opens (h : Enclosed F) : Opens F := by
  cases F with
  | nil => exact opens_nil
  | cons c F =>
    have hc : isFlowIndicator c = true := h
    simp only [isFlowIndicator, Bool.or_eq_true, beq_iff_eq] at hc
    rcases hc with (((rfl | rfl) | rfl) | rfl) | rfl <;> exact opens_cons.mpr (by decide)

section Parts

variable {d e f : ℕ} {a b c : Bool} {V W : List Char} {t : Token} {ts us : List Token}
  {P Q : List Char → Prop}

lemma Passes.nil : Passes d d a a [] [] P := fun _ _ _ _ h _ => ⟨_, .refl, h⟩

/-- Two parts, one behind the other. -/
lemma Passes.append (h : Passes d e a b W ts P) (h' : Passes e f b c V us Q)
    (hfollows : ∀ F, Q F → P (V ++ F)) : Passes d f a c (W ++ V) (ts ++ us) Q := by
  intro s p F done hs hF
  rw [List.append_assoc] at hs
  obtain ⟨s', hleads, hs'⟩ := h hs (hfollows F hF)
  obtain ⟨s'', hleads', hs''⟩ := h' hs' hF
  refine ⟨s'', hleads.trans hleads', ?_⟩
  rw [Place.after_append, List.reverse_append, List.append_assoc]
  exact hs''

/-- A part that is one token. -/
lemma passes_token (hne : W ≠ []) (ht : t ≠ .streamEnd) (hP : ∀ F, P F → Opens F)
    (htake : ∀ ⦃s : Scan⦄ ⦃p : Place⦄ ⦃F : List Char⦄ ⦃done : List Token⦄,
      Within s p (W ++ F) done d a → P F →
      ∃ s', s.takeNext = .ok s' ∧ Within s' (p.after W) F (t :: done) e b) :
    Passes d e a b W [t] P := by
  intro s p F done hs hF
  obtain ⟨s', htaken, hs'⟩ := htake hs hF
  have hlength : F.length < (W ++ F).length := by
    have hpos := List.length_pos_of_ne_nil hne
    rw [List.length_append]
    omega
  obtain ⟨s'', hstep, hs'', -⟩ := hs.step htaken hs' ht hlength (hP F hF)
  exact ⟨s'', .single hstep, hs''⟩

lemma passes_opening {o : Char} (ho : Opening o t) : Passes d (d + 1) a true [o] [t] Opens := by
  refine passes_token (by simp) (by cases ho <;> simp) (fun _ h => h) fun s p F done hs _ => ?_
  have htake : s.takeNext = _ := takeNext_opening ho hs.rest_eq hs.free
  refine ⟨_, htake, rfl, (kept_cons.mp hs.kept).2, congrArg _ hs.done_eq, hs.indent_eq,
    congrArg _ hs.length_eq, rfl, nofun, ?_⟩
  exact List.forall_mem_cons.mpr ⟨hs.noted_free o, hs.outer_free⟩

lemma passes_closing {o : Char} (ho : Closing o t) : Passes (d + 1) d a false [o] [t] Opens := by
  refine passes_token (by simp) (by cases ho <;> simp) (fun _ h => h) fun s p F done hs _ => ?_
  obtain ⟨k, outerKeys, houter⟩ := List.exists_cons_of_length_eq_add_one hs.length_eq
  have htake : s.takeNext = _ := takeNext_closing ho hs.rest_eq hs.free houter
  have hfree := hs.outer_free
  rw [houter] at hfree
  obtain ⟨hk, hks⟩ := List.forall_mem_cons.mp hfree
  have hlength := hs.length_eq
  rw [houter, List.length_cons] at hlength
  exact ⟨_, htake, rfl, (kept_cons.mp hs.kept).2, congrArg _ hs.done_eq, hs.indent_eq,
    Nat.succ.inj hlength, rfl, hk, hks⟩

lemma passes_comma : Passes d d a true [','] [.flowEntry] Opens := by
  refine passes_token (by simp) (by simp) (fun _ h => h) fun s p F done hs _ => ?_
  have htake : s.takeNext = _ := takeNext_comma hs.rest_eq hs.free
  exact ⟨_, htake, rfl, (kept_cons.mp hs.kept).2, congrArg _ hs.done_eq, hs.indent_eq,
    hs.length_eq, rfl, nofun, hs.outer_free⟩

/-- A string is taken up to its closing quote, and its beginning is noted as that of a key. -/
lemma takeNext_printString {x : String} (hx : jsonTextCarries x = true)
    (h : Within s p (printString x ++ F) done depth allowed) :
    ∃ s', s.takeNext = .ok s' ∧
      Within s' (p.after (printString x)) F (.scalar .doubleQuoted x :: done) depth false ∧
      s'.keyStart = s.noted (p.glyph '"') := by
  have hF : Kept F := (kept_append.mp h.kept).2
  have hrest : s.rest = p.glyphs ('"' :: (jsonBody x.toList ++ '"' :: F)) := by
    rw [h.rest_eq, printString_eq]
    simp
  have htake : s.takeNext = _ :=
    takeNext_doubleQuoted hrest h.free (doubleQuoted_printString hx hF)
  exact ⟨_, htake, ⟨rfl, hF, congrArg _ h.done_eq, h.indent_eq, h.length_eq, rfl, h.noted_free '"',
    h.outer_free⟩, rfl⟩

lemma passes_string {x : String} (hx : jsonTextCarries x = true) :
    Passes d d a false (printString x) [.scalar .doubleQuoted x] Enclosed := by
  refine passes_token (by simp [printString_eq]) (by simp) (fun _ h => h.opens)
    fun s p F done hs _ => ?_
  obtain ⟨s', htake, hs', -⟩ := takeNext_printString hx hs
  exact ⟨s', htake, hs'⟩

/-- A key and its colon.  Where the colon stands, the key still reaches. -/
lemma passes_key {k : String} (hk : jsonKeyCarries k = true) :
    Passes (d + 1) (d + 1) true false (printString k ++ [':'])
      [.key, .scalar .doubleQuoted k, .value] Opens := by
  intro s p F done hs hF
  obtain ⟨htext, hbreak, hlength⟩ := jsonKeyCarries_spec hk
  rw [List.append_assoc, List.singleton_append] at hs
  obtain ⟨s', htake, hs', hkey⟩ := takeNext_printString htext hs
  have hcolon : Opens (':' :: F) := opens_cons.mpr (by decide)
  obtain ⟨b, hstep, hb, hreach⟩ := hs.step htake hs' (by simp)
    (by simp [printString_eq]; omega) hcolon
  -- the key is on one line and short enough, so it is not given up
  have hfresh : b.keyStart = some ⟨done.length, false, p.index, p.line, p.column⟩ := by
    have hstale : isStale ((p.after (printString k)).glyph ':')
        ⟨done.length, false, p.index, p.line, p.column⟩ = false := by
      rw [p.after_of_not_isBreak hbreak]
      simpa [isStale, Place.glyph] using hlength
    rw [hreach, hkey, noted, hs.allowed_eq, if_pos rfl, hs.done_eq, hs.inFlow_eq]
    simp only [Place.glyph, List.headD_cons, Bool.not_true, Bool.false_and] at hstale ⊢
    rw [freshAt, Option.filter_some, hstale]
    rfl
  have htake' : b.takeNext = _ :=
    takeNext_colon_of_inFlow hb.rest_eq hb.inFlow_eq hb.done_eq hfresh rfl
  obtain ⟨s'', htaken, hs''⟩ : ∃ s'', b.takeNext = .ok s'' ∧
      Within s'' ((p.after (printString k)).next ':') F
        (.value :: .scalar .doubleQuoted k :: .key :: done) (d + 1) false :=
    ⟨_, htake', rfl, (kept_cons.mp hb.kept).2, rfl, hb.indent_eq, hb.length_eq, rfl, by simp [Free],
      hb.outer_free⟩
  obtain ⟨b', hstep', hb', -⟩ := hb.step htaken hs'' (by simp) (Nat.lt_succ_self _) hF
  refine ⟨b', .head hstep (.single hstep'), ?_⟩
  rw [Place.after_append]
  exact hb'

/-- The words of JSON. -/
def jsonWords : List (List Char) :=
  [['n', 'u', 'l', 'l'], ['t', 'r', 'u', 'e'], ['f', 'a', 'l', 's', 'e']]

/-- A letter with which a word begins, as far as it matters for the scanner. -/
def isWordLetter (c : Char) : Bool :=
  isKept c && !isGap c && !isIndicator c && !(['-', '?', ':', '.'].contains c)

/-- A word has nothing that would end it, and begins with a letter. -/
lemma jsonWords_spec {w : List Char} (hw : w ∈ jsonWords) :
    w.all (isPlainChar true) = true ∧ hasInnerIndicator 'a' w = false ∧
      endsWith isSpace w = false ∧ Opens w ∧ ∃ c t, w = c :: t ∧ isWordLetter c = true := by
  simp only [jsonWords, List.mem_cons, List.not_mem_nil, or_false] at hw
  rcases hw with rfl | rfl | rfl <;>
    exact ⟨by decide, by decide, by decide, opens_cons.mpr (by decide), _, _, rfl, by decide⟩

/-- A word is read up to the comma or bracket behind it. -/
lemma passes_word {w : List Char} (hw : w ∈ jsonWords) :
    Passes (d + 1) (d + 1) a false w [.scalar .plain (String.ofList w)] Enclosed := by
  obtain ⟨hchars, hinner, hlast, -, c, w, rfl, hc⟩ := jsonWords_spec hw
  refine passes_token (by simp) (by simp) (fun _ h => h.opens) fun s p F done hs hF => ?_
  simp only [isWordLetter, Bool.and_eq_true, Bool.not_eq_true', List.contains_cons,
    List.contains_nil, Bool.or_false, Bool.or_eq_false_iff, beq_eq_false_iff_ne] at hc
  obtain ⟨⟨⟨hckept, hgap⟩, hindicator⟩, hdash, hquestion, hcolon, hdot⟩ := hc
  have hkept := hs.kept
  rw [List.cons_append] at hkept
  have hmark : atDocumentMark s.rest = false := by
    have hnext : nextChar s.rest = c := by
      rw [hs.rest_eq, List.cons_append, p.nextChar_glyphs hkept]
      rfl
    simp [atDocumentMark, atMark, hnext, hdash, hdot]
  have hread : plain s.inFlow (s.indent + 1) [] .none s.rest =
      .ok ⟨String.ofList (c :: w), (p.after (c :: w)).glyphs F, false⟩ := by
    have hindent : s.indent + 1 ≤ p.column + 1 := by
      rw [hs.indent_eq]
      omega
    have hplain : plain true (s.indent + 1) [] .none (p.glyphs (c :: w ++ F)) =
        plain true (s.indent + 1) ((c :: w).reverse ++ []) .none ((p.after (c :: w)).glyphs F) :=
      @plain_chars true _ [] [] _ F (kept_append.mp hs.kept).2 (c :: w) 'a' (by simp)
        (List.all_eq_true.mp hchars) hinner hlast (fun h => absurd rfl h) hindent
    cases F with
    | nil => cases hF
    | cons b F =>
      have hend : isFlowIndicator b = true := hF
      rw [hs.inFlow_eq, hs.rest_eq, hplain, plain_flowIndicator hend]
      simp
  have htake : s.takeNext = _ :=
    takeNext_plain hs.rest_eq hckept hs.free hgap hindicator
      (fun h => absurd h (by simp [hdash, hquestion, hcolon])) hmark hread
  exact ⟨_, htake, rfl, (kept_append.mp hs.kept).2, congrArg _ hs.done_eq, hs.indent_eq,
    hs.length_eq, rfl, hs.noted_free c, hs.outer_free⟩

/-- A text in brackets is read if what stands between the brackets is. -/
lemma passes_brackets {o u : Char} {t t' : Token} (ho : Opening o t) (hu : Closing u t')
    (h : Passes (d + 1) (d + 1) true b W ts Enclosed) (hW : Opens W) :
    Passes d d a false (o :: W ++ [u]) (t :: ts ++ [t']) Opens := by
  have hclosing : Enclosed [u] := by cases hu <;> rfl
  refine (((passes_opening ho).append h ?_).append (passes_closing hu) ?_)
  · exact fun F hF => opens_append hW hF.opens
  · exact fun F _ => hclosing

end Parts

/-! ## Trees -/

section Trees

variable {d : ℕ} {a : Bool} {x v : Json} {k : String} {items : List Json}
  {members : List (String × Json)}

/-- The text of a tree is read wherever it stands in brackets. -/
structure Flows (j : Json) : Prop where
  kept : Kept j.print
  opens : Opens j.print
  passes : ∀ (d : ℕ) (a : Bool), Passes (d + 1) (d + 1) a false j.print (flowTokens j) Enclosed

lemma kept_printString (h : jsonTextCarries k = true) : Kept (printString k) := by
  rw [printString_eq, kept_cons, kept_append]
  exact ⟨by decide, (jsonTextCarries_iff.mp h).kept, kept_cons.mpr ⟨by decide, kept_nil⟩⟩

lemma opens_printString (k : String) : Opens (printString k) := opens_cons.mpr (by decide)

lemma flows_word {j : Json} (hj : j.print ∈ jsonWords)
    (htokens : flowTokens j = [.scalar .plain (String.ofList j.print)]) : Flows j where
  kept := .of_isPrintable fun c hc =>
    (isPlainChar_iff.mp (List.all_eq_true.mp (jsonWords_spec hj).1 c hc)).1
  opens := (jsonWords_spec hj).2.2.2.1
  passes _ _ := htokens ▸ passes_word hj

lemma flows_string {s : String} (h : jsonTextCarries s = true) : Flows (.string s) where
  kept := kept_printString h
  opens := opens_printString s
  passes _ _ := passes_string h

/-! ### Sequences -/

lemma enclosed_printItems_append (items : List Json) {F : List Char} (hF : Enclosed F) :
    Enclosed (Json.printItems items ++ F) := by
  cases items with
  | nil => exact hF
  | cons x xs => rfl

lemma opens_printItems (items : List Json) : Opens (Json.printItems items) := by
  cases items with
  | nil => exact opens_nil
  | cons x xs => exact opens_cons.mpr (by decide)

lemma kept_jsonItems (h : ∀ x ∈ items, Flows x) : Kept (Json.printItems items) := by
  induction items with
  | nil => exact kept_nil
  | cons x xs ih =>
    obtain ⟨hx, hxs⟩ := List.forall_mem_cons.mp h
    rw [Json.printItems, kept_append, kept_cons]
    exact ⟨⟨by decide, hx.kept⟩, ih hxs⟩

/-- The items after the first one are read. -/
lemma passes_printItems (h : ∀ x ∈ items, Flows x) :
    Passes (d + 1) (d + 1) false false (Json.printItems items) (flowItemTokens false items)
      Enclosed := by
  induction items with
  | nil => exact .nil
  | cons x xs ih =>
    obtain ⟨hx, hxs⟩ := List.forall_mem_cons.mp h
    have hitem := (hx.passes d true).append (ih hxs) fun _ => enclosed_printItems_append xs
    rw [Json.printItems]
    exact passes_comma.append hitem fun _ hF =>
      opens_append (opens_append hx.opens (opens_printItems xs)) hF.opens

lemma passes_array (h : ∀ x ∈ items, Flows x) :
    Passes d d a false (Json.array items).print (flowTokens (.array items)) Opens := by
  cases items with
  | nil => exact passes_brackets .sequence .sequence .nil opens_nil
  | cons x xs =>
    obtain ⟨hx, hxs⟩ := List.forall_mem_cons.mp h
    have hitems := (hx.passes d true).append (passes_printItems hxs) fun _ =>
      enclosed_printItems_append xs
    exact passes_brackets .sequence .sequence hitems (opens_append hx.opens (opens_printItems xs))

lemma flows_array (h : ∀ x ∈ items, Flows x) : Flows (.array items) where
  kept := by
    cases items with
    | nil => simp [Json.print, isKept, isAllowed, nextLine]
    | cons x xs =>
      obtain ⟨hx, hxs⟩ := List.forall_mem_cons.mp h
      rw [Json.print, kept_append, kept_cons, kept_append, kept_cons]
      exact ⟨⟨by decide, hx.kept, kept_jsonItems hxs⟩, by decide, kept_nil⟩
  opens := by cases items <;> exact opens_cons.mpr (by decide)
  passes d a _ _ _ _ hs hF := passes_array h hs hF.opens

/-! ### Mappings -/

lemma enclosed_printMembers_append (members : List (String × Json)) {F : List Char}
    (hF : Enclosed F) : Enclosed (Json.printMembers members ++ F) := by
  cases members with
  | nil => exact hF
  | cons m ms => rfl

lemma kept_jsonMembers (h : ∀ m ∈ members, jsonKeyCarries m.1 = true ∧ Flows m.2) :
    Kept (Json.printMembers members) := by
  induction members with
  | nil => exact kept_nil
  | cons m ms ih =>
    obtain ⟨⟨hk, hv⟩, hms⟩ := List.forall_mem_cons.mp h
    rw [Json.printMembers, kept_append, kept_append, kept_cons, kept_cons]
    exact ⟨⟨⟨by decide, kept_printString (jsonKeyCarries_spec hk).1⟩, by decide, hv.kept⟩, ih hms⟩

lemma passes_entry (hk : jsonKeyCarries k = true) (hv : Flows v) :
    Passes (d + 1) (d + 1) true false (printString k ++ ':' :: v.print)
      ([.key, .scalar .doubleQuoted k, .value] ++ flowTokens v) Enclosed := by
  have hentry := (passes_key hk).append (hv.passes d false) fun F hF =>
    opens_append hv.opens hF.opens
  rwa [List.append_assoc, List.singleton_append] at hentry

/-- The members after the first one are read. -/
lemma passes_printMembers (h : ∀ m ∈ members, jsonKeyCarries m.1 = true ∧ Flows m.2) :
    Passes (d + 1) (d + 1) false false (Json.printMembers members) (flowEntryTokens false members)
      Enclosed := by
  induction members with
  | nil => exact .nil
  | cons m ms ih =>
    obtain ⟨⟨hk, hv⟩, hms⟩ := List.forall_mem_cons.mp h
    have hentry := (passes_entry hk hv).append (ih hms) fun _ => enclosed_printMembers_append ms
    have hopens : Opens (printString m.1 ++ ':' :: m.2.print ++ Json.printMembers ms) :=
      opens_cons.mpr (by decide)
    rw [Json.printMembers]
    exact passes_comma.append hentry fun _ hF => opens_append hopens hF.opens

lemma passes_object (h : ∀ m ∈ members, jsonKeyCarries m.1 = true ∧ Flows m.2) :
    Passes d d a false (Json.object members).print (flowTokens (.object members)) Opens := by
  cases members with
  | nil => exact passes_brackets .mapping .mapping .nil opens_nil
  | cons m ms =>
    obtain ⟨⟨hk, hv⟩, hms⟩ := List.forall_mem_cons.mp h
    have hentry : Passes (d + 1) (d + 1) true false _ _ Enclosed := passes_entry hk hv
    have hentries := hentry.append (passes_printMembers hms) fun _ =>
      enclosed_printMembers_append ms
    exact passes_brackets .mapping .mapping hentries (opens_cons.mpr (by decide))

lemma flows_object (h : ∀ m ∈ members, jsonKeyCarries m.1 = true ∧ Flows m.2) :
    Flows (.object members) where
  kept := by
    cases members with
    | nil => simp [Json.print, isKept, isAllowed, nextLine]
    | cons m ms =>
      obtain ⟨⟨hk, hv⟩, hms⟩ := List.forall_mem_cons.mp h
      rw [Json.print, kept_append, kept_cons, kept_append, kept_append, kept_cons]
      exact ⟨⟨by decide, ⟨kept_printString (jsonKeyCarries_spec hk).1, by decide, hv.kept⟩,
        kept_jsonMembers hms⟩, kept_cons.mpr ⟨by decide, kept_nil⟩⟩
  opens := by cases members <;> exact opens_cons.mpr (by decide)
  passes d a _ _ _ _ hs hF := passes_object h hs hF.opens

end Trees

end Tokens

/-! ## All trees -/

mutual

/-- Every tree is read whose strings and keys are read as themselves. -/
theorem flows_print : (j : Json) → j.Numberless → jsonCarries j = true → Flows j
  | .null, _, _ => flows_word (by decide) rfl
  | .bool true, _, _ => flows_word (by decide) rfl
  | .bool false, _, _ => flows_word (by decide) rfl
  | .number _, h, _ => h.elim
  | .string _, _, hs => flows_string hs
  | .array items, h, hitems => flows_array (flows_items items h hitems)
  | .object members, h, hmembers => flows_object (flows_members members h hmembers)

lemma flows_items : (items : List Json) → NumberlessItems items → jsonItemsCarry items = true →
    ∀ x ∈ items, Flows x
  | [], _, _, _, hx => absurd hx List.not_mem_nil
  | x :: xs, h, hcarry, y, hy => by
    rw [jsonItemsCarry, Bool.and_eq_true] at hcarry
    rcases List.mem_cons.mp hy with heq | hy
    · exact heq ▸ flows_print x h.1 hcarry.1
    · exact flows_items xs h.2 hcarry.2 y hy

lemma flows_members : (members : List (String × Json)) → NumberlessMembers members →
    jsonMembersCarry members = true → ∀ m ∈ members, jsonKeyCarries m.1 = true ∧ Flows m.2
  | [], _, _, _, hm => absurd hm List.not_mem_nil
  | (k, v) :: ms, h, hcarry, m, hm => by
    rw [jsonMembersCarry, Bool.and_eq_true, Bool.and_eq_true] at hcarry
    rcases List.mem_cons.mp hm with heq | hm
    · exact heq ▸ ⟨hcarry.1, flows_print v h.1 hcarry.2.1⟩
    · exact flows_members ms h.2 hcarry.2.2 m hm

end

/-! ## Documents -/

/-- At the end of a text outside of all brackets. -/
lemma Within.takeNext_end {s : Scan} {p : Place} {done : List Token} {allowed : Bool}
    (h : Within s p [] done 0 allowed) :
    ∃ b, s.takeNext = .ok b ∧ b.done = .streamEnd :: done := by
  have hend : isEnd (nextChar s.rest) = true := by
    rw [h.rest_eq, p.nextChar_glyphs kept_nil]
    rfl
  have hclosed : s.unroll (-1) = s := unroll_of_le (Int.le_of_eq h.indent_eq)
  have htake : s.takeNext = .ok { s with done := .streamEnd :: s.done, keyStart := none
                                         keyAllowed := false } := by
    rw [takeNext]
    simp only [hend, if_true, close, takeOutside, hclosed, dropKey_eq h.free]
    rfl
  exact ⟨_, htake, congrArg _ h.done_eq⟩

/-- The tokens of the JSON text of an object. -/
theorem tokens_print {members : List (String × Json)} (h : NumberlessMembers members)
    (hcarry : jsonMembersCarry members = true) :
    Token.ofText (Json.object members).print = flowTokens (.object members) ++ [.streamEnd] := by
  have hmembers := flows_members members h hcarry
  obtain ⟨hkept, hopens, -⟩ := flows_object hmembers
  have hstart : Within (inBlock Place.start (Json.object members).print [] (-1) [] true) Place.start
      ((Json.object members).print ++ []) [] 0 true :=
    ⟨by rw [List.append_nil]; rfl, by rwa [List.append_nil], rfl, rfl, rfl, rfl, nofun, nofun⟩
  obtain ⟨a, hleads, ha⟩ := passes_object hmembers hstart opens_nil
  obtain ⟨b, htake, hdone⟩ := ha.takeNext_end
  rw [tokens_of_text hkept hopens hleads htake (by simp [isOver, hdone]), hdone]
  simp

end Scan

end ConfigRegistry.Yaml
