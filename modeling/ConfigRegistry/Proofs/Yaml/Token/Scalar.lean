/-
# Scalars and brackets as tokens

A scalar may be a key, and so may a collection in brackets.  Where a key may begin, the place is
noted before the token is taken; a literal block is no key.  What is left after a scalar, the
readers of scalars tell.  A bracket that opens a collection puts the place that was noted aside, and
the bracket that closes the collection takes it up again.
-/
import ConfigRegistry.Proofs.Yaml.Scalar.Literal
import ConfigRegistry.Proofs.Yaml.Token.Scan

namespace ConfigRegistry.Yaml.Scan

variable {s : Scan} {p : Place} {F : List Char}

/-! ## Noting and giving up a place -/

/-- No key has to begin at the last place that was noted. -/
def Free (s : Scan) : Prop := ∀ k ∈ s.keyStart, k.required = false

/-- The place of a key that may begin at a glyph, or else the last one that was noted. -/
def noted (s : Scan) (g : Glyph) : Option KeyStart :=
  if s.keyAllowed then
    some ⟨s.done.length, !s.inFlow && s.indent == g.column, g.index, g.line, g.column⟩
  else s.keyStart

lemma dropKey_eq (h : s.Free) : s.dropKey = .ok { s with keyStart := none } := by
  rw [dropKey]
  split
  · next k hk => rw [if_neg (by simp [h k hk])]
  · next hk =>
    rw [← hk]

lemma saveKey_eq {g : Glyph} {l : List Glyph} (hrest : s.rest = g :: l) (h : s.Free) :
    s.saveKey = .ok { s with keyStart := s.noted g } := by
  rw [saveKey]
  split
  · next hnil =>
    rw [hrest] at hnil
    cases hnil
  · next g' l' hcons =>
    rw [hrest] at hcons
    cases hcons
    by_cases hallowed : s.keyAllowed = true
    · rw [if_pos hallowed, dropKey_eq h, noted, if_pos hallowed]
      rfl
    · rw [if_neg hallowed, noted, if_neg hallowed]

/-! ## The four styles -/

lemma takeInLine_eq {g : Glyph} {l rest : List Glyph} {t : Token}
    {r : List Glyph → Except Fault (Token × List Glyph)} (hrest : s.rest = g :: l) (h : s.Free)
    (hread : r s.rest = .ok (t, rest)) :
    s.takeInLine r = .ok { s with rest := rest, done := t :: s.done, keyStart := s.noted g
                                  keyAllowed := false } := by
  rw [takeInLine, saveKey_eq hrest h]
  simp [take, allowKey, hread, emit, bind, Except.bind, pure, Except.pure]

/-- A quote is taken, and what is read behind it is a scalar that may be a key. -/
lemma takeInLine_quoted {quote : Char} (hquote : isKept quote = true) (style : Style)
    {r : List Glyph → Except Fault (String × List Glyph)} {text : String} {rest : List Glyph}
    (hrest : s.rest = p.glyphs (quote :: F)) (h : s.Free)
    (hread : r ((p.next quote).glyphs F) = .ok (text, rest)) :
    (s.takeInLine fun rest => do
        let (text, rest) ← r (rest.drop 1)
        return (.scalar style text, rest)) =
      .ok { s with rest := rest, done := .scalar style text :: s.done
                   keyStart := s.noted (p.glyph quote), keyAllowed := false } := by
  rw [p.glyphs_cons hquote] at hrest
  rw [takeInLine_eq hrest h]
  rw [hrest, List.drop_one, List.tail_cons, hread]
  rfl

lemma takeNext_singleQuoted {text : String} {rest : List Glyph}
    (hrest : s.rest = p.glyphs ('\'' :: F)) (h : s.Free)
    (hread : singleQuoted [] .none ((p.next '\'').glyphs F) = .ok (text, rest)) :
    s.takeNext = .ok { s with rest := rest, done := .scalar .singleQuoted text :: s.done
                              keyStart := s.noted (p.glyph '\''), keyAllowed := false } := by
  have hnext : nextChar s.rest = '\'' := by rw [hrest, p.glyphs_cons (by decide)]; rfl
  have htake : s.takeNext = s.takeInLine fun rest => do
      let (text, rest) ← singleQuoted [] .none (rest.drop 1)
      return (.scalar .singleQuoted text, rest) := by
    simp [takeNext, hnext, isEnd, endMark, atMark]
  exact htake.trans (takeInLine_quoted (by decide) .singleQuoted hrest h hread)

lemma takeNext_doubleQuoted {text : String} {rest : List Glyph}
    (hrest : s.rest = p.glyphs ('"' :: F)) (h : s.Free)
    (hread : doubleQuoted [] .none 0 ((p.next '"').glyphs F) = .ok (text, rest)) :
    s.takeNext = .ok { s with rest := rest, done := .scalar .doubleQuoted text :: s.done
                              keyStart := s.noted (p.glyph '"'), keyAllowed := false } := by
  have hnext : nextChar s.rest = '"' := by rw [hrest, p.glyphs_cons (by decide)]; rfl
  have htake : s.takeNext = s.takeInLine fun rest => do
      let (text, rest) ← doubleQuoted [] .none 0 (rest.drop 1)
      return (.scalar .doubleQuoted text, rest) := by
    simp [takeNext, hnext, isEnd, endMark, atMark]
  exact htake.trans (takeInLine_quoted (by decide) .doubleQuoted hrest h hread)

lemma takeNext_literal {text : String} {rest : List Glyph} (hrest : s.rest = p.glyphs ('|' :: F))
    (hflow : s.inFlow = false) (h : s.Free)
    (hread : block true s.indent ((p.next '|').glyphs F) = .ok (text, rest)) :
    s.takeNext = .ok { s with rest := rest, done := .scalar .literal text :: s.done
                              keyStart := none, keyAllowed := true } := by
  rw [p.glyphs_cons (by decide)] at hrest
  have hnext : nextChar s.rest = '|' := by rw [hrest]; rfl
  have htake : s.takeNext = s.blockScalar true := by
    simp [takeNext, hnext, isEnd, endMark, atMark, hflow]
  rw [htake, blockScalar, dropKey_eq h]
  simp [take, allowKey, hrest, hread, emit, bind, Except.bind, pure, Except.pure]

/-- Where no other token begins, a plain scalar does. -/
lemma takeNext_plain {c : Char} {text : Plain} (hrest : s.rest = p.glyphs (c :: F))
    (hkept : isKept c = true) (h : s.Free) (hgap : isGap c = false)
    (hindicator : isIndicator c = false)
    (hahead : c = '-' ∨ c = '?' ∨ c = ':' → s.inFlow = false ∧ isGap (charAt s.rest 1) = false)
    (hmark : atDocumentMark s.rest = false)
    (hread : plain s.inFlow (s.indent + 1) [] .none s.rest = .ok text) :
    s.takeNext = .ok { s with rest := text.rest, done := .scalar .plain text.text :: s.done
                              keyStart := s.noted (p.glyph c), keyAllowed := text.lineEnded } := by
  have hglyphs := hrest
  rw [p.glyphs_cons hkept] at hglyphs
  have hnext : nextChar s.rest = c := by rw [hglyphs]; rfl
  rw [atDocumentMark, Bool.or_eq_false_iff] at hmark
  simp only [isIndicator, List.contains_cons, List.contains_nil, Bool.or_false,
    Bool.or_eq_false_iff, beq_eq_false_iff_ne] at hindicator
  have htake : s.takeNext = s.plainScalar := by
    by_cases hspecial : c = '-' ∨ c = '?' ∨ c = ':'
    · obtain ⟨hflow, hgapAhead⟩ := hahead hspecial
      have hblankAhead := (isGap_eq_false_iff.mp hgapAhead).1
      obtain ⟨-, -, hend⟩ := isGap_eq_false_iff.mp hgap
      rcases hspecial with rfl | rfl | rfl <;>
        simp [takeNext, hnext, hend, hmark, hflow, hgapAhead, beginsPlain, hblankAhead]
    · obtain ⟨-, -, hend⟩ := isGap_eq_false_iff.mp hgap
      simp only [not_or] at hspecial
      simp [takeNext, hnext, hend, hmark, hindicator, hspecial, beginsPlain, hgap]
  rw [htake, plainScalar, saveKey_eq hglyphs h]
  simp only [inFlow] at hread
  simp only [inFlow, bind, Except.bind, hread]
  rfl

/-! ## Brackets -/

/-- A bracket that opens a collection, and its token. -/
inductive Opening : Char → Token → Prop
  | sequence : Opening '[' .flowSequenceStart
  | mapping : Opening '{' .flowMappingStart

/-- A bracket that closes a collection, and its token. -/
inductive Closing : Char → Token → Prop
  | sequence : Closing ']' .flowSequenceEnd
  | mapping : Closing '}' .flowMappingEnd

lemma takeNext_opening {c : Char} {t : Token} (hc : Opening c t)
    (hrest : s.rest = p.glyphs (c :: F)) (h : s.Free) :
    s.takeNext = .ok { s with rest := (p.next c).glyphs F, done := t :: s.done, keyStart := none
                              outerKeys := s.noted (p.glyph c) :: s.outerKeys
                              keyAllowed := true } := by
  have hkept : isKept c = true := by cases hc <;> decide
  rw [p.glyphs_cons hkept] at hrest
  have hnext : nextChar s.rest = c := by rw [hrest]; rfl
  have htake : s.takeNext = s.openFlow t := by
    cases hc <;> simp [takeNext, hnext, isEnd, endMark, atMark]
  rw [htake, openFlow, saveKey_eq hrest h]
  simp [hrest, skip, emit, allowKey, bind, Except.bind, pure, Except.pure]

lemma takeNext_closing {c : Char} {t : Token} (hc : Closing c t)
    (hrest : s.rest = p.glyphs (c :: F)) (h : s.Free) {k : Option KeyStart}
    {outerKeys : List (Option KeyStart)} (houter : s.outerKeys = k :: outerKeys) :
    s.takeNext = .ok { s with rest := (p.next c).glyphs F, done := t :: s.done, keyStart := k
                              outerKeys := outerKeys, keyAllowed := false } := by
  have hkept : isKept c = true := by cases hc <;> decide
  rw [p.glyphs_cons hkept] at hrest
  have hnext : nextChar s.rest = c := by rw [hrest]; rfl
  have htake : s.takeNext = s.closeFlow t := by
    cases hc <;> simp [takeNext, hnext, isEnd, endMark, atMark]
  rw [htake, closeFlow, dropKey_eq h]
  simp [hrest, houter, skip, emit, allowKey, bind, Except.bind, pure, Except.pure]

end ConfigRegistry.Yaml.Scan
