/-
# Strings survive quotation

What the printer writes for a string, the reader of strings takes back character by character.
A character is written either as itself, with a single letter after a backslash, or with four
hexadecimal digits, and the reader distinguishes the three by the first character.  Since the
characters read so far are held in reverse, the statement for a whole string is about any such
beginning.
-/
import ConfigRegistry.Json.Printer
import ConfigRegistry.Json.Quotation
import Mathlib.Tactic.Common

namespace ConfigRegistry.Json

/-! ## Hexadecimal digits -/

lemma hexValue_hexDigit : ∀ n < 16, hexValue (hexDigit n) = some n := by
  decide

/-- Four digits that the printer may write make up their number. -/
lemma hexQuad_hexDigits {a b : Nat} (ha : a < 16) (hb : b < 16) (rest : List Char) :
    ∃ h, hexQuad ('0' :: '0' :: hexDigit a :: hexDigit b :: rest) =
      .ok (a * 16 + b, ⟨rest, h⟩) := by
  have hzero : hexValue '0' = some 0 := by decide
  refine ⟨by simp only [List.length_cons]; omega, ?_⟩
  rw [hexQuad]
  simp [hzero, hexValue_hexDigit a ha, hexValue_hexDigit b hb]

/-- The numeric escape of a character below the space is read as that character. -/
lemma unicodeEscape_hexDigits {c : Char} (hc : c.toNat < 0x20) (rest : List Char) :
    ∃ h, unicodeEscape
        ('0' :: '0' :: hexDigit (c.toNat / 16) :: hexDigit (c.toNat % 16) :: rest) =
      .ok (c, ⟨rest, h⟩) := by
  obtain ⟨h, hquad⟩ := hexQuad_hexDigits (a := c.toNat / 16) (b := c.toNat % 16)
    (by omega) (Nat.mod_lt _ (by omega)) rest
  have hsum : c.toNat / 16 * 16 + c.toNat % 16 = c.toNat := by omega
  -- a control character is no surrogate, so no second escape is looked for
  have htrail : isTrailingSurrogate c.toNat = false := by
    simp only [isTrailingSurrogate, Bool.and_eq_false_iff, decide_eq_false_iff_not]
    omega
  have hlead : isLeadingSurrogate c.toNat = false := by
    simp only [isLeadingSurrogate, Bool.and_eq_false_iff, decide_eq_false_iff_not]
    omega
  rw [hsum] at hquad
  refine ⟨h, ?_⟩
  rw [unicodeEscape, hquad]
  simp [bind, Except.bind, htrail, hlead, Char.ofNat_toNat]

/-! ## Strings -/

/-- An escape of a single letter is read as the character it stands for. -/
lemma stringBody_of_escape {done rest s : List Char} {c : Char} {h : rest.length ≤ s.length}
    (hescape : escape s = .ok (c, ⟨rest, h⟩)) :
    stringBody done ('\\' :: s) = stringBody (c :: done) rest := by
  rw [stringBody, hescape]

/-- A character that needs no escape is read as it stands. -/
lemma stringBody_of_plain {done rest : List Char} {c : Char} (hquote : c ≠ '"')
    (hbackslash : c ≠ '\\') (hcontrol : ¬c.toNat < 0x20) :
    stringBody done (c :: rest) = stringBody (c :: done) rest := by
  rw [stringBody, if_neg hcontrol]
  · exact hquote
  · exact hbackslash

/-- A written character is read as itself. -/
lemma stringBody_escapeChar (done rest : List Char) (c : Char) :
    stringBody done (escapeChar c ++ rest) = stringBody (c :: done) rest := by
  rw [escapeChar.eq_def]
  split
  case h_8 hquote hbackslash _ _ _ _ _ =>
    split
    · next hc =>
      obtain ⟨h, hnumeric⟩ := unicodeEscape_hexDigits hc rest
      have hescape : escape ('u' :: '0' :: '0' :: hexDigit (c.toNat / 16) ::
          hexDigit (c.toNat % 16) :: rest) =
          .ok (c, ⟨rest, by simp only [List.length_cons]; omega⟩) := by
        rw [escape, hnumeric]
        rfl
      exact stringBody_of_escape hescape
    · next hc =>
      exact stringBody_of_plain hquote hbackslash hc
  all_goals exact stringBody_of_escape rfl

/-- A written string is read as itself, and what follows its closing quote is left. -/
lemma stringBody_escaped (done s rest : List Char) :
    stringBody done (s.flatMap escapeChar ++ '"' :: rest) =
      ⟨.ok (String.ofList (done.reverse ++ s)), rest⟩ := by
  induction s generalizing done with
  | nil =>
    rw [List.flatMap_nil, List.nil_append, stringBody, List.append_nil]
  | cons c s ih =>
    rw [List.flatMap_cons, List.append_assoc, stringBody_escapeChar, ih]
    simp

/-- The printed text of a string is a quote, and behind it the string is read. -/
theorem stringBody_printString (s : String) (rest : List Char) :
    ∃ body, printString s ++ rest = '"' :: body ∧ stringBody [] body = ⟨.ok s, rest⟩ := by
  refine ⟨s.toList.flatMap escapeChar ++ '"' :: rest, ?_, ?_⟩
  · simp [printString]
  · rw [stringBody_escaped]
    simp

end ConfigRegistry.Json
