/-
# JSON strings as double-quoted scalars

A JSON string has the form of a scalar in double quotes, and all its escapes are known there.  It is
what JSON leaves unescaped that makes a difference.  A control character behind the space is not
allowed in a YAML text, the next line is folded, and the separators of lines and paragraphs end a
line: spaces next to them are lost, and the line behind them may begin with the mark of a document.
Any other string is read as itself (`doubleQuoted_printString`).
-/
import ConfigRegistry.Json.Printer
import ConfigRegistry.Proofs.Yaml.Scalar.DoubleQuoted

namespace ConfigRegistry.Yaml

open Json (escapeChar printString)

/-! ## Strings that are read as themselves -/

/-- What stands between the quotes of a JSON string. -/
def jsonBody (s : List Char) : List Char := s.flatMap escapeChar

/-- Whether a JSON string is read as itself. -/
def jsonTextCarries (s : String) : Bool :=
  let body := jsonBody s.toList
  body.all isKept && !(hasAdjacent isSpace isBreak body || hasAdjacent isBreak isSpace body ||
    hasInnerMark body)

lemma printString_eq (s : String) : printString s = '"' :: (jsonBody s.toList ++ ['"']) := rfl

/-! ## Characters -/

lemma isKept_jsonHexDigit : ∀ n < 16, isKept (Json.hexDigit n) = true ∧
    isBreak (Json.hexDigit n) = false ∧ hexDigitValue (Json.hexDigit n) = some n := by
  decide

/-- The numeric escape of a character below the space. -/
lemma isEscape_hexDigits {c : Char} (hc : c.toNat < 0x20) :
    IsEscape 'u' ['0', '0', Json.hexDigit (c.toNat / 16), Json.hexDigit (c.toNat % 16)] c := by
  obtain ⟨hkept, hbreak, hhigh⟩ := isKept_jsonHexDigit (c.toNat / 16) (by omega)
  obtain ⟨hkept', hbreak', hlow⟩ := isKept_jsonHexDigit (c.toNat % 16) (Nat.mod_lt _ (by decide))
  have hzero : hexDigitValue '0' = some 0 := by decide
  have hsum : c.toNat / 16 * 16 + c.toNat % 16 = c.toNat := by omega
  refine isEscape_of_hexNumber (.inr rfl) rfl ?_ ?_
  · intro d hd
    simp only [List.mem_cons, List.not_mem_nil, or_false] at hd
    rcases hd with rfl | rfl | rfl | rfl
    · decide
    · decide
    · exact ⟨hkept, hbreak⟩
    · exact ⟨hkept', hbreak'⟩
  · simp [hexNumber, hzero, hhigh, hlow, hsum]

/-- A character of a JSON string is written as an escape, or as itself. -/
lemma inDouble_escapeChar (c : Char) : InDouble c (escapeChar c) := by
  rw [Json.escapeChar.eq_def]
  split
  case h_8 hquote hbackslash _ _ _ _ htab =>
    split
    · next hc =>
      exact .escape (isEscape_hexDigits hc)
    · exact .itself hquote hbackslash htab
  all_goals exact .escape (isEscape_of_escapedChar (by decide) (by decide) rfl)

/-! ## Strings -/

/-- A line feed is always written as an escape. -/
lemma not_mem_jsonBody (s : List Char) : '\n' ∉ jsonBody s := by
  intro h
  obtain ⟨c, -, hc⟩ := List.mem_flatMap.mp h
  by_cases hfeed : c = '\n'
  · subst hfeed
    exact absurd hc (by decide)
  · generalize hw : escapeChar c = w at hc
    cases hw ▸ inDouble_escapeChar c with
    | escape hescape =>
      rcases List.mem_cons.mp hc with hc | hc
      · exact absurd hc (by decide)
      · exact absurd (hescape.no_break _ hc) (by decide)
    | itself => exact hfeed (List.mem_singleton.mp hc).symm

lemma jsonTextCarries_iff {s : String} :
    jsonTextCarries s = true ↔ Carried (jsonBody s.toList) := by
  simp only [jsonTextCarries, Bool.and_eq_true, List.all_eq_true, Bool.not_eq_true',
    Bool.or_eq_false_iff]
  constructor
  · rintro ⟨hkept, ⟨hbefore, hafter⟩, hmark⟩
    exact ⟨hkept, ⟨not_mem_jsonBody _, hbefore, hafter⟩, hmark⟩
  · rintro ⟨hkept, hunfolded, hmark⟩
    exact ⟨hkept, ⟨hunfolded.no_space_before, hunfolded.no_space_after⟩, hmark⟩

/-- A JSON string is read as itself, up to its closing quote. -/
theorem doubleQuoted_printString {s : String} {p : Place} {F : List Char}
    (hs : jsonTextCarries s = true) (hF : Kept F) :
    doubleQuoted [] .none 0 ((p.next '"').glyphs (jsonBody s.toList ++ '"' :: F)) =
      .ok (s, (p.after (printString s)).glyphs F) := by
  have hread : doubleQuoted [] .none 0 ((p.next '"').glyphs (jsonBody s.toList ++ '"' :: F)) = _ :=
    doubleQuoted_written inDouble_escapeChar (jsonTextCarries_iff.mp hs) hF
  rw [hread, String.ofList_toList]
  rfl

end ConfigRegistry.Yaml
