/-
# Words without quotes

A word begins with a letter or a digit and goes on with these and a few marks that YAML gives no
meaning to.  So it can always be written plain, even if it is spelled like something else than a
text: `null`, `0x1F` and `1e400` are words.  What a word stands for where any value may be is
another question; as a scalar it has the text that it is written with.
-/
import ConfigRegistry.Proofs.Yaml.Scalar.Plain
import ConfigRegistry.Proofs.Yaml.Token.Scan

namespace ConfigRegistry.Yaml

/-- A character of a word. -/
def isBareChar (c : Char) : Bool := c.isAlphanum || ['.', '_', '+', '-'].contains c

/-- Whether a text is a word that needs no quotes: a letter or digit, and after it more of these,
points, underscores, plus signs and hyphens. -/
def isBare : List Char → Bool
  | [] => false
  | c :: rest => c.isAlphanum && rest.all isBareChar

/-- A word that needs no quotes. -/
structure BareWord where
  text : String
  bare : isBare text.toList = true

/-! ## Characters of words -/

/-- A property of characters with seven bits is a matter of checking them all. -/
lemma forall_ascii {P : Char → Prop} (h : ∀ n < 128, P (Char.ofNat n)) {c : Char}
    (hc : c.toNat < 128) : P c := by
  have hchar := h c.toNat hc
  rwa [Char.ofNat_toNat] at hchar

lemma toNat_lt_of_isAlphanum {c : Char} (h : c.isAlphanum = true) : c.toNat < 128 := by
  have hranges : (decide (c.val ≥ 'A'.val ∧ c.val ≤ 'Z'.val) ||
      (decide (c.val ≥ 'a'.val) && decide (c.val ≤ 'z'.val)) ||
      (decide (c.val ≥ '0'.val) && decide (c.val ≤ '9'.val))) = true := h
  simp only [Bool.or_eq_true, Bool.and_eq_true, decide_eq_true_eq, UInt32.le_iff_toNat_le,
    ge_iff_le] at hranges
  have hchar : c.toNat = c.val.toNat := rfl
  have hupper : 'Z'.val.toNat = 90 := rfl
  have hlower : 'z'.val.toNat = 122 := rfl
  have hdigit : '9'.val.toNat = 57 := rfl
  omega

lemma toNat_lt_of_isBareChar {c : Char} (h : isBareChar c = true) : c.toNat < 128 := by
  rw [isBareChar, Bool.or_eq_true] at h
  rcases h with h | h
  · exact toNat_lt_of_isAlphanum h
  · simp only [List.contains_cons, List.contains_nil, Bool.or_false, Bool.or_eq_true,
      beq_iff_eq] at h
    rcases h with rfl | rfl | rfl | rfl <;> decide

/-- A character of a word is visible, and it is no indicator inside of a text. -/
lemma isBareChar_spec {c : Char} (h : isBareChar c = true) :
    isPrintable c = true ∧ isBreak c = false ∧ isSpace c = false ∧ (c == ':') = false ∧
      (c == '#') = false :=
  forall_ascii (P := fun c => isBareChar c = true → isPrintable c = true ∧ isBreak c = false ∧
    isSpace c = false ∧ (c == ':') = false ∧ (c == '#') = false) (by decide +kernel)
    (toNat_lt_of_isBareChar h) h

/-- The first character of a word belongs to a word, and nothing else than a word begins with
it. -/
lemma isAlphanum_spec {c : Char} (h : c.isAlphanum = true) :
    isBareChar c = true ∧ isIndicator c = false ∧ (c == '?' || c == ':' || c == '-') = false ∧
      c ≠ '.' ∧ isGap c = false ∧ c ≠ byteOrderMark :=
  forall_ascii (P := fun c => c.isAlphanum = true → isBareChar c = true ∧ isIndicator c = false ∧
    (c == '?' || c == ':' || c == '-') = false ∧ c ≠ '.' ∧ isGap c = false ∧ c ≠ byteOrderMark)
    (by decide +kernel) (toNat_lt_of_isAlphanum h) h

lemma hasAdjacent_eq_false {p q : Char → Bool} {s : List Char} (h : ∀ c ∈ s, p c = false) :
    hasAdjacent p q s = false := by
  fun_induction hasAdjacent p q s with
  | case1 c d rest ih => simp [h c (by simp), ih fun e he => h e (.tail _ he)]
  | case2 => rfl

lemma hasInnerIndicator_of_isBareChar {s : List Char} (h : ∀ c ∈ s, isBareChar c = true)
    (previous : Char) : hasInnerIndicator previous s = false := by
  induction s generalizing previous with
  | nil => rfl
  | cons c s ih =>
    obtain ⟨hc, hs⟩ := List.forall_mem_cons.mp h
    obtain ⟨-, -, -, hcolon, hcomment⟩ := isBareChar_spec hc
    rw [hasInnerIndicator, hcolon, hcomment, ih hs]
    rfl

namespace BareWord

variable (w : BareWord)

lemma exists_toList_eq : ∃ c rest, w.text.toList = c :: rest ∧ c.isAlphanum = true ∧
    ∀ d ∈ c :: rest, isBareChar d = true := by
  have h := w.bare
  cases hw : w.text.toList with
  | nil =>
    rw [hw] at h
    cases h
  | cons c rest =>
    rw [hw, isBare, Bool.and_eq_true, List.all_eq_true] at h
    exact ⟨c, rest, rfl, h.1, List.forall_mem_cons.mpr ⟨(isAlphanum_spec h.1).1, h.2⟩⟩

lemma ne_nil : w.text.toList ≠ [] := by
  obtain ⟨c, rest, hw, -⟩ := w.exists_toList_eq
  simp [hw]

lemma isBareChar_of_mem {c : Char} (h : c ∈ w.text.toList) : isBareChar c = true := by
  obtain ⟨d, rest, hw, -, hchars⟩ := w.exists_toList_eq
  exact hchars c (hw ▸ h)

lemma not_isBreak : ∀ c ∈ w.text.toList, isBreak c = false :=
  fun _ hc => (isBareChar_spec (w.isBareChar_of_mem hc)).2.1

lemma kept : Kept w.text.toList :=
  .of_isPrintable fun _ hc => (isBareChar_spec (w.isBareChar_of_mem hc)).1

/-- A word begins with a character that is not passed over. -/
lemma opens_append (F : List Char) : Opens (w.text.toList ++ F) := by
  obtain ⟨c, rest, hw, hc, hchars⟩ := w.exists_toList_eq
  obtain ⟨-, -, -, -, hgap, hmark⟩ := isAlphanum_spec hc
  have hcomment := (isBareChar_spec (hchars c List.mem_cons_self)).2.2.2.2
  rw [hw, List.cons_append, opens_cons]
  exact ⟨hgap, beq_eq_false_iff_ne.mp hcomment, hmark⟩

/-- A word can be written plain, whatever it is spelled like. -/
theorem plainCarries : plainCarries w.text.toList = true := by
  obtain ⟨c, rest, hw, hc, hchars⟩ := w.exists_toList_eq
  obtain ⟨-, hindicator, hspecial, hpoint, -, -⟩ := isAlphanum_spec hc
  have hspace : ∀ d ∈ c :: rest, isSpace d = false := fun d hd =>
    (isBareChar_spec (hchars d hd)).2.2.1
  have hhyphen : c ≠ '-' := by
    rintro rfl
    simp at hspecial
  rw [hw]
  refine plainCarries_iff.mpr ⟨fun d hd => (isBareChar_spec (hchars d hd)).1,
    hasAdjacent_eq_false hspace, fun d hd => (isBareChar_spec (hchars d hd)).2.1,
    hspace c List.mem_cons_self, ?_, ?_⟩
  · rw [endsWith, List.getLast?_eq_some_getLast (List.cons_ne_nil c rest)]
    exact hspace _ (List.getLast_mem _)
  · rw [hasIndicator, hindicator, hspecial,
      hasInnerIndicator_of_isBareChar (List.forall_mem_cons.mp hchars).2]
    simp [hhyphen, hpoint]

end BareWord

end ConfigRegistry.Yaml
