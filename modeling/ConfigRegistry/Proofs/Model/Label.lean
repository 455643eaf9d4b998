/-
# The language of labels

Apart from their length, labels are the words of the pattern `[a-z0-9]([-a-z0-9]*[a-z0-9])?`.  Its
star also takes the letters and digits that have to follow it, so from the left it does not show
where the star ends.  From both sides it does: a word of the pattern is a letter or digit alone, or
one at each end with letters, digits and hyphens in between.  The test of labels goes over a text
from the left and remembers no more than whether the text could end there; of texts cut up in the
same way it accepts the same ones (`Label.isWord_iff_mem_pattern`).  What a label is can also be
said by its characters, its beginning and its end (`Label.isWord_iff`).
-/
import Mathlib.Computability.RegularExpressions
import Mathlib.Data.List.Induction
import ConfigRegistry.Model.Label

namespace ConfigRegistry.Label

open RegularExpression (char matches'_add matches'_mul matches'_star)

/-! ## Classes of letters -/

section Class

variable {α : Type*}

/-- The expression matches the words of a single letter with the property, and no others. -/
def IsClass (r : RegularExpression α) (p : α → Prop) : Prop :=
  ∀ w, w ∈ r.matches' ↔ ∃ a, p a ∧ w = [a]

lemma isClass_char (a : α) : IsClass (char a) (· = a) := by
  intro w
  rw [exists_eq_left]
  exact Set.mem_singleton_iff

namespace IsClass

variable {r s : RegularExpression α} {p q : α → Prop}

lemma congr (h : IsClass r p) (hpq : ∀ a, p a ↔ q a) : IsClass r q := by
  intro w
  rw [h w]
  simp only [hpq]

lemma add (hr : IsClass r p) (hs : IsClass s q) : IsClass (r + s) fun a => p a ∨ q a := by
  intro w
  rw [matches'_add, Language.mem_add, hr w, hs w]
  simp only [or_and_right, exists_or]

variable (h : IsClass r p)

include h

/-- The star of a class matches the words over the class. -/
lemma mem_star_iff {w : List α} : w ∈ r.star.matches' ↔ ∀ a ∈ w, p a := by
  rw [matches'_star, Language.mem_kstar]
  constructor
  · rintro ⟨words, rfl, hwords⟩ a ha
    obtain ⟨word, hword, ha⟩ := List.mem_flatten.mp ha
    obtain ⟨b, hb, rfl⟩ := (h word).mp (hwords word hword)
    rw [List.mem_singleton.mp ha]
    exact hb
  · intro hw
    refine ⟨w.map fun a => [a], (List.flatMap_singleton' w).symm, ?_⟩
    rw [List.forall_mem_map]
    exact fun a ha => (h [a]).mpr ⟨a, hw a ha, rfl⟩

lemma nil_notMem_mul : [] ∉ (r * s).matches' := by
  rw [matches'_mul, Language.mem_mul]
  rintro ⟨u, hu, v, -, huv⟩
  obtain ⟨a, -, rfl⟩ := (h u).mp hu
  cases huv

lemma cons_mem_mul_iff {a : α} {w : List α} :
    a :: w ∈ (r * s).matches' ↔ p a ∧ w ∈ s.matches' := by
  rw [matches'_mul, Language.mem_mul]
  constructor
  · rintro ⟨u, hu, v, hv, huv⟩
    obtain ⟨b, hb, rfl⟩ := (h u).mp hu
    cases huv
    exact ⟨hb, hv⟩
  · rintro ⟨ha, hw⟩
    exact ⟨[a], (h [a]).mpr ⟨a, ha, rfl⟩, w, hw, rfl⟩

lemma concat_mem_mul_iff {a : α} {w : List α} :
    w ++ [a] ∈ (s * r).matches' ↔ w ∈ s.matches' ∧ p a := by
  rw [matches'_mul, Language.mem_mul]
  constructor
  · rintro ⟨u, hu, v, hv, huv⟩
    obtain ⟨b, hb, rfl⟩ := (h v).mp hv
    obtain ⟨rfl, hab⟩ := List.append_inj' huv rfl
    cases hab
    exact ⟨hu, hb⟩
  · rintro ⟨hw, ha⟩
    exact ⟨w, hw, [a], (h [a]).mpr ⟨a, ha, rfl⟩, rfl⟩

end IsClass

end Class

/-! ## The pattern -/

/-- One of the characters. -/
def oneOf : List Char → RegularExpression Char
  | [] => 0
  | c :: cs => char c + oneOf cs

/-- A character from a first to a last one. -/
def span (first last : Char) : RegularExpression Char :=
  oneOf ((List.range' first.toNat (last.toNat + 1 - first.toNat)).map Char.ofNat)

/-- A letter or digit, `[a-z0-9]`. -/
def alphanumeric : RegularExpression Char := span 'a' 'z' + span '0' '9'

/-- A letter, digit or hyphen, `[-a-z0-9]`. -/
def inner : RegularExpression Char := char '-' + alphanumeric

/-- The pattern of labels, `[a-z0-9]([-a-z0-9]*[a-z0-9])?`. -/
def pattern : RegularExpression Char := alphanumeric * (1 + inner.star * alphanumeric)

/-- A character that may stand inside of a label. -/
def isInner (c : Char) : Bool := c == '-' || isAlphanumeric c

lemma isClass_oneOf (cs : List Char) : IsClass (oneOf cs) (· ∈ cs) := by
  induction cs with
  | nil =>
    intro w
    refine iff_of_false (Language.notMem_zero w) ?_
    simp
  | cons c cs ih => exact ((isClass_char c).add ih).congr fun d => List.mem_cons.symm

lemma le_iff_toNat_le {c d : Char} : c ≤ d ↔ c.toNat ≤ d.toNat :=
  Char.le_def.trans UInt32.le_iff_toNat_le

/-- Below the surrogates there are no gaps in the numbers of characters. -/
lemma isClass_span {first last : Char} (hlast : last.toNat < 0xd800) :
    IsClass (span first last) fun c => first ≤ c ∧ c ≤ last := by
  refine (isClass_oneOf _).congr fun c => ?_
  simp only [List.mem_map, List.mem_range'_1, le_iff_toNat_le]
  constructor
  · rintro ⟨n, ⟨hfirst, hn⟩, rfl⟩
    have hvalid : n.isValidChar := Or.inl (by omega)
    have hchar : (Char.ofNat n).toNat = n := by
      rw [Char.ofNat, dif_pos hvalid]
      rfl
    omega
  · rintro ⟨hfirst, hc⟩
    exact ⟨c.toNat, ⟨hfirst, by omega⟩, c.ofNat_toNat⟩

lemma isClass_alphanumeric : IsClass alphanumeric (isAlphanumeric · = true) := by
  refine ((isClass_span (by decide)).add (isClass_span (by decide))).congr fun c => ?_
  simp [isAlphanumeric]

lemma isClass_inner : IsClass inner (isInner · = true) := by
  refine ((isClass_char '-').add isClass_alphanumeric).congr fun c => ?_
  simp [isInner]

/-! ## Words from both sides -/

lemma nil_notMem_pattern : [] ∉ pattern.matches' := isClass_alphanumeric.nil_notMem_mul

lemma singleton_mem_pattern_iff {c : Char} :
    [c] ∈ pattern.matches' ↔ isAlphanumeric c = true := by
  rw [pattern, isClass_alphanumeric.cons_mem_mul_iff, matches'_add, Language.mem_add]
  exact and_iff_left (Or.inl Language.nil_mem_one)

lemma cons_concat_mem_pattern_iff {c d : Char} {w : List Char} :
    c :: (w ++ [d]) ∈ pattern.matches' ↔
      isAlphanumeric c = true ∧ (∀ x ∈ w, isInner x = true) ∧ isAlphanumeric d = true := by
  have hne : w ++ [d] ∉ (1 : RegularExpression Char).matches' := by
    rw [RegularExpression.matches'_epsilon, Language.mem_one]
    simp
  rw [pattern, isClass_alphanumeric.cons_mem_mul_iff, matches'_add, Language.mem_add,
    or_iff_right hne, isClass_alphanumeric.concat_mem_mul_iff, isClass_inner.mem_star_iff]

/-- At the last character it does not matter any more whether a label could end before it. -/
lemma continues_concat (ending : Bool) (w : List Char) (d : Char) :
    continues ending (w ++ [d]) = (w.all isInner && isAlphanumeric d) := by
  induction w generalizing ending with
  | nil => simp [continues]
  | cons c w ih =>
    rw [List.cons_append, continues, ih, ih, List.all_cons, isInner]
    cases isAlphanumeric c <;> cases c == '-' <;> simp

lemma isWord_singleton (c : Char) : isWord [c] = isAlphanumeric c := Bool.and_true _

lemma isWord_cons_concat_iff {c d : Char} {w : List Char} :
    isWord (c :: (w ++ [d])) = true ↔
      isAlphanumeric c = true ∧ (∀ x ∈ w, isInner x = true) ∧ isAlphanumeric d = true := by
  rw [isWord, continues_concat, Bool.and_eq_true, Bool.and_eq_true, List.all_eq_true]

/-- The test accepts the words of the pattern. -/
theorem isWord_iff_mem_pattern {w : List Char} : isWord w = true ↔ w ∈ pattern.matches' := by
  induction w using List.bidirectionalRec with
  | nil => exact iff_of_false nofun nil_notMem_pattern
  | singleton c => rw [isWord_singleton, singleton_mem_pattern_iff]
  | cons_append c w d _ => rw [isWord_cons_concat_iff, cons_concat_mem_pattern_iff]

lemma isAlphanumeric_iff {c : Char} : isAlphanumeric c = true ↔ isInner c = true ∧ c ≠ '-' := by
  rw [isInner, Bool.or_eq_true, beq_iff_eq]
  constructor
  · intro h
    refine ⟨Or.inr h, ?_⟩
    rintro rfl
    cases h
  · rintro ⟨rfl | h, hne⟩
    · exact absurd rfl hne
    · exact h

/-- Words are told by their characters, their beginning and their end. -/
theorem isWord_iff {w : List Char} :
    isWord w = true ↔ w ≠ [] ∧ (∀ c ∈ w, isInner c = true) ∧ w.head? ≠ some '-' ∧
      w.getLast? ≠ some '-' := by
  induction w using List.bidirectionalRec with
  | nil => simp [isWord]
  | singleton c => simp [isWord_singleton, isAlphanumeric_iff]
  | cons_append c w d _ =>
    have hchars : (∀ x ∈ c :: (w ++ [d]), isInner x = true) ↔
        isInner c = true ∧ (∀ x ∈ w, isInner x = true) ∧ isInner d = true := by
      rw [List.forall_mem_cons, List.forall_mem_append, List.forall_mem_singleton]
    rw [isWord_cons_concat_iff, isAlphanumeric_iff, isAlphanumeric_iff, hchars,
      ← List.cons_append, List.getLast?_concat]
    simp only [List.cons_append, List.head?_cons, ne_eq, List.cons_ne_nil, not_false_eq_true,
      Option.some.injEq, true_and]
    tauto

/-! ## Characters of labels -/

lemma isInner_iff {c : Char} :
    isInner c = true ↔ c.isLower = true ∨ c.isDigit = true ∨ c = '-' := by
  have halphanumeric : isAlphanumeric c = (c.isLower || c.isDigit) := rfl
  rw [isInner, halphanumeric, Bool.or_eq_true, Bool.or_eq_true, beq_iff_eq, or_comm, or_assoc]

lemma toNat_le_of_isInner {c : Char} (h : isInner c = true) : c.toNat ≤ 127 := by
  have hlower : 'z'.toNat = 122 := rfl
  have hdigit : '9'.toNat = 57 := rfl
  have hhyphen : '-'.toNat = 45 := rfl
  simp only [isInner, isAlphanumeric, Bool.or_eq_true, Bool.and_eq_true, decide_eq_true_eq,
    beq_iff_eq, le_iff_toNat_le] at h
  rcases h with rfl | h | h <;> omega

/-- Words put together with any number of hyphens between them are a word. -/
lemma isWord_join {v w : List Char} (hv : isWord v = true) (hw : isWord w = true) (k : Nat) :
    isWord (v ++ List.replicate k '-' ++ w) = true := by
  obtain ⟨hvne, hvchars, hvhead, -⟩ := isWord_iff.mp hv
  obtain ⟨hwne, hwchars, -, hwlast⟩ := isWord_iff.mp hw
  have hhyphens : ∀ c ∈ List.replicate k '-', isInner c = true := by
    intro c hc
    rw [List.eq_of_mem_replicate hc]
    rfl
  refine isWord_iff.mpr ⟨List.append_ne_nil_of_right_ne_nil _ hwne, ?_, ?_, ?_⟩
  · rw [List.forall_mem_append, List.forall_mem_append]
    exact ⟨⟨hvchars, hhyphens⟩, hwchars⟩
  · rwa [List.append_assoc, List.head?_append_of_ne_nil _ hvne]
  · rwa [List.getLast?_append_of_ne_nil _ hwne]

end ConfigRegistry.Label

namespace ConfigRegistry

open Label

lemma isLabel_iff {s : String} :
    isLabel s = true ↔ s.utf8ByteSize ≤ 63 ∧ isWord s.toList = true := by
  rw [isLabel, Bool.and_eq_true, decide_eq_true_eq, maxLength]

/-- **Labels are the short words of their pattern.**  A text is a label exactly if it has 63 bytes
at most and the pattern matches the whole of it; and the pattern matches just the texts that are not
empty, are made of lower-case letters, digits and hyphens, and neither begin nor end with a hyphen.
So no line break ends a label and no character outside of ASCII is in one, and two labels with
hyphens between them are a label as long as they are not too long together. -/
theorem isLabel_recognizes :
    (∀ s : String, isLabel s = true ↔ s.utf8ByteSize ≤ 63 ∧ s.toList ∈ pattern.matches') ∧
    (∀ s : String, s.toList ∈ pattern.matches' ↔
      s ≠ "" ∧ (∀ c ∈ s.toList, c.isLower = true ∨ c.isDigit = true ∨ c = '-') ∧
        s.toList.head? ≠ some '-' ∧ s.toList.getLast? ≠ some '-') ∧
    (∀ s : String, isLabel (s ++ "\n") = false) ∧
    (∀ s : String, ∀ c ∈ s.toList, 127 < c.toNat → isLabel s = false) ∧
    ∀ (a b : String) (k : Nat), isLabel a = true → isLabel b = true →
      let joined := a ++ String.ofList (List.replicate k '-') ++ b
      joined.utf8ByteSize ≤ 63 → isLabel joined = true := by
  have hchars : ∀ s : String, isLabel s = true → ∀ c ∈ s.toList, isInner c = true :=
    fun s hs => (isWord_iff.mp (isLabel_iff.mp hs).2).2.1
  refine ⟨fun s => ?_, fun s => ?_, fun s => ?_, fun s c hc hlarge => ?_, fun a b k ha hb => ?_⟩
  · rw [isLabel_iff, isWord_iff_mem_pattern]
  · simp only [← isWord_iff_mem_pattern, isWord_iff, isInner_iff, ne_eq, String.toList_eq_nil_iff]
  · rw [← Bool.not_eq_true]
    intro hs
    have hbreak : '\n' ∈ (s ++ "\n").toList := by simp
    exact absurd (hchars _ hs _ hbreak) (by decide)
  · rw [← Bool.not_eq_true]
    intro hs
    exact absurd (toNat_le_of_isInner (hchars s hs c hc)) (Nat.not_le_of_lt hlarge)
  · intro joined hshort
    refine isLabel_iff.mpr ⟨hshort, ?_⟩
    have hjoined := isWord_join (isLabel_iff.mp ha).2 (isLabel_iff.mp hb).2 k
    rwa [String.toList_append, String.toList_append, String.toList_ofList]

/-- Two labels with two hyphens between them, and a text with a letter outside of ASCII. -/
theorem isLabel_recognizes_joined :
    isLabel "db" = true ∧ isLabel "7" = true ∧ isLabel "db--7" = true ∧
      'é' ∈ "café".toList ∧ 127 < 'é'.toNat ∧ isLabel "café" = false := by
  obtain ⟨-, -, -, hlarge, hjoin⟩ := isLabel_recognizes
  have hdb : isLabel "db" = true := by decide
  have hseven : isLabel "7" = true := by decide
  have hmem : 'é' ∈ "café".toList := by decide
  exact ⟨hdb, hseven, hjoin "db" "7" 2 hdb hseven (by decide), hmem, by decide,
    hlarge "café" 'é' hmem (by decide)⟩

/-- The bound is on bytes, and a hyphen alone is no label. -/
example :
    isLabel (String.ofList (List.replicate 63 'a')) = true ∧
      isLabel (String.ofList (List.replicate 64 'a')) = false ∧ isLabel "-" = false := by
  decide +kernel

end ConfigRegistry
