/-
# Written scalars

What the style of a text tells of the text, and what a scalar looks like from outside: which
characters it has, how it begins and ends, and how long it is.
-/
import Mathlib.Data.String.Basic
import ConfigRegistry.Proofs.Yaml.Scalar.DoubleQuoted
import ConfigRegistry.Proofs.Yaml.Scalar.Literal
import ConfigRegistry.Proofs.Yaml.Token.Scan

namespace ConfigRegistry.Yaml

/-! ## Styles -/

section Style

variable {s : String}

lemma styleOf_eq (s : String) : styleOf s =
    if '\n' ∈ s.toList then (if literalCarries s.toList then .literal else .doubleQuoted)
    else if isAmbiguous s = false ∧ plainCarries s.toList = true then .plain
    else if singleCarries s.toList then .singleQuoted else .doubleQuoted := by
  simp [styleOf]

/-- A plain scalar is neither empty nor spelled like something else. -/
lemma styleOf_eq_plain (h : styleOf s = .plain) :
    s.toList ≠ [] ∧ plainCarries s.toList = true ∧ resolve s = .text := by
  rw [styleOf_eq] at h
  split at h
  · split at h <;> cases h
  · split at h
    · next hplain =>
      obtain ⟨hambiguous, hcarries⟩ := hplain
      simp only [isAmbiguous, Bool.or_eq_false_iff, bne_eq_false_iff_eq] at hambiguous
      refine ⟨fun hnil => ?_, hcarries, hambiguous.1⟩
      have hempty : s = "" := String.toList_eq_nil_iff.mp hnil
      rw [hempty] at hambiguous
      exact absurd hambiguous.1 (by decide)
    · split at h <;> cases h

lemma styleOf_eq_singleQuoted (h : styleOf s = .singleQuoted) :
    (∀ c ∈ s.toList, isPrintable c = true) ∧ Unfolded s.toList := by
  rw [styleOf_eq] at h
  split at h
  · split at h <;> cases h
  · next hfeed =>
    split at h
    · cases h
    · split at h
      · next hsingle =>
        simp only [singleCarries, needsEscapes, Bool.not_eq_true', Bool.or_eq_false_iff,
          List.any_eq_false, Bool.not_eq_false] at hsingle
        exact ⟨hsingle.1.1, hfeed, hsingle.1.2, hsingle.2⟩
      · cases h

lemma styleOf_eq_literal (h : styleOf s = .literal) :
    s.toList ≠ [] ∧ ∀ c ∈ s.toList, isPrintable c = true := by
  rw [styleOf_eq] at h
  split at h
  · next hfeed =>
    split at h
    · next hliteral =>
      simp only [literalCarries, needsEscapes, Bool.not_eq_true', Bool.or_eq_false_iff,
        List.any_eq_false, Bool.not_eq_false] at hliteral
      exact ⟨List.ne_nil_of_mem hfeed, hliteral.1.1⟩
    · cases h
  · split at h
    · cases h
    · split at h <;> cases h

lemma styleOf_ne_folded : styleOf s ≠ .folded := by
  rw [styleOf_eq]
  repeat' split
  all_goals simp

end Style

/-! ## Characters -/

lemma kept_singleBody (column : ℕ) (lineStart : Bool) {s : List Char}
    (hs : ∀ c ∈ s, isPrintable c = true) : Kept (singleBody column lineStart s) := by
  induction s generalizing lineStart with
  | nil => cases lineStart <;> simp [singleBody, isKept, isAllowed, nextLine]
  | cons c s ih =>
    obtain ⟨hc, hs⟩ := List.forall_mem_cons.mp hs
    have hkept := isKept_of_isPrintable hc
    have hquote : Kept ['\'', '\''] := by simp [isKept, isAllowed, nextLine]
    rw [singleBody]
    split
    · exact kept_cons.mpr ⟨hkept, ih true hs⟩
    · dsimp only
      refine kept_append.mpr ⟨kept_append.mpr ⟨?_, ?_⟩, ih false hs⟩
      · split <;> simp
      · split
        · exact hquote
        · simpa using hkept

lemma kept_literalBody (column : ℕ) (lineStart : Bool) {s : List Char}
    (hs : ∀ c ∈ s, isPrintable c = true) : Kept (literalBody column lineStart s) := by
  induction s generalizing lineStart with
  | nil => exact kept_nil
  | cons c s ih =>
    obtain ⟨hc, hs⟩ := List.forall_mem_cons.mp hs
    have hkept := isKept_of_isPrintable hc
    rw [literalBody]
    split
    · exact kept_cons.mpr ⟨hkept, ih true hs⟩
    · refine kept_append.mpr ⟨?_, kept_cons.mpr ⟨hkept, ih false hs⟩⟩
      split <;> simp

/-- A character as it stands between double quotes takes at most six characters, and no break is
among them. -/
lemma writeInDouble_spec (c : Char) : Kept (writeInDouble c) ∧
    (∀ d ∈ writeInDouble c, isBreak d = false) ∧ (writeInDouble c).length ≤ 6 := by
  rcases writeInDouble_cases c with ⟨letter, digits, hc, h⟩ | ⟨hc, hprint, hbreak, -⟩
  · rw [hc]
    refine ⟨kept_cons.mpr ⟨by decide, h.kept⟩,
      List.forall_mem_cons.mpr ⟨by decide, h.no_break⟩, ?_⟩
    have hlength := h.length_le
    simp only [List.length_cons]
    omega
  · rw [hc]
    simp [isKept_of_isPrintable hprint, hbreak]

lemma kept_flatMap_writeInDouble (s : List Char) : Kept (s.flatMap writeInDouble) := by
  intro d hd
  obtain ⟨c, -, hd⟩ := List.mem_flatMap.mp hd
  exact (writeInDouble_spec c).1 d hd

lemma not_isBreak_of_mem_flatMap_writeInDouble {s : List Char} :
    ∀ d ∈ s.flatMap writeInDouble, isBreak d = false := by
  intro d hd
  obtain ⟨c, -, hd⟩ := List.mem_flatMap.mp hd
  exact (writeInDouble_spec c).2.1 d hd

/-- Any text can be carried in this way. -/
lemma carried_flatMap_writeInDouble (s : List Char) : Carried (s.flatMap writeInDouble) :=
  .of_not_isBreak (kept_flatMap_writeInDouble s) fun _ => not_isBreak_of_mem_flatMap_writeInDouble _

lemma length_flatMap_writeInDouble_le (s : List Char) :
    (s.flatMap writeInDouble).length ≤ 6 * s.length := by
  induction s with
  | nil => simp
  | cons c s ih =>
    have hc := (writeInDouble_spec c).2.2
    rw [List.flatMap_cons, List.length_append, List.length_cons]
    omega

/-- On one line a text between single quotes takes at most twice its length. -/
lemma singleBody_of_not_isBreak (column : ℕ) {s : List Char} (hs : ∀ c ∈ s, isBreak c = false) :
    (∀ c ∈ singleBody column false s, isBreak c = false) ∧
      (singleBody column false s).length ≤ 2 * s.length + 1 := by
  induction s with
  | nil => simp [singleBody, isBreak, nextLine, lineSeparator, paragraphSeparator]
  | cons c s ih =>
    obtain ⟨hc, hs⟩ := List.forall_mem_cons.mp hs
    obtain ⟨hbreak, hlength⟩ := ih hs
    rw [singleBody, if_neg (by simp [hc]), if_neg Bool.false_ne_true]
    simp only [List.nil_append]
    constructor
    · intro d hd
      rcases List.mem_append.mp hd with hd | hd
      · split at hd
        · simp only [List.mem_cons, List.not_mem_nil, or_false, or_self] at hd
          rw [hd]
          decide
        · rw [List.mem_singleton.mp hd]
          exact hc
      · exact hbreak d hd
    · rw [List.length_append, List.length_cons]
      split
      · simp only [List.length_cons, List.length_nil]
        omega
      · simp only [List.length_cons, List.length_nil]
        omega

/-! ## Whole scalars -/

/-- The text of each style. -/
lemma writeText_cases (column : ℕ) (s : String) :
    (styleOf s = .plain ∧ writeText column s = s.toList) ∨
    (styleOf s = .singleQuoted ∧ writeText column s = '\'' :: singleBody column false s.toList) ∨
    (styleOf s = .literal ∧ writeText column s = writeLiteral column s.toList) ∨
    (styleOf s = .doubleQuoted ∧
      writeText column s = '"' :: s.toList.flatMap writeInDouble ++ ['"']) := by
  cases hstyle : styleOf s with
  | folded => exact absurd hstyle styleOf_ne_folded
  | _ => simp [writeText, hstyle]

lemma kept_chompingMark (s : List Char) : Kept (chompingMark s) := by
  obtain ⟨chomping, hmark, -⟩ := exists_chompingMark s
  rw [hmark]
  cases chomping <;> simp [Chomping.mark, isKept, isAllowed, nextLine]

lemma kept_writeText (column : ℕ) (s : String) : Kept (writeText column s) := by
  rcases writeText_cases column s with ⟨h, htext⟩ | ⟨h, htext⟩ | ⟨h, htext⟩ | ⟨h, htext⟩
  · rw [htext]
    exact .of_isPrintable (plainCarries_iff.mp (styleOf_eq_plain h).2.1).1
  · rw [htext]
    exact kept_cons.mpr ⟨by decide, kept_singleBody _ _ (styleOf_eq_singleQuoted h).1⟩
  · rw [htext, writeLiteral]
    have hbody := kept_literalBody column true (styleOf_eq_literal h).2
    have hmark := kept_chompingMark s.toList
    split <;> simp [hbody, hmark, isKept, isAllowed, nextLine]
  · rw [htext]
    have hbody := kept_flatMap_writeInDouble s.toList
    simp [hbody, isKept, isAllowed, nextLine]

/-- A scalar begins with a character that is not passed over. -/
lemma opens_writeText_append (column : ℕ) (s : String) (F : List Char) :
    Opens (writeText column s ++ F) := by
  rcases writeText_cases column s with ⟨h, htext⟩ | ⟨h, htext⟩ | ⟨h, htext⟩ | ⟨h, htext⟩
  · obtain ⟨hne, hcarries, -⟩ := styleOf_eq_plain h
    obtain ⟨hprint, -, hbreak, hspace, -, hindicator⟩ := plainCarries_iff.mp hcarries
    obtain ⟨c, t, ht⟩ := List.exists_cons_of_ne_nil hne
    rw [htext, ht, List.cons_append, opens_cons]
    rw [ht] at hprint hbreak hspace hindicator
    refine ⟨isGap_of_isPrintable (hprint c (by simp)) ?_ (hbreak c (by simp)), ?_, ?_⟩
    · exact beq_eq_false_iff_ne.mp hspace
    · rintro rfl
      simp [hasIndicator, isIndicator] at hindicator
    · rintro rfl
      exact absurd (hprint _ List.mem_cons_self) (by decide)
  · rw [htext, List.cons_append, opens_cons]
    decide
  · rw [htext, writeLiteral]
    simp only [List.cons_append]
    rw [opens_cons]
    decide
  · rw [htext, List.cons_append, List.cons_append, opens_cons]
    decide

lemma writeText_ne_nil (column : ℕ) (s : String) : writeText column s ≠ [] := by
  rcases writeText_cases column s with ⟨h, htext⟩ | ⟨h, htext⟩ | ⟨h, htext⟩ | ⟨h, htext⟩
  · rw [htext]
    exact (styleOf_eq_plain h).1
  · simp [htext]
  · simp [htext, writeLiteral]
  · simp [htext]

/-- Behind a text and the beginning of the next line the column is the one that was asked for. -/
lemma column_after_lineAfter (p : Place) (s : List Char) (n : ℕ) :
    (p.after (s ++ lineAfter s n)).column = n := by
  rcases List.eq_nil_or_concat s with rfl | ⟨u, c, rfl⟩
  · exact congrArg Place.column (p.after_break_spaces (c := '\n') (by decide) n)
  · rw [List.concat_eq_append, lineAfter, endsWith_concat]
    cases hbreak : isBreak c with
    | true =>
      rw [if_pos rfl, List.nil_append, List.append_assoc, List.singleton_append, Place.after_append,
        Place.after_break_spaces _ hbreak]
    | false =>
      rw [if_neg Bool.false_ne_true, List.singleton_append, Place.after_append,
        Place.after_break_spaces _ (by decide)]

lemma exists_singleBody_eq (column : ℕ) (lineStart : Bool) (s : List Char) :
    ∃ t, singleBody column lineStart s = t ++ ['\''] := by
  induction s generalizing lineStart with
  | nil => exact ⟨_, rfl⟩
  | cons c s ih =>
    rw [singleBody]
    split
    · obtain ⟨t, ht⟩ := ih true
      exact ⟨c :: t, by rw [ht, List.cons_append]⟩
    · obtain ⟨t, ht⟩ := ih false
      exact ⟨_, by rw [ht, ← List.append_assoc]⟩

/-- Only a literal block may have ended the line already. -/
lemma lineAfter_writeText {column : ℕ} {s : String} (h : styleOf s ≠ .literal) (n : ℕ) :
    lineAfter (writeText column s) n = '\n' :: spaces n := by
  have hends : endsWith isBreak (writeText column s) = false := by
    rcases writeText_cases column s with ⟨h, htext⟩ | ⟨-, htext⟩ | ⟨hliteral, -⟩ | ⟨-, htext⟩
    · obtain ⟨hne, hcarries, -⟩ := styleOf_eq_plain h
      obtain ⟨u, c, hu⟩ := List.eq_nil_or_concat s.toList |>.resolve_left hne
      rw [List.concat_eq_append] at hu
      rw [htext, hu, endsWith_concat]
      exact (plainCarries_iff.mp hcarries).2.2.1 c (by simp [hu])
    · obtain ⟨t, ht⟩ := exists_singleBody_eq column false s.toList
      rw [htext, ht, ← List.cons_append, endsWith_concat]
      decide
    · exact absurd hliteral h
    · rw [htext, endsWith_concat]
      decide
  rw [lineAfter, if_neg (ne_true_of_eq_false hends)]
  rfl

/-! ## Simple keys -/

lemma length_le_utf8ByteSize (s : String) : s.toList.length ≤ s.utf8ByteSize := by
  have hchars (l : List Char) : l.length ≤ String.utf8Len l := by
    induction l with
    | nil => exact Nat.zero_le _
    | cons c l ih =>
      have hc := c.utf8Size_pos
      rw [String.utf8Len_cons, List.length_cons]
      omega
  have hsize := String.utf8ByteSize_ofList s.toList
  rw [String.ofList_toList] at hsize
  rw [hsize]
  exact hchars _

/-- A simple key stands on one line, and is short enough that a colon behind it is seen as its
own. -/
lemma isSimpleKey_spec {k : String} (h : isSimpleKey k = true) (column : ℕ) :
    styleOf k ≠ .literal ∧ (∀ c ∈ writeText column k, isBreak c = false) ∧
      (writeText column k).length ≤ 1024 := by
  simp only [isSimpleKey, Bool.and_eq_true, Bool.not_eq_true', List.any_eq_false, simpleKeyLimit,
    Bool.not_eq_true] at h
  obtain ⟨hbreak, hsize⟩ := h
  have hlength := Nat.le_trans (length_le_utf8ByteSize k) (of_decide_eq_true hsize)
  have hliteral : styleOf k ≠ .literal := by
    rw [styleOf_eq, if_neg (fun hfeed => absurd (hbreak _ hfeed) (by decide))]
    split
    · simp
    · split <;> simp
  refine ⟨hliteral, ?_⟩
  rcases writeText_cases column k with ⟨h, htext⟩ | ⟨h, htext⟩ | ⟨h, htext⟩ | ⟨h, htext⟩
  · rw [htext]
    exact ⟨hbreak, by omega⟩
  · obtain ⟨hbody, hbodyLength⟩ := singleBody_of_not_isBreak column hbreak
    rw [htext]
    refine ⟨List.forall_mem_cons.mpr ⟨by decide, hbody⟩, ?_⟩
    rw [List.length_cons]
    omega
  · exact absurd h hliteral
  · have hbodyLength := length_flatMap_writeInDouble_le k.toList
    rw [htext]
    constructor
    · intro c hc
      simp only [List.cons_append, List.mem_cons, List.mem_append, List.not_mem_nil, or_false] at hc
      rcases hc with rfl | hc | rfl
      · decide
      · exact not_isBreak_of_mem_flatMap_writeInDouble c hc
      · decide
    · simp only [List.length_cons, List.length_append, List.length_nil]
      omega

end ConfigRegistry.Yaml
