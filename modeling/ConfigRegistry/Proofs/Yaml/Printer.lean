/-
# Printed trees

How the text of a tree begins and ends, and which characters it has.  The entries of a collection
are printed one behind another: each of them but the first begins a new line behind the one before.
-/
import ConfigRegistry.Proofs.Json.Spelling
import ConfigRegistry.Proofs.Yaml.Scalar.Written

namespace ConfigRegistry.Yaml

open Json (Numberless NumberlessItems NumberlessMembers)

/-! ## Lines -/

/-- What matters for the next line is the end of a text. -/
lemma lineAfter_append (s : List Char) {t : List Char} (h : t ≠ []) (column : ℕ) :
    lineAfter (s ++ t) column = lineAfter t column := by
  have hlast : (s ++ t).getLast? = t.getLast? := by
    rw [List.getLast?_append, Option.or_of_isSome]
    simpa using h
  rw [lineAfter, lineAfter, endsWith, hlast]
  rfl

lemma kept_lineAfter (s : List Char) (column : ℕ) : Kept (lineAfter s column) := by
  rw [lineAfter, kept_append]
  refine ⟨?_, kept_spaces column⟩
  split
  · exact kept_nil
  · exact kept_cons.mpr ⟨by decide, kept_nil⟩

/-! ## Entries -/

/-- An item of a sequence. -/
def itemText (column : ℕ) (x : Json) : List Char := '-' :: ' ' :: print (column + 2) x

/-- An entry of a mapping. -/
def entryText (column : ℕ) (k : String) (v : Json) : List Char :=
  if isSimpleKey k then
    writeText (column + 2) k ++ besideLead column v ++ print (besideColumn column v) v
  else
    '?' :: ' ' :: writeText (column + 2) k ++ lineAfter (writeText (column + 2) k) column ++
      ':' :: ' ' :: print (column + 2) v

lemma printItems_cons (column : ℕ) (x : Json) (xs : List Json) :
    printItems column none (x :: xs) =
      itemText column x ++ printItems column (some (itemText column x)) xs := rfl

/-- The items after one begin a new line. -/
lemma printItems_some {column : ℕ} {s : List Char} {items : List Json} (h : items ≠ []) :
    printItems column (some s) items = lineAfter s column ++ printItems column none items := by
  cases items with
  | nil => exact absurd rfl h
  | cons x xs => simp [printItems, beforeEntry]

lemma printEntries_cons (column : ℕ) (k : String) (v : Json) (ms : List (String × Json)) :
    printEntries column none ((k, v) :: ms) =
      entryText column k v ++ printEntries column (some (entryText column k v)) ms := by
  simp [printEntries, beforeEntry, entryText]

/-- The entries after one begin a new line. -/
lemma printEntries_some {column : ℕ} {s : List Char} {members : List (String × Json)}
    (h : members ≠ []) :
    printEntries column (some s) members =
      lineAfter s column ++ printEntries column none members := by
  cases members with
  | nil => exact absurd rfl h
  | cons m ms =>
    obtain ⟨k, v⟩ := m
    simp [printEntries, beforeEntry]

lemma entryText_ne_nil (column : ℕ) (k : String) (v : Json) : entryText column k v ≠ [] := by
  rw [entryText]
  split
  · simp [writeText_ne_nil]
  · simp

lemma printItems_ne_nil {column : ℕ} {items : List Json} (h : items ≠ []) :
    printItems column none items ≠ [] := by
  obtain ⟨x, xs, rfl⟩ := List.exists_cons_of_ne_nil h
  simp [printItems_cons, itemText]

lemma printEntries_ne_nil {column : ℕ} {members : List (String × Json)} (h : members ≠ []) :
    printEntries column none members ≠ [] := by
  obtain ⟨⟨k, v⟩, ms, rfl⟩ := List.exists_cons_of_ne_nil h
  simp [printEntries_cons, entryText_ne_nil]

lemma print_ne_nil {j : Json} (hj : j.Numberless) (column : ℕ) : print column j ≠ [] := by
  cases j with
  | number n => exact hj.elim
  | bool b => cases b <;> simp [print]
  | array items =>
    cases items with
    | nil => simp [print]
    | cons x xs => exact printItems_ne_nil (by simp)
  | object members =>
    cases members with
    | nil => simp [print]
    | cons m ms => exact printEntries_ne_nil (by simp)
  | null => simp [print]
  | string s => exact writeText_ne_nil column s

/-! ## Characters -/

lemma opens_entryText_append (column : ℕ) (k : String) (v : Json) (F : List Char) :
    Opens (entryText column k v ++ F) := by
  rw [entryText]
  split
  · rw [List.append_assoc, List.append_assoc]
    exact opens_writeText_append _ _ _
  · simp only [List.cons_append, opens_cons]
    decide

lemma opens_printItems_append {column : ℕ} {items : List Json} (h : items ≠ []) (F : List Char) :
    Opens (printItems column none items ++ F) := by
  obtain ⟨x, xs, rfl⟩ := List.exists_cons_of_ne_nil h
  simp only [printItems_cons, itemText, List.cons_append, opens_cons]
  decide

lemma opens_printEntries_append {column : ℕ} {members : List (String × Json)} (h : members ≠ [])
    (F : List Char) : Opens (printEntries column none members ++ F) := by
  obtain ⟨⟨k, v⟩, ms, rfl⟩ := List.exists_cons_of_ne_nil h
  rw [printEntries_cons, List.append_assoc]
  exact opens_entryText_append _ _ _ _

/-- The text of a tree begins with a character that is not passed over. -/
lemma opens_print_append {j : Json} (hj : j.Numberless) (column : ℕ) (F : List Char) :
    Opens (print column j ++ F) := by
  cases j with
  | number n => exact hj.elim
  | bool b => cases b <;> (simp only [print, List.cons_append, opens_cons]; decide)
  | array items =>
    cases items with
    | nil => simp only [print, List.isEmpty_nil, if_true, List.cons_append, opens_cons]; decide
    | cons x xs => exact opens_printItems_append (by simp) F
  | object members =>
    cases members with
    | nil => simp only [print, List.isEmpty_nil, if_true, List.cons_append, opens_cons]; decide
    | cons m ms => exact opens_printEntries_append (by simp) F
  | null => simp only [print, List.cons_append, opens_cons]; decide
  | string s => exact opens_writeText_append column s F

mutual

/-- All characters of a printed tree are kept. -/
theorem kept_print : (j : Json) → j.Numberless → (column : ℕ) → Kept (print column j)
  | .null, _, _ => by simp [print, isKept, isAllowed, nextLine]
  | .bool true, _, _ => by simp [print, isKept, isAllowed, nextLine]
  | .bool false, _, _ => by simp [print, isKept, isAllowed, nextLine]
  | .number _, h, _ => h.elim
  | .string s, _, column => kept_writeText column s
  | .array items, h, column => by
    rw [print]
    split
    · simp [isKept, isAllowed, nextLine]
    · exact kept_printItems items h column none
  | .object members, h, column => by
    rw [print]
    split
    · simp [isKept, isAllowed, nextLine]
    · exact kept_printEntries members h column none

theorem kept_printItems : (items : List Json) → NumberlessItems items → (column : ℕ) →
    (before : Option (List Char)) → Kept (printItems column before items)
  | [], _, _, _ => by simp [printItems]
  | x :: xs, h, column, before => by
    have hx := kept_print x h.1 (column + 2)
    have hxs := kept_printItems xs h.2 column (some (itemText column x))
    have hbefore : Kept (beforeEntry column before) := by
      cases before with
      | none => exact kept_nil
      | some s => exact kept_lineAfter s column
    rw [printItems]
    simp only [kept_append, kept_cons]
    exact ⟨⟨hbefore, by decide, by decide, hx⟩, hxs⟩

theorem kept_printEntries : (members : List (String × Json)) → NumberlessMembers members →
    (column : ℕ) → (before : Option (List Char)) → Kept (printEntries column before members)
  | [], _, _, _ => by simp [printEntries]
  | (k, v) :: ms, h, column, before => by
    have hv := kept_print v h.1
    have hms := kept_printEntries ms h.2 column (some (entryText column k v))
    have hbefore : Kept (beforeEntry column before) := by
      cases before with
      | none => exact kept_nil
      | some s => exact kept_lineAfter s column
    have hkey := kept_writeText (column + 2) k
    have hentry : Kept (entryText column k v) := by
      rw [entryText]
      split
      · refine kept_append.mpr ⟨kept_append.mpr ⟨hkey, ?_⟩, hv _⟩
        rw [besideLead]
        split <;> simp [isKept, isAllowed, nextLine]
      · simp only [kept_append, kept_cons, List.cons_append]
        exact ⟨by decide, by decide, ⟨hkey, kept_lineAfter _ _⟩, by decide, by decide, hv _⟩
    rw [printEntries]
    exact kept_append.mpr ⟨kept_append.mpr ⟨hbefore, hentry⟩, hms⟩

end

end ConfigRegistry.Yaml
