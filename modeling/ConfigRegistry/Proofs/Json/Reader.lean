/-
# Running readers

How a reader that is put together from others runs when each of them succeeds, and the one fact
that holds of every reader, whether it succeeds or not: it never leaves more text than there was.
The loops over items and members rest on it, for their bound is the length of the text.
-/
import ConfigRegistry.Json.Structure
import Mathlib.Data.List.DropRight
import Mathlib.Tactic.Common

namespace ConfigRegistry.Json

/-- What is left of a text behind its leading blanks. -/
def afterBlanks (s : List Char) : List Char := s.dropWhile Reader.isBlank

@[simp] lemma afterBlanks_afterBlanks (s : List Char) :
    afterBlanks (afterBlanks s) = afterBlanks s :=
  List.dropWhile_idempotent _ _

lemma afterBlanks_cons {c : Char} (h : Reader.isBlank c = false) (s : List Char) :
    afterBlanks (c :: s) = c :: s := by
  rw [afterBlanks, List.dropWhile_cons_of_neg (by simp [h])]

lemma length_afterBlanks_le (s : List Char) : (afterBlanks s).length ≤ s.length :=
  (List.dropWhile_sublist _).length_le

namespace Reader

variable {α β : Type}

/-! ## Success -/

/-- On the text `s` the reader succeeds with `a` and leaves `rest`. -/
def Gives (r : Reader α) (s : List Char) (a : α) (rest : List Char) : Prop :=
  r s = ⟨.ok a, rest⟩

lemma gives_pure (a : α) (s : List Char) : Gives (pure a) s a s := rfl

lemma Gives.bind {r : Reader α} {f : α → Reader β} {s t u : List Char} {a : α} {b : β}
    (h : r.Gives s a t) (h' : (f a).Gives t b u) : (r >>= f).Gives s b u := by
  show Reader.bind r f s = ⟨.ok b, u⟩
  rw [Reader.bind, h]
  exact h'

/-- A last step that only turns the answer into another one. -/
lemma Gives.map {r : Reader α} {s t : List Char} {a : α} (h : r.Gives s a t) (f : α → β) :
    (do return f (← r) : Reader β).Gives s (f a) t :=
  h.bind (gives_pure (f a) t)

lemma Gives.settle {r : Reader α} {s t : List Char} {a : α} (h : r.Gives s a t) :
    (settle r).Gives s a t := by
  rw [Gives, Reader.settle, h]

lemma Gives.closedBy {r : Reader α} {close : Reader Unit} {s t u : List Char} {a : α}
    (h : r.Gives s a t) (hclose : close.Gives t () u) : (r.closedBy close).Gives s a u := by
  simp only [Gives, Reader.closedBy]
  rw [h]
  simp only
  rw [hclose]

lemma gives_skip (c : Char) (s : List Char) : skip.Gives (c :: s) () s := rfl

/-- The next token is looked at, and the blanks before it are gone. -/
lemma gives_peekToken {c : Char} {s t : List Char} (h : afterBlanks s = c :: t) :
    peekToken.Gives s (some c) (c :: t) := by
  show (⟨.ok (afterBlanks s).head?, afterBlanks s⟩ : Reading (Option Char)) = _
  rw [h]
  rfl

lemma gives_keyword (w rest : List Char) : (keyword w).Gives (w ++ rest) () rest := by
  induction w with
  | nil => rfl
  | cons c w ih =>
    rw [List.cons_append, Gives, keyword]
    simp only [beq_self_eq_true, if_true]
    exact ih

/-- The rest of a keyword is taken, and the keyword stands for a value. -/
lemma gives_word (c : Char) (w rest : List Char) (a : α) :
    (do skip; keyword w; pure a : Reader α).Gives (c :: (w ++ rest)) a rest :=
  (gives_skip c _).bind ((gives_keyword w rest).bind (gives_pure a rest))

/-- Above the last level there is room for one more. -/
lemma nested_of_lt {depth : Nat} (h : 1 < depth) (r : Nat → Reader α) :
    nested depth r = r (depth - 1) := by
  rw [nested, if_neg (by omega)]

/-! ## What is left -/

/-- The reader leaves at most the text that there was. -/
def Shrinks (r : Reader α) : Prop := ∀ s, (r s).rest.length ≤ s.length

/-- The reader takes something of the text. -/
def Takes (r : Reader α) (s : List Char) : Prop := (r s).rest.length < s.length

lemma Shrinks.pure (a : α) : Shrinks (pure a : Reader α) := fun _ => Nat.le_refl _

lemma Shrinks.breach (b : Breach) (ahead : Nat) : Shrinks (breach b ahead : Reader α) :=
  fun _ => Nat.le_refl _

lemma Shrinks.bind {r : Reader α} {f : α → Reader β} (hr : Shrinks r)
    (hf : ∀ a, Shrinks (f a)) : Shrinks (r >>= f) := by
  intro s
  have hfirst := hr s
  show (Reader.bind r f s).rest.length ≤ s.length
  rw [Reader.bind]
  split
  · next a t hrun =>
    rw [hrun] at hfirst
    exact Nat.le_trans (hf a t) hfirst
  · next e t hrun =>
    rw [hrun] at hfirst
    exact hfirst

lemma Shrinks.ite {c : Prop} [Decidable c] {r r' : Reader α} (hr : Shrinks r)
    (hr' : Shrinks r') : Shrinks (if c then r else r') := by
  split
  · exact hr
  · exact hr'

lemma Shrinks.peek : Shrinks peek := fun _ => Nat.le_refl _

lemma Shrinks.skip : Shrinks skip := fun _ => (List.tail_sublist _).length_le

lemma Shrinks.digits : Shrinks digits := fun _ => (List.dropWhile_sublist _).length_le

lemma takes_peek_bind {f : Option Char → Reader β} {c : Char} {s : List Char}
    (hf : Takes (f (some c)) (c :: s)) : Takes (Reader.peek >>= f) (c :: s) := hf

/-- After a character has been taken, whatever comes next cannot put it back. -/
lemma takes_skip_bind {f : Unit → Reader β} (hf : ∀ a, Shrinks (f a)) {c : Char}
    {s : List Char} : Takes (Reader.skip >>= f) (c :: s) :=
  Nat.lt_succ_of_le (hf () s)

lemma takes_digits_bind {f : List Char → Reader β} {c : Char} (hc : c.isDigit)
    (hf : ∀ ds, Shrinks (f ds)) {s : List Char} : Takes (Reader.digits >>= f) (c :: s) := by
  have hle := hf ((c :: s).takeWhile Char.isDigit) ((c :: s).dropWhile Char.isDigit)
  have hdrop : ((c :: s).dropWhile Char.isDigit).length ≤ s.length := by
    rw [List.dropWhile_cons_of_pos hc]
    exact (List.dropWhile_sublist _).length_le
  exact Nat.lt_succ_of_le (Nat.le_trans hle hdrop)

lemma Shrinks.real (x : Option Binary64) : Shrinks (real x) := by
  cases x with
  | none => exact Shrinks.breach _ _
  | some x => exact Shrinks.pure _

/-- What is left of the digits of an exponent is an end of them. -/
lemma length_left_exponentDigits {n : Nat} {ds left : List Char}
    (h : (exponentDigits n ds).2 = some left) : left.length ≤ ds.length := by
  induction ds generalizing n with
  | nil => simp [exponentDigits] at h
  | cons c ds ih =>
    rw [exponentDigits] at h
    cases hpush : pushDigit maxExponent n c with
    | some m =>
      rw [hpush] at h
      exact Nat.le_trans (ih h) (Nat.le_succ _)
    | none =>
      rw [hpush] at h
      cases h
      exact Nat.le_succ _

lemma Shrinks.exponentPart (negative : Bool) (significand : Nat) (exponent : Int) :
    Shrinks (Reader.exponentPart negative significand exponent) := by
  rw [Reader.exponentPart]
  refine Shrinks.skip.bind fun _ => ?_
  refine Shrinks.peek.bind fun sign => ?_
  extract_lets afterSign
  have hafter : ∀ down, Shrinks (afterSign down) := by
    intro down
    refine Shrinks.peek.bind fun digit => ?_
    cases digit with
    | none => exact Shrinks.breach _ _
    | some c =>
      refine Shrinks.ite (Shrinks.breach _ _) fun s => ?_
      have hrest : (s.dropWhile Char.isDigit).length ≤ s.length :=
        (List.dropWhile_sublist _).length_le
      dsimp only
      split
      · exact Nat.le_trans (Shrinks.real _ _) hrest
      · next left hleft =>
        split
        · -- the digits that were left are put before what follows them again
          have hleft := length_left_exponentDigits (congrArg Prod.snd hleft)
          have hdigits : (s.takeWhile Char.isDigit).length + (s.dropWhile Char.isDigit).length =
              s.length := by
            rw [← List.length_append, List.takeWhile_append_dropWhile]
          show (left ++ s.dropWhile Char.isDigit).length ≤ s.length
          rw [List.length_append]
          omega
        · exact hrest
  split
  · exact Shrinks.skip.bind fun _ => hafter _
  · exact Shrinks.skip.bind fun _ => hafter _
  · exact hafter _

lemma Shrinks.fromExponent (negative : Bool) (significand : Nat) (exponent : Int) :
    Shrinks (Reader.fromExponent negative significand exponent) := by
  refine Shrinks.peek.bind fun c => ?_
  split
  · exact Shrinks.exponentPart _ _ _
  · exact Shrinks.exponentPart _ _ _
  · exact Shrinks.real _

lemma Shrinks.fractionPart (negative : Bool) (significand : Nat) (exponent : Int) :
    Shrinks (Reader.fractionPart negative significand exponent) := by
  refine Shrinks.skip.bind fun _ => Shrinks.digits.bind fun ds => ?_
  split
  · refine Shrinks.peek.bind fun c => ?_
    split
    · exact Shrinks.breach _ _
    · exact Shrinks.breach _ _
  · exact Shrinks.fromExponent _ _ _

lemma Shrinks.integral (negative : Bool) (significand : Nat) :
    Shrinks (Reader.integral negative significand) := by
  rw [Reader.integral]
  split
  · exact Shrinks.pure _
  · split
    · exact Shrinks.real _
    · exact Shrinks.pure _

lemma Shrinks.afterWhole (negative : Bool) (significand dropped : Nat) :
    Shrinks (Reader.afterWhole negative significand dropped) := by
  refine Shrinks.peek.bind fun c => ?_
  split
  · exact Shrinks.fractionPart _ _ _
  · exact Shrinks.exponentPart _ _ _
  · exact Shrinks.exponentPart _ _ _
  · split
    · exact Shrinks.integral _ _
    · exact Shrinks.real _

theorem Shrinks.numeral (negative : Bool) : Shrinks (Reader.numeral negative) := by
  refine Shrinks.peek.bind fun c => ?_
  split
  · exact Shrinks.breach _ _
  · refine Shrinks.skip.bind fun _ => Shrinks.peek.bind fun c => ?_
    split
    · split
      · exact Shrinks.breach _ _
      · exact Shrinks.afterWhole _ _ _
    · exact Shrinks.afterWhole _ _ _
  · split
    · exact Shrinks.digits.bind fun ds => Shrinks.afterWhole _ _ _
    · exact Shrinks.breach _ _

/-- A number takes at least the digit that it begins with. -/
lemma takes_numeral {c : Char} (hc : c.isDigit) (negative : Bool) (s : List Char) :
    Takes (Reader.numeral negative) (c :: s) := by
  rw [Reader.numeral]
  refine takes_peek_bind ?_
  split
  · next h => cases h
  · refine takes_skip_bind fun _ => Shrinks.peek.bind fun c => ?_
    split
    · exact Shrinks.ite (Shrinks.breach _ _) (Shrinks.afterWhole _ _ _)
    · exact Shrinks.afterWhole _ _ _
  · next d _ h =>
    cases h
    rw [if_pos hc]
    exact takes_digits_bind hc fun ds => Shrinks.afterWhole _ _ _

theorem Shrinks.stringBody : Shrinks Reader.stringBody := by
  have hbody : ∀ done s, (Json.stringBody done s).rest.length ≤ s.length := by
    intro done s
    fun_induction Json.stringBody done s with
    | case1 => exact Nat.le_refl _
    | case2 done rest => exact Nat.le_succ _
    | case3 done rest c rest' h hescape ih =>
      exact Nat.le_trans ih (Nat.le_succ_of_le h)
    | case4 done rest e hescape => exact Nat.le_succ _
    | case5 done c rest hquote hbackslash hcontrol => exact Nat.le_succ _
    | case6 done c rest hquote hbackslash hcontrol ih => exact Nat.le_succ_of_le ih
  exact hbody []

end Reader

end ConfigRegistry.Json
