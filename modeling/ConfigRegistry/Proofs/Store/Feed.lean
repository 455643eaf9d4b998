/-
# What a feed delivers

A feed keeps no more than its last changes, and a subscription is nothing but a number.  What they
mean is said in terms of the list of all changes that the feed has been told, which nobody keeps:
the feed has its end (`Feed.Tells`), and a subscription is a place in it.  So a subscriber who takes
what is there for him gets the changes behind his place, or a count of those that the feed no
longer has and then the others (`Feed.Tells.drain_eq`).  Either way what he gets accounts for every
change (`accounts_deliveries`).
-/
import Mathlib.Order.Bounds.Basic
import Mathlib.Tactic.Common
import ConfigRegistry.Store.Feed

namespace ConfigRegistry

/-- The deliveries account for the changes: they bear them one by one and in order, except that a
lag stands for as many of them as it counts. -/
inductive Accounts : List Delivery → List Change → Prop
  | nil : Accounts [] []
  | change {deliveries : List Delivery} {changes : List Change} (c : Change)
      (rest : Accounts deliveries changes) : Accounts (.change c :: deliveries) (c :: changes)
  | lagged {deliveries : List Delivery} {changes : List Change} (lost : List Change)
      (hlost : lost ≠ []) (rest : Accounts deliveries changes) :
      Accounts (.lagged lost.length :: deliveries) (lost ++ changes)

lemma Accounts.append {deliveries deliveries' : List Delivery} {changes changes' : List Change}
    (h : Accounts deliveries changes) (h' : Accounts deliveries' changes') :
    Accounts (deliveries ++ deliveries') (changes ++ changes') := by
  induction h with
  | nil => exact h'
  | change c _ ih => exact .change c ih
  | lagged lost hlost _ ih =>
    rw [List.append_assoc]
    exact .lagged lost hlost ih

lemma accounts_map_change (changes : List Change) :
    Accounts (changes.map Delivery.change) changes := by
  induction changes with
  | nil => exact .nil
  | cons c changes ih => exact .change c ih

lemma lagged_notMem_map_change (count : ℕ) (changes : List Change) :
    Delivery.lagged count ∉ changes.map Delivery.change := by
  simp

/-- Deliveries without a lag bear just the changes that they account for. -/
lemma Accounts.eq_map_change {deliveries : List Delivery} {changes : List Change}
    (h : Accounts deliveries changes) (hlag : ∀ count, .lagged count ∉ deliveries) :
    deliveries = changes.map Delivery.change := by
  induction h with
  | nil => rfl
  | change c _ ih =>
    rw [List.map_cons, ← ih fun count hmem => hlag count (by simp [hmem])]
  | lagged lost _ _ _ => exact absurd (by simp) (hlag lost.length)

namespace Feed

/-! ## Capacities -/

/-- A power of two that is larger than another one is at least twice as large. -/
lemma two_mul_le_of_isPowerOfTwo {m n : ℕ} (hm : m.isPowerOfTwo) (hn : n.isPowerOfTwo)
    (h : m < n) : 2 * m ≤ n := by
  obtain ⟨k, rfl⟩ := hm
  obtain ⟨l, rfl⟩ := hn
  have hkl : k < l := (Nat.pow_lt_pow_iff_right (by decide)).mp h
  have hle : 2 ^ (k + 1) ≤ 2 ^ l := Nat.pow_le_pow_right (by decide) hkl
  omega

/-- Doubling reaches the least power of two that is large enough, if it begins below it and is
given enough steps. -/
lemma isLeast_powerOfTwoFrom {wanted fuel n : ℕ} (hn : n.isPowerOfTwo)
    (hle : ∀ m : ℕ, m.isPowerOfTwo → wanted ≤ m → n ≤ m) (hfuel : wanted ≤ n + fuel) :
    IsLeast {m : ℕ | m.isPowerOfTwo ∧ wanted ≤ m} (powerOfTwoFrom wanted fuel n) := by
  induction fuel generalizing n with
  | zero => exact ⟨⟨hn, hfuel⟩, fun m hm => hle m hm.1 hm.2⟩
  | succ fuel ih =>
    rw [powerOfTwoFrom]
    split
    · next henough => exact ⟨⟨hn, henough⟩, fun m hm => hle m hm.1 hm.2⟩
    · next hless =>
      have hdouble : (2 * n).isPowerOfTwo := by
        rw [Nat.mul_comm]
        exact Nat.isPowerOfTwo_mul_two_of_isPowerOfTwo hn
      have hpos : 0 < n := Nat.pos_of_isPowerOfTwo hn
      refine ih hdouble (fun m hm hwanted => ?_) (by omega)
      exact two_mul_le_of_isPowerOfTwo hn hm (by omega)

/-- The capacity of a feed is the least power of two that is as large as was asked for, where
nothing less than one can be asked for. -/
lemma isLeast_roundedCapacity (wanted : ℕ) :
    IsLeast {n : ℕ | n.isPowerOfTwo ∧ max wanted 1 ≤ n} (roundedCapacity wanted) := by
  have hleast : IsLeast {n : ℕ | n.isPowerOfTwo ∧ wanted ≤ n} (roundedCapacity wanted) :=
    isLeast_powerOfTwoFrom Nat.isPowerOfTwo_one
      (fun m hm _ => Nat.pos_of_isPowerOfTwo hm) (Nat.le_add_left _ _)
  obtain ⟨⟨hpower, hwanted⟩, hlower⟩ := hleast
  refine ⟨⟨hpower, max_le hwanted (Nat.pos_of_isPowerOfTwo hpower)⟩, ?_⟩
  rintro m ⟨hm, hmax⟩
  exact hlower ⟨hm, (le_max_left _ _).trans hmax⟩

/-! ## The list of all changes -/

/-- The list is that of all changes which the feed has been told. -/
structure Tells (f : Feed) (log : List Change) : Prop where
  sent_eq : f.sent = log.length
  recent_eq : f.recent = log.reverse.take f.capacity

lemma tells_withCapacity (wanted : ℕ) : (withCapacity wanted).Tells [] where
  sent_eq := rfl
  recent_eq := by simp [withCapacity]

lemma Tells.send {f : Feed} {log : List Change} (h : f.Tells log) (c : Change) :
    (f.send c).Tells (log ++ [c]) where
  sent_eq := by simp [Feed.send, h.sent_eq]
  recent_eq := by
    -- the oldest change that is kept falls out, if all places are taken
    show (c :: f.recent).take f.capacity = (log ++ [c]).reverse.take f.capacity
    rw [h.recent_eq, List.reverse_append, List.reverse_singleton, List.singleton_append]
    cases f.capacity with
    | zero => rfl
    | succ n =>
      rw [List.take_succ_cons, List.take_succ_cons, List.take_take, min_eq_left (by omega)]

/-! ## Draining -/

/-- What a subscriber gets if there are some changes for him: all of them or, if they are more than
the feed keeps, the number of those that are lost and then the others. -/
def deliveries (capacity : ℕ) (due : List Change) : List Delivery :=
  if due.length ≤ capacity then due.map .change
  else .lagged (due.length - capacity) :: (due.drop (due.length - capacity)).map .change

/-- A subscriber gets what has been told behind his place, and his place is then the end. -/
lemma Tells.drain_eq {f : Feed} {told due : List Change} (h : f.Tells (told ++ due)) :
    f.drain ⟨told.length⟩ = (deliveries f.capacity due, ⟨(told ++ due).length⟩) := by
  have hpending : f.sent - told.length = due.length := by
    simp [h.sent_eq]
  have hrecent : (f.recent.take (min due.length f.capacity)).reverse =
      due.drop (due.length - f.capacity) := by
    rw [h.recent_eq, List.take_take, List.reverse_append,
      List.take_append_of_le_length (by simp), List.take_reverse, List.reverse_reverse]
    congr 1
    omega
  simp only [drain, hpending, hrecent]
  rw [deliveries, subscribe, h.sent_eq]
  by_cases hfits : due.length ≤ f.capacity
  · have hnone : due.length - f.capacity = 0 := by omega
    simp [hfits, hnone]
  · have hlost : due.length - f.capacity > 0 := by omega
    simp [hfits, hlost]

lemma accounts_deliveries (capacity : ℕ) (due : List Change) :
    Accounts (deliveries capacity due) due := by
  rw [deliveries]
  split
  · exact accounts_map_change due
  · next hmore =>
    have hlost : (due.take (due.length - capacity)).length = due.length - capacity := by
      rw [List.length_take]
      omega
    have hne : due.take (due.length - capacity) ≠ [] := by
      intro hnil
      rw [hnil] at hlost
      simp at hlost
      omega
    have h := Accounts.lagged _ hne (accounts_map_change (due.drop (due.length - capacity)))
    rwa [hlost, List.take_append_drop] at h

/-- A lag is told only if there are more changes than the feed keeps; it then comes first, and as
many changes as the feed keeps come after it. -/
lemma eq_of_lagged_mem_deliveries {capacity count : ℕ} {due : List Change}
    (h : .lagged count ∈ deliveries capacity due) :
    capacity < due.length ∧ ∃ changes : List Change,
      deliveries capacity due = .lagged count :: changes.map .change ∧
        changes.length = capacity := by
  rw [deliveries] at h ⊢
  split at h
  · exact absurd h (lagged_notMem_map_change count due)
  · next hmore =>
    rcases List.mem_cons.mp h with hcount | hmem
    · obtain rfl : count = due.length - capacity := Delivery.lagged.inj hcount
      refine ⟨by omega, due.drop (due.length - capacity), by rw [if_neg hmore], ?_⟩
      rw [List.length_drop]
      omega
    · exact absurd hmem (lagged_notMem_map_change count _)

end Feed

end ConfigRegistry
