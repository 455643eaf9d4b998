/-
# Nothing is lost without a word

A subscriber may be slow, and then the feed has forgotten some of the changes when he comes for
them.  He still learns of every change: what he has got since he subscribed, with each lag taken
for as many changes as it counts, is the list of all changes since then.  He is told of a lag only
if more is pending for him than the feed keeps, and then he gets all that it keeps.

Subscribers do not get into each other's way.  Whether one of them drains or not, and how often,
the others get the same, the calls are answered the same, and the store is the same in the end
(`Watched.history_filter`).
-/
import ConfigRegistry.Proofs.Catalog.Kinds
import ConfigRegistry.Proofs.Store.Subscribers

namespace ConfigRegistry

open Happening

/-! ## One subscriber apart from the others -/

namespace Watched

/-- The states differ in nothing but the place of one subscriber. -/
structure SameBut (who : ℕ) (w w' : Watched) : Prop where
  store_eq : w.store = w'.store
  place_eq : ∀ other ≠ who, w.place other = w'.place other

/-- Places that are the same but for one subscriber stay so when both are given the same one. -/
lemma update_eq_update {who : ℕ} {place place' : ℕ → Option Subscription}
    (h : ∀ other ≠ who, place other = place' other) (i : ℕ) (s : Option Subscription) :
    ∀ other ≠ who, Function.update place i s other = Function.update place' i s other := by
  intro other hne
  by_cases hother : other = i
  · rw [hother, Function.update_self, Function.update_self]
  · rw [Function.update_of_ne hother, Function.update_of_ne hother, h other hne]

lemma SameBut.refl (who : ℕ) (w : Watched) : SameBut who w w := ⟨rfl, fun _ _ => rfl⟩

variable {who : ℕ} {w w' : Watched}

/-- When he drains, nothing but his place changes. -/
lemma SameBut.step_drain (h : SameBut who w w') :
    SameBut who w (w'.step (.drain who)).2 := by
  obtain ⟨_, -, hstore, hplace⟩ := w'.step_drain who
  exact
    { store_eq := h.store_eq.trans hstore.symm
      place_eq := fun other hne => (h.place_eq other hne).trans (hplace other hne).symm }

/-- Of anything else comes the same, whatever his place may be. -/
lemma SameBut.step (h : SameBut who w w') {a : Action} (ha : a.drains who = false) :
    (w.step a).1 = (w'.step a).1 ∧ SameBut who (w.step a).2 (w'.step a).2 := by
  obtain ⟨store, place⟩ := w
  obtain ⟨store', place'⟩ := w'
  obtain rfl : store = store' := h.store_eq
  have hplace : ∀ other ≠ who, place other = place' other := h.place_eq
  cases a with
  | call c => exact ⟨rfl, rfl, hplace⟩
  | subscribe other => exact ⟨rfl, rfl, update_eq_update hplace other _⟩
  | drain other =>
    have hne : other ≠ who := beq_eq_false_iff_ne.mp ha
    simp only [Watched.step, hplace other hne]
    cases place' other with
    | none => exact ⟨rfl, rfl, hplace⟩
    | some s => exact ⟨rfl, rfl, update_eq_update hplace other _⟩

lemma SameBut.history_filter (h : SameBut who w w') (actions : List Action) :
    w.history (actions.filter fun a => !a.drains who) =
        (w'.history actions).filter (fun x => !x.drains who) ∧
      SameBut who (w.after (actions.filter fun a => !a.drains who)) (w'.after actions) := by
  induction actions generalizing w w' with
  | nil => exact ⟨rfl, h⟩
  | cons a actions ih =>
    rw [history_cons, after_cons, List.filter_cons, List.filter_cons, drains_step]
    cases ha : a.drains who with
    | true =>
      obtain rfl := Action.eq_drain_of_drains ha
      exact ih h.step_drain
    | false =>
      obtain ⟨hx, hstep⟩ := h.step ha
      obtain ⟨hhistory, hafter⟩ := ih hstep
      refine ⟨?_, hafter⟩
      simp only [Bool.not_false, if_true, history_cons, hx, hhistory]

/-- Leaving out the drains of one subscriber leaves everything else as it is. -/
lemma history_filter (w : Watched) (who : ℕ) (actions : List Action) :
    w.history (actions.filter fun a => !a.drains who) =
        (w.history actions).filter (fun x => !x.drains who) ∧
      (w.after (actions.filter fun a => !a.drains who)).store = (w.after actions).store := by
  obtain ⟨hhistory, hafter⟩ := (SameBut.refl who w).history_filter actions
  exact ⟨hhistory, hafter.store_eq⟩

/-! ## What a subscriber has got -/

lemma capacity_after (w : Watched) (actions : List Action) :
    (w.after actions).store.feed.capacity = w.store.feed.capacity := by
  induction actions generalizing w with
  | nil => rfl
  | cons a actions ih => rw [after_cons, ih, capacity_step]

/-- Each time that a subscriber drains, he gets what is pending for him. -/
lemma Follows.drained_eq {told : List Change} {actions : List Action}
    (h : w.Follows who told []) (ha : .subscribe who ∉ actions) {earlier later : List Happening}
    {deliveries : List Delivery}
    (hsplit : w.history actions = earlier ++ .drained who deliveries :: later) :
    deliveries = Feed.deliveries w.store.feed.capacity (pending who earlier) := by
  obtain ⟨before, a, after, rfl, rfl, hx⟩ := exists_of_history_eq hsplit
  have hdrains : a.drains who = true := by
    rw [← drains_step (w.after before) a who, ← hx]
    exact beq_self_eq_true who
  obtain rfl := Action.eq_drain_of_drains hdrains
  have hbefore : .subscribe who ∉ before := fun hmem => ha (by simp [hmem])
  rw [(h.after hbefore).step_drain, capacity_after] at hx
  exact (drained.inj hx).2

end Watched

/-- What a subscriber may rely on, if a feed is wanted that keeps some number of changes and it in
fact keeps another one.  Here `since` is all that has happened since he subscribed. -/
structure Accounting (wanted kept who : ℕ) (since : List Happening) : Prop where
  /-- What he has got accounts for the changes since he subscribed. -/
  accounts : Accounts (received who since) (committed since)
  /-- As long as there are never more changes pending for him than the feed was wanted to keep, he
  is not told of any lag. -/
  no_lag : (∀ part, part <+: since → (pending who part).length ≤ max wanted 1) →
    ∀ count, .lagged count ∉ received who since
  /-- He is told of a lag exactly if there are more changes pending for him than the feed keeps. -/
  lag_iff : ∀ {earlier deliveries later}, since = earlier ++ .drained who deliveries :: later →
    ((∃ count, .lagged count ∈ deliveries) ↔ kept < (pending who earlier).length)
  /-- Whenever he is told of a lag, it comes first, and then as many changes as the feed keeps. -/
  full_after_lag : ∀ {earlier deliveries later count},
    since = earlier ++ .drained who deliveries :: later → .lagged count ∈ deliveries →
      ∃ changes : List Change, deliveries = .lagged count :: changes.map .change ∧
        changes.length = kept

namespace Watched

variable {who : ℕ} {w : Watched} {told : List Change}

/-- If his last action is to drain, what he has got accounts for all changes. -/
lemma Follows.accounts_received (h : w.Follows who told []) {actions : List Action}
    (ha : .subscribe who ∉ actions) :
    Accounts (received who (w.history (actions ++ [.drain who])))
      (committed (w.history (actions ++ [.drain who]))) := by
  have hdrain : .subscribe who ∉ actions ++ [.drain who] := by simp [ha]
  obtain ⟨taken, hsplit, -, haccounts⟩ := (h.after hdrain).exists_taken
  -- nothing is pending behind the drain
  have hpending : pending who (w.history (actions ++ [.drain who])) = [] := by
    rw [history_concat]
    refine pending_append_of_drains ?_
    rw [drains_step]
    exact beq_self_eq_true who
  rwa [hsplit, hpending, List.append_nil]

lemma Follows.lagged_mem_iff (h : w.Follows who told []) {actions : List Action}
    (ha : .subscribe who ∉ actions) {earlier later : List Happening} {deliveries : List Delivery}
    (hsplit : w.history actions = earlier ++ .drained who deliveries :: later) :
    (∃ count, .lagged count ∈ deliveries) ↔
      w.store.feed.capacity < (pending who earlier).length := by
  have hdeliveries := h.drained_eq ha hsplit
  constructor
  · rintro ⟨count, hmem⟩
    rw [hdeliveries] at hmem
    exact (Feed.eq_of_lagged_mem_deliveries hmem).1
  · intro hmore
    rw [hdeliveries, Feed.deliveries, if_neg (not_le.mpr hmore)]
    exact ⟨_, List.mem_cons_self⟩

/-- Whoever has got a lag has had more pending, at some time, than the feed keeps. -/
lemma Follows.exists_of_lagged_mem (h : w.Follows who told []) {actions : List Action}
    (ha : .subscribe who ∉ actions) {count : ℕ}
    (hmem : .lagged count ∈ received who (w.history actions)) :
    ∃ part, part <+: w.history actions ∧ w.store.feed.capacity < (pending who part).length := by
  obtain ⟨x, hx, hcount⟩ := List.mem_flatMap.mp hmem
  obtain ⟨earlier, later, hsplit⟩ := List.append_of_mem hx
  cases x with
  | answered x change => cases hcount
  | subscribed other => cases hcount
  | drained other deliveries =>
    rw [deliveriesTo] at hcount
    split at hcount
    · next hother =>
      subst hother
      refine ⟨earlier, ⟨_, hsplit.symm⟩, ?_⟩
      exact (h.lagged_mem_iff ha hsplit).mp ⟨count, hcount⟩
    · cases hcount

end Watched

/-- **Every change is accounted for.**  Let clients call a store, subscribe to it and drain, in any
order, and let one of them subscribe, not subscribe again, and drain in the end.  Then what he has
got since then accounts for every change since then, however slow he was, where the feed keeps the
least power of two of changes that is not less than was wanted.  If he had not drained at all, or
at other times, everybody else would have seen the same. -/
theorem accounting_after_subscribe (d : Descriptor) (wanted : ℕ) (before between : List Action)
    (who : ℕ) (hwho : .subscribe who ∉ between) :
    let kept := Feed.roundedCapacity wanted
    let start := (Watched.fresh d wanted).after (before ++ [.subscribe who])
    IsLeast {n : ℕ | n.isPowerOfTwo ∧ max wanted 1 ≤ n} kept ∧
      Accounting wanted kept who (start.history (between ++ [.drain who])) ∧
      ∀ run : List Action,
        let silent := run.filter fun a => !a.drains who
        (Watched.fresh d wanted).history silent =
            ((Watched.fresh d wanted).history run).filter (fun x => !x.drains who) ∧
          ((Watched.fresh d wanted).after silent).store =
            ((Watched.fresh d wanted).after run).store := by
  intro kept start
  have hkept := Feed.isLeast_roundedCapacity wanted
  have hdrain : .subscribe who ∉ between ++ [.drain who] := by simp [hwho]
  have hfollows : start.Follows who (committed ((Watched.fresh d wanted).history before)) [] :=
    Watched.follows_start d wanted before who
  have hcapacity : start.store.feed.capacity = kept := Watched.capacity_after _ _
  refine ⟨hkept, ?_, fun run => Watched.history_filter _ who run⟩
  exact
    { accounts := hfollows.accounts_received hwho
      no_lag := by
        intro hpending count hmem
        obtain ⟨part, hpart, hmore⟩ := hfollows.exists_of_lagged_mem hdrain hmem
        have hle := hpending part hpart
        have hwanted := hkept.1.2
        omega
      lag_iff := by
        intro earlier deliveries later hsplit
        rw [← hcapacity]
        exact hfollows.lagged_mem_iff hdrain hsplit
      full_after_lag := by
        intro earlier deliveries later count hsplit hmem
        rw [hfollows.drained_eq hdrain hsplit, hcapacity] at hmem ⊢
        exact (Feed.eq_of_lagged_mem_deliveries hmem).2 }

/-- Two subscribers, of whom the first one lets six changes pass before he drains. -/
def Broker.slowSubscriber : List Action :=
  [.call (.create "1" (Broker.classEntry "" "a" "first" "")),
    .call (.update "2" (Broker.classEntry "" "a" "second" "1")),
    .call (.update "3" (Broker.classEntry "" "a" "late" "1")),
    .drain 2,
    .call (.delete (Broker.classEntry "" "a" "" "").identity),
    .call (.create "4" (Broker.classEntry "" "a" "third" "")),
    .subscribe 2,
    .call (.update "5" (Broker.classEntry "" "a" "fourth" "4")),
    .call (.create "6" (Broker.classEntry "" "b" "other" "")),
    .drain 1,
    .call (.delete (Broker.classEntry "" "b" "" "").identity)]

/-- The feed keeps four changes, although three were wanted, so two of the six are lost. -/
theorem accounting_slowSubscriber :
    let start := (Watched.fresh Broker.known 3).after ([.subscribe 2] ++ [.subscribe 1])
    let since := start.history (Broker.slowSubscriber ++ [.drain 1])
    .subscribe 1 ∉ Broker.slowSubscriber ∧
      received 1 since = .lagged 2 :: ((committed since).drop 2).map .change ∧
      (committed since).length = 7 ∧ Accounting 3 4 1 since := by
  intro start since
  have hwho : .subscribe 1 ∉ Broker.slowSubscriber := by
    simp [Broker.slowSubscriber]
  refine ⟨hwho, by decide +kernel, by decide +kernel, ?_⟩
  exact (accounting_after_subscribe Broker.known 3 [.subscribe 2] Broker.slowSubscriber 1 hwho).2.1

end ConfigRegistry
