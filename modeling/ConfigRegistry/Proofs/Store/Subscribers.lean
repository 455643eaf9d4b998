/-
# Stores with subscribers

Besides calling a store, clients subscribe to its feed and take from time to time what there is for
them.  All of this together is a run, a list of actions in the order in which the store has served
them; whoever subscribes again under his number begins anew.  The history of a run says what came
of each action: to a call its answer and the change that it has committed, and to a drain what the
subscriber has got.

The change of a call is told from its answer and from what was held before it, not from the feed.
That the feed is told just these changes is what `MemoryStore.step_cases` and `Watched.tells_step`
say; from it follows where a subscriber stands after any run (`Watched.Follows.after`).
-/
import Mathlib.Data.List.DropRight
import Mathlib.Data.List.Induction
import Mathlib.Logic.Function.Basic
import ConfigRegistry.Proofs.Store.Feed
import ConfigRegistry.Proofs.Store.Memory
import ConfigRegistry.Proofs.Store.Run

namespace ConfigRegistry

/-! ## The changes that calls make -/

namespace Exchange

/-- The kind of change that a call has made, and the identity that it is about. -/
def mutation? : Exchange → Option (Event × Identity)
  | ⟨.create _ e, .revision (.ok _)⟩ => some (.add, e.identity)
  | ⟨.update _ e, .revision (.ok _)⟩ => some (.update, e.identity)
  | ⟨.delete i, .removal (.ok ())⟩ => some (.delete, i)
  | _ => none

/-- The change that a call has made to what was held before it. -/
def effect? (held : Identity → Option Entry) : Exchange → Option Change
  | ⟨.create _ e, .revision (.ok revision)⟩ => some ⟨.add, e.withRevision revision⟩
  | ⟨.update _ e, .revision (.ok revision)⟩ => some ⟨.update, e.withRevision revision⟩
  | ⟨.delete i, .removal (.ok ())⟩ => (held i).map fun removed => ⟨.delete, removed⟩
  | _ => none

end Exchange

namespace MemoryStore

/-- All that a step can do.  Either it makes no change, and the store is the same in every respect;
or it adds an entry where none was held, or replaces one that was held, or removes one. -/
lemma step_cases (s : MemoryStore) (c : Call) :
    let x : Exchange := ⟨c, (operations.step s c).1⟩
    let s' := (operations.step s c).2
    (x.mutation? = none ∧ x.effect? s.get? = none ∧ s' = s) ∨
      (∃ e, x.mutation? = some (.add, e.identity) ∧ x.effect? s.get? = some ⟨.add, e⟩ ∧
        x.written? = some (e.identity, e.metadata.revision) ∧
        s.get? e.identity = none ∧ s' = s.put .add e) ∨
      (∃ e old, x.mutation? = some (.update, e.identity) ∧ x.effect? s.get? = some ⟨.update, e⟩ ∧
        x.written? = some (e.identity, e.metadata.revision) ∧
        s.get? e.identity = some old ∧ s' = s.put .update e) ∨
      ∃ i removed, x.mutation? = some (.delete, i) ∧ x.effect? s.get? = some ⟨.delete, removed⟩ ∧
        s.get? i = some removed ∧ s' = s.without i removed := by
  cases c with
  | create revision e =>
    have h : operations.create s revision e = _ := create_unaudited s revision e
    split at h
    · rw [Operations.step_create_error h]
      exact Or.inl ⟨rfl, rfl, rfl⟩
    · rw [Operations.step_create_error h]
      exact Or.inl ⟨rfl, rfl, rfl⟩
    · next hnone =>
      rw [Operations.step_create_ok h]
      exact Or.inr (Or.inl ⟨e.withRevision revision, rfl, rfl, rfl, hnone, rfl⟩)
  | update revision e =>
    have h : operations.update s revision e = _ := update_unaudited s revision e
    split at h
    · rw [Operations.step_update_error h]
      exact Or.inl ⟨rfl, rfl, rfl⟩
    · rw [Operations.step_update_error h]
      exact Or.inl ⟨rfl, rfl, rfl⟩
    · next old _ hsome =>
      split at h
      · rw [Operations.step_update_ok h]
        exact Or.inr (Or.inr (Or.inl ⟨e.withRevision revision, old, rfl, rfl, rfl, hsome, rfl⟩))
      · rw [Operations.step_update_error h]
        exact Or.inl ⟨rfl, rfl, rfl⟩
  | delete i =>
    have h : operations.delete s i = _ := delete_unaudited s i
    split at h
    · rw [Operations.step_delete_error h]
      exact Or.inl ⟨rfl, rfl, rfl⟩
    · rw [Operations.step_delete_error h]
      exact Or.inl ⟨rfl, rfl, rfl⟩
    · next removed _ hsome =>
      rw [Operations.step_delete_ok h]
      refine Or.inr (Or.inr (Or.inr ⟨i, removed, rfl, ?_, hsome, rfl⟩))
      simp [Exchange.effect?, hsome]
  | get i => exact Or.inl ⟨rfl, rfl, rfl⟩
  | list typeName space => exact Or.inl ⟨rfl, rfl, rfl⟩
  | size => exact Or.inl ⟨rfl, rfl, rfl⟩

/-- The feed is told the change that a call has made, and nothing if it has made none. -/
lemma feed_step (s : MemoryStore) (c : Call) :
    (operations.step s c).2.feed =
      (Exchange.effect? s.get? ⟨c, (operations.step s c).1⟩).elim s.feed s.feed.send := by
  rcases step_cases s c with ⟨-, hchange, hs⟩ | ⟨e, -, hchange, -, -, hs⟩ |
    ⟨e, old, -, hchange, -, -, hs⟩ | ⟨i, removed, -, hchange, -, hs⟩ <;>
  · rw [hchange, hs]
    rfl

end MemoryStore

/-! ## Runs with subscribers -/

/-- What may happen to a store: a call; that somebody subscribes, and gives up any subscription
that he has had; or that he takes what there is for him. -/
inductive Action where
  | call (c : Call)
  | subscribe (who : ℕ)
  | drain (who : ℕ)

/-- An action with what came of it. -/
inductive Happening where
  /-- A call has been answered, and has perhaps made a change. -/
  | answered (x : Exchange) (change : Option Change)
  | subscribed (who : ℕ)
  /-- A subscriber has got what there was for him. -/
  | drained (who : ℕ) (deliveries : List Delivery)

namespace Action

def call? : Action → Option Call
  | call c => some c
  | _ => none

/-- The calls of a run. -/
def calls (actions : List Action) : List Call := actions.filterMap call?

/-- Whether somebody drains. -/
def drains (who : ℕ) : Action → Bool
  | drain other => other == who
  | _ => false

lemma eq_drain_of_drains {who : ℕ} {a : Action} (h : a.drains who = true) : a = .drain who := by
  cases a with
  | call c => cases h
  | subscribe other => cases h
  | drain other => rw [beq_iff_eq.mp h]

end Action

namespace Happening

def exchange? : Happening → Option Exchange
  | answered x _ => some x
  | _ => none

def effect? : Happening → Option Change
  | answered _ change => change
  | _ => none

/-- What somebody has got. -/
def deliveriesTo (who : ℕ) : Happening → List Delivery
  | drained other deliveries => if other = who then deliveries else []
  | _ => []

/-- Whether somebody has drained. -/
def drains (who : ℕ) : Happening → Bool
  | drained other _ => other == who
  | _ => false

/-- The calls of a history with their answers. -/
def exchanges (h : List Happening) : List Exchange := h.filterMap exchange?

/-- The changes of a history. -/
def committed (h : List Happening) : List Change := h.filterMap effect?

/-- Everything that somebody has got. -/
def received (who : ℕ) (h : List Happening) : List Delivery := h.flatMap (deliveriesTo who)

/-- The changes of a history behind the last time that somebody has drained. -/
def pending (who : ℕ) (h : List Happening) : List Change :=
  committed (h.rtakeWhile fun x => !x.drains who)

variable {who : ℕ} {h : List Happening} {x : Happening}

@[simp] lemma committed_append (h h' : List Happening) :
    committed (h ++ h') = committed h ++ committed h' := List.filterMap_append

@[simp] lemma received_append (h h' : List Happening) :
    received who (h ++ h') = received who h ++ received who h' := List.flatMap_append

@[simp] lemma exchanges_append (h h' : List Happening) :
    exchanges (h ++ h') = exchanges h ++ exchanges h' := List.filterMap_append

@[simp] lemma committed_singleton (x : Happening) : committed [x] = x.effect?.toList := by
  rw [committed, List.filterMap_cons]
  cases x.effect? <;> rfl

@[simp] lemma exchanges_singleton (x : Happening) : exchanges [x] = x.exchange?.toList := by
  rw [exchanges, List.filterMap_cons]
  cases x.exchange? <;> rfl

@[simp] lemma received_singleton (who : ℕ) (x : Happening) :
    received who [x] = x.deliveriesTo who := List.flatMap_singleton _ _

lemma pending_append_of_drains (hx : x.drains who = true) : pending who (h ++ [x]) = [] := by
  rw [pending, List.rtakeWhile_concat_neg _ _ _ (by simp [hx])]
  rfl

lemma pending_append_of_not_drains (hx : x.drains who = false) :
    pending who (h ++ [x]) = pending who h ++ committed [x] := by
  rw [pending, List.rtakeWhile_concat_pos _ _ _ (by simp [hx]), committed_append, pending]

lemma deliveriesTo_eq_nil (hx : x.drains who = false) : x.deliveriesTo who = [] := by
  cases x with
  | answered x change => rfl
  | subscribed other => rfl
  | drained other deliveries =>
    have hne : other ≠ who := by simpa [drains] using hx
    rw [deliveriesTo, if_neg hne]

end Happening

/-- A store with the places of its subscribers. -/
structure Watched where
  store : MemoryStore
  /-- The place of a subscriber, if he has subscribed. -/
  place : ℕ → Option Subscription

namespace Watched

open Happening

/-- An empty store to which nobody has subscribed. -/
def fresh (d : Descriptor) (capacity : ℕ) : Watched := ⟨.withCapacity d capacity, fun _ => none⟩

/-- What comes of an action, and the state after it. -/
def step (w : Watched) : Action → Happening × Watched
  | .call c =>
    let x : Exchange := ⟨c, (MemoryStore.operations.step w.store c).1⟩
    (.answered x (x.effect? w.store.get?),
      { w with store := (MemoryStore.operations.step w.store c).2 })
  | .subscribe who =>
    (.subscribed who, { w with place := Function.update w.place who (some w.store.feed.subscribe) })
  | .drain who =>
    match w.place who with
    | none => (.drained who [], w)
    | some place =>
      let (deliveries, place') := w.store.feed.drain place
      (.drained who deliveries, { w with place := Function.update w.place who (some place') })

/-- The state after a run. -/
def after (w : Watched) (actions : List Action) : Watched :=
  actions.foldl (fun w a => (w.step a).2) w

/-- What has happened in a run. -/
def history (w : Watched) : List Action → List Happening
  | [] => []
  | a :: actions => (w.step a).1 :: (w.step a).2.history actions

variable (w : Watched)

@[simp] lemma after_nil : w.after [] = w := rfl

@[simp] lemma after_cons (a : Action) (actions : List Action) :
    w.after (a :: actions) = (w.step a).2.after actions := rfl

lemma after_append (actions more : List Action) :
    w.after (actions ++ more) = (w.after actions).after more := by
  simp [after]

@[simp] lemma history_nil : w.history [] = [] := rfl

@[simp] lemma history_cons (a : Action) (actions : List Action) :
    w.history (a :: actions) = (w.step a).1 :: (w.step a).2.history actions := rfl

lemma history_append (actions more : List Action) :
    w.history (actions ++ more) = w.history actions ++ (w.after actions).history more := by
  induction actions generalizing w with
  | nil => rfl
  | cons a actions ih => simp [ih]

lemma after_concat (actions : List Action) (a : Action) :
    w.after (actions ++ [a]) = ((w.after actions).step a).2 := by
  rw [after_append, after_cons, after_nil]

lemma history_concat (actions : List Action) (a : Action) :
    w.history (actions ++ [a]) = w.history actions ++ [((w.after actions).step a).1] := by
  rw [history_append, history_cons, history_nil]

variable {w}

/-- A history up to some happening is the history of the actions before it. -/
lemma exists_of_history_eq {actions : List Action} {earlier later : List Happening}
    {x : Happening} (h : w.history actions = earlier ++ x :: later) :
    ∃ before a after, actions = before ++ a :: after ∧ earlier = w.history before ∧
      x = ((w.after before).step a).1 := by
  induction actions generalizing w earlier with
  | nil => simp at h
  | cons a actions ih =>
    cases earlier with
    | nil =>
      simp only [history_cons, List.nil_append, List.cons.injEq] at h
      exact ⟨[], a, actions, rfl, rfl, h.1.symm⟩
    | cons y earlier =>
      simp only [history_cons, List.cons_append, List.cons.injEq] at h
      obtain ⟨rfl, h⟩ := h
      obtain ⟨before, b, after, rfl, rfl, rfl⟩ := ih h
      exact ⟨a :: before, b, after, rfl, rfl, rfl⟩

/-! ## The store in a run -/

lemma step_drain (w : Watched) (who : ℕ) :
    ∃ deliveries, (w.step (.drain who)).1 = .drained who deliveries ∧
      (w.step (.drain who)).2.store = w.store ∧
      ∀ other ≠ who, (w.step (.drain who)).2.place other = w.place other := by
  rw [step]
  cases w.place who with
  | none => exact ⟨[], rfl, rfl, fun _ _ => rfl⟩
  | some place => exact ⟨_, rfl, rfl, fun other h => Function.update_of_ne h _ _⟩

/-- Only a call reaches the store: of anything else comes no answer and no change, and the store is
the same. -/
lemma exists_call_or_store_eq (w : Watched) (a : Action) :
    (∃ c, a = .call c) ∨
      (a.call? = none ∧ (w.step a).1.exchange? = none ∧ (w.step a).1.effect? = none ∧
        (w.step a).2.store = w.store) := by
  cases a with
  | call c => exact Or.inl ⟨c, rfl⟩
  | subscribe who => exact Or.inr ⟨rfl, rfl, rfl, rfl⟩
  | drain who =>
    obtain ⟨deliveries, hstep, hstore, -⟩ := w.step_drain who
    rw [hstep]
    exact Or.inr ⟨rfl, rfl, rfl, hstore⟩

lemma drains_step (w : Watched) (a : Action) (who : ℕ) :
    (w.step a).1.drains who = a.drains who := by
  cases a with
  | call c => rfl
  | subscribe other => rfl
  | drain other =>
    obtain ⟨deliveries, hstep, -, -⟩ := w.step_drain other
    rw [hstep]
    rfl

/-- Nobody but a caller makes a change. -/
lemma committed_step_drain (w : Watched) (who : ℕ) :
    committed [(w.step (.drain who)).1] = [] := by
  obtain ⟨deliveries, hstep, -, -⟩ := w.step_drain who
  rw [hstep]
  rfl

/-- Whatever is done, the feed has been told just the changes that have been made. -/
lemma tells_step {log : List Change} (h : w.store.feed.Tells log) (a : Action) :
    (w.step a).2.store.feed.Tells (log ++ committed [(w.step a).1]) := by
  rcases w.exists_call_or_store_eq a with ⟨c, rfl⟩ | ⟨-, -, heffect, hstore⟩
  · show (MemoryStore.operations.step w.store c).2.feed.Tells _
    rw [MemoryStore.feed_step, step, committed_singleton, effect?]
    cases Exchange.effect? w.store.get? ⟨c, (MemoryStore.operations.step w.store c).1⟩ with
    | none => simpa using h
    | some change => exact h.send change
  · rwa [hstore, committed_singleton, heffect, Option.toList_none, List.append_nil]

lemma capacity_step (w : Watched) (a : Action) :
    (w.step a).2.store.feed.capacity = w.store.feed.capacity := by
  rcases w.exists_call_or_store_eq a with ⟨c, rfl⟩ | ⟨-, -, -, hstore⟩
  · show (MemoryStore.operations.step w.store c).2.feed.capacity = _
    rw [MemoryStore.feed_step]
    cases Exchange.effect? w.store.get? ⟨c, (MemoryStore.operations.step w.store c).1⟩ <;> rfl
  · rw [hstore]

lemma tells_after {log : List Change} (h : w.store.feed.Tells log) (actions : List Action) :
    (w.after actions).store.feed.Tells (log ++ committed (w.history actions)) := by
  induction actions using List.reverseRecOn with
  | nil => simpa [committed] using h
  | append_singleton actions a ih =>
    rw [after_concat, history_concat, committed_append, ← List.append_assoc]
    exact tells_step ih a

/-! ## Where a subscriber stands -/

/-- A subscriber stands behind the changes that he has been told of, or told the number of.  Here
`told` are the changes before he subscribed, and `since` is what has happened after that. -/
structure Follows (w : Watched) (who : ℕ) (told : List Change) (since : List Happening) :
    Prop where
  tells : w.store.feed.Tells (told ++ committed since)
  exists_taken : ∃ taken, committed since = taken ++ pending who since ∧
    w.place who = some ⟨(told ++ taken).length⟩ ∧ Accounts (received who since) taken

/-- Whoever subscribes has everything before him. -/
lemma follows_subscribe {told : List Change} (h : w.store.feed.Tells told) (who : ℕ) :
    (w.step (.subscribe who)).2.Follows who told [] where
  tells := by simpa [step, committed] using h
  exists_taken := by
    refine ⟨[], rfl, ?_, .nil⟩
    simp [step, Feed.subscribe, h.sent_eq]

section Follows

variable {who : ℕ} {told : List Change} {since : List Happening}

/-- A subscriber who drains gets what is pending for him. -/
lemma Follows.step_drain (h : w.Follows who told since) :
    w.step (.drain who) =
      (.drained who (Feed.deliveries w.store.feed.capacity (pending who since)),
        { w with place := Function.update w.place who
                            (some ⟨(told ++ committed since).length⟩) }) := by
  obtain ⟨taken, hsplit, hplace, -⟩ := h.exists_taken
  have htells := h.tells
  rw [hsplit, ← List.append_assoc] at htells
  rw [step, hplace]
  simp only [htells.drain_eq, hsplit, List.append_assoc]

/-- Anything but a drain of his own leaves a subscriber where he is. -/
lemma place_step {a : Action} (hsub : a ≠ .subscribe who) (hdrain : a.drains who = false) :
    (w.step a).2.place who = w.place who := by
  cases a with
  | call c => rfl
  | subscribe other =>
    have hne : who ≠ other := fun heq => hsub (by rw [heq])
    exact Function.update_of_ne hne _ _
  | drain other =>
    have hne : who ≠ other := Ne.symm (beq_eq_false_iff_ne.mp hdrain)
    obtain ⟨_, -, -, hplace⟩ := w.step_drain other
    exact hplace who hne

lemma Follows.step (h : w.Follows who told since) {a : Action} (ha : a ≠ .subscribe who) :
    (w.step a).2.Follows who told (since ++ [(w.step a).1]) where
  tells := by
    rw [committed_append, ← List.append_assoc]
    exact tells_step h.tells a
  exists_taken := by
    obtain ⟨taken, hsplit, hplace, haccounts⟩ := h.exists_taken
    cases hdrain : a.drains who with
    | false =>
      -- what the step has changed joins what is pending
      have hx : (w.step a).1.drains who = false := by rw [drains_step, hdrain]
      refine ⟨taken, ?_, ?_, ?_⟩
      · rw [committed_append, hsplit, pending_append_of_not_drains hx, List.append_assoc]
      · rw [place_step ha hdrain, hplace]
      · rwa [received_append, received_singleton, deliveriesTo_eq_nil hx, List.append_nil]
    | true =>
      -- he takes all that is pending
      obtain rfl := Action.eq_drain_of_drains hdrain
      have hx : (w.step (.drain who)).1.drains who = true := by rw [drains_step, hdrain]
      refine ⟨committed since, ?_, ?_, ?_⟩
      · rw [committed_append, committed_step_drain, pending_append_of_drains hx]
      · rw [h.step_drain]
        exact Function.update_self _ _ _
      · rw [received_append, received_singleton, h.step_drain, hsplit, deliveriesTo, if_pos rfl]
        exact haccounts.append (Feed.accounts_deliveries _ _)

/-- A subscriber who does not subscribe again is never lost from sight. -/
lemma Follows.after {actions : List Action} (h : w.Follows who told [])
    (ha : .subscribe who ∉ actions) :
    (w.after actions).Follows who told (w.history actions) := by
  induction actions using List.reverseRecOn with
  | nil => exact h
  | append_singleton actions a ih =>
    rw [List.mem_append, not_or, List.mem_singleton] at ha
    rw [after_concat, history_concat]
    exact (ih ha.1).step (Ne.symm ha.2)

end Follows

/-- Whoever subscribes, whenever it may be, begins where the changes before him end. -/
lemma follows_start (d : Descriptor) (capacity : ℕ) (before : List Action) (who : ℕ) :
    ((fresh d capacity).after (before ++ [.subscribe who])).Follows who
      (committed ((fresh d capacity).history before)) [] := by
  have htells : (fresh d capacity).store.feed.Tells [] := Feed.tells_withCapacity capacity
  rw [after_concat]
  exact follows_subscribe (tells_after htells before) who

end Watched

end ConfigRegistry
