/-
# The feed is a log of the store

Whoever knows what a store holds when he subscribes, and makes the changes that he gets from then
on, one after the other, holds what the store holds.  On the way each change fits what is held
before it: an addition adds, an update replaces something, and a deletion bears just the entry that
goes.  So the changes are a log, from which the store could be made again
(`Watched.isLog_committed`).
-/
import ConfigRegistry.Proofs.Store.Accounting
import ConfigRegistry.Proofs.Store.Revisions

namespace ConfigRegistry

open Happening

namespace Contents

/-- What is held after a change. -/
def apply (m : Contents) (c : Change) : Contents :=
  match c.event with
  | .add | .update => m.insert c.entry.identity c.entry
  | .delete => m.erase c.entry.identity

/-- What is held after some changes, one after another. -/
def replay (m : Contents) (changes : List Change) : Contents := changes.foldl apply m

/-- Something is true of every change and what is held before it. -/
def Along (P : Contents → Change → Prop) : Contents → List Change → Prop
  | _, [] => True
  | m, c :: changes => P m c ∧ Along P (m.apply c) changes

/-- The change may be made: what is to be added is not held, what is to be updated is, and what is
to be deleted is held exactly as the change bears it. -/
def Fits (m : Contents) (c : Change) : Prop :=
  match c.event with
  | .add => m.find? c.entry.identity = none
  | .update => ∃ old, m.find? c.entry.identity = some old
  | .delete => m.find? c.entry.identity = some c.entry

/-- If the change is an update, it gives the entry another revision than it has had. -/
def Renews (m : Contents) (c : Change) : Prop :=
  c.event = .update → ∀ old, m.find? c.entry.identity = some old →
    old.metadata.revision ≠ c.entry.metadata.revision

lemma replay_concat (m : Contents) (changes : List Change) (c : Change) :
    m.replay (changes ++ [c]) = (m.replay changes).apply c := by
  simp [replay]

lemma along_concat_iff {P : Contents → Change → Prop} {m : Contents} {changes : List Change}
    {c : Change} : m.Along P (changes ++ [c]) ↔ m.Along P changes ∧ P (m.replay changes) c := by
  induction changes generalizing m with
  | nil => simp [Along, replay]
  | cons c' changes ih => simp [Along, ih, replay, and_assoc]

/-- The changes are a log of what has come to be held: making them leads there, each of them can be
made when its turn comes, and they are those of the calls that have succeeded in changing
something, one for each. -/
structure IsLog (before : Contents) (exchanges : List Exchange) (changes : List Change)
    (now : Contents) : Prop where
  replay_eq : before.replay changes = now
  fits : before.Along Fits changes
  one_each : changes.map (fun c => (c.event, c.entry.identity)) =
    exchanges.filterMap Exchange.mutation?

lemma isLog_nil (m : Contents) : m.IsLog [] [] m := ⟨rfl, trivial, rfl⟩

/-- A call that makes no change leaves a log as it is. -/
lemma IsLog.concat_of_none {m now : Contents} {exchanges : List Exchange} {changes : List Change}
    (h : m.IsLog exchanges changes now) {x : Exchange} (hx : x.mutation? = none) :
    m.IsLog (exchanges ++ [x]) changes now where
  replay_eq := h.replay_eq
  fits := h.fits
  one_each := by simp [h.one_each, hx]

/-- A change that can be made goes to the end of a log. -/
lemma IsLog.concat {m now : Contents} {exchanges : List Exchange} {changes : List Change}
    (h : m.IsLog exchanges changes now) {x : Exchange} {c : Change}
    (hx : x.mutation? = some (c.event, c.entry.identity)) (hc : now.Fits c) :
    m.IsLog (exchanges ++ [x]) (changes ++ [c]) (now.apply c) where
  replay_eq := by rw [replay_concat, h.replay_eq]
  fits := along_concat_iff.mpr ⟨h.fits, by rwa [h.replay_eq]⟩
  one_each := by simp [h.one_each, hx]

end Contents

namespace MemoryStore

/-- What is held after a step is what the change of the step makes of what was held before, and the
change could be made. -/
lemma change_step {s : MemoryStore} {d : Descriptor} (hs : s.contents.Sound d) (c : Call) :
    let x : Exchange := ⟨c, (operations.step s c).1⟩
    let s' := (operations.step s c).2
    match x.effect? s.get? with
    | none => x.mutation? = none ∧ s'.contents = s.contents
    | some change =>
      x.mutation? = some (change.event, change.entry.identity) ∧
        s.contents.Fits change ∧ s'.contents = s.contents.apply change := by
  intro x s'
  rcases step_cases s c with ⟨hmutation, hchange, hs'⟩ | ⟨e, hmutation, hchange, -, hnone, hs'⟩ |
    ⟨e, old, hmutation, hchange, -, hold, hs'⟩ | ⟨i, removed, hmutation, hchange, hremoved, hs'⟩
  · rw [hchange]
    exact ⟨hmutation, congrArg contents hs'⟩
  · rw [hchange]
    refine ⟨hmutation, (find?_contents s _).trans hnone, ?_⟩
    exact (congrArg contents hs').trans (contents_put s .add e)
  · rw [hchange]
    refine ⟨hmutation, ⟨old, (find?_contents s _).trans hold⟩, ?_⟩
    exact (congrArg contents hs').trans (contents_put s .update e)
  · -- the entry that goes is held under its own identity
    rw [← find?_contents] at hremoved
    obtain rfl : removed.identity = i := hs.identity_eq hremoved
    rw [hchange]
    refine ⟨hmutation, hremoved, ?_⟩
    exact (congrArg contents hs').trans (contents_without s _ removed)

end MemoryStore

namespace Contents

variable {d : Descriptor}

/-- If no revision is handed out twice, the last update has given its object another one than the
object has had. -/
lemma renews_of_fresh {calls : List Call} {x : Exchange} {e : Entry}
    (hf : FreshRevisions ((operations d).history ∅ calls ++ [x]))
    (hx : x.written? = some (e.identity, e.metadata.revision)) :
    ((operations d).after ∅ calls).Renews ⟨.update, e⟩ := by
  intro _ old hold heq
  -- the revision of the entry held before has been handed out by its last write
  obtain ⟨before, w, since, hsplit, hw, -⟩ := current_of_find?_after hold
  rw [hsplit, FreshRevisions, List.filterMap_append, List.nodup_append] at hf
  refine hf.2.2 old.metadata.revision ?_ e.metadata.revision ?_ heq
  · exact List.mem_filterMap.mpr ⟨w, by simp, Exchange.handedOut?_of_written? hw⟩
  · exact List.mem_filterMap.mpr ⟨x, by simp, Exchange.handedOut?_of_written? hx⟩

end Contents

/-- The change of a step gives its object another revision than it has had, if it is an update and
no revision is handed out twice. -/
lemma MemoryStore.renews_step {d : Descriptor} {s : MemoryStore} {calls : List Call}
    (hs : s.contents = (Contents.operations d).after ∅ calls) {c : Call} {change : Change}
    (hf : FreshRevisions
      ((Contents.operations d).history ∅ calls ++ [⟨c, (operations.step s c).1⟩]))
    (hchange : Exchange.effect? s.get? ⟨c, (operations.step s c).1⟩ = some change) :
    s.contents.Renews change := by
  rcases step_cases s c with ⟨-, heffect, -⟩ | ⟨e, -, heffect, -, -, -⟩ |
    ⟨e, old, -, heffect, hwritten, -, -⟩ | ⟨i, removed, -, heffect, -, -⟩
  · cases heffect.symm.trans hchange
  · cases heffect.symm.trans hchange
    exact fun h => by cases h
  · cases heffect.symm.trans hchange
    rw [hs]
    exact Contents.renews_of_fresh hf hwritten
  · cases heffect.symm.trans hchange
    exact fun h => by cases h

/-! ## Runs with subscribers -/

namespace Watched

/-- Seen from the store, a run is the calls in it. -/
lemma store_after (w : Watched) (actions : List Action) :
    (w.after actions).store = MemoryStore.operations.after w.store (Action.calls actions) ∧
      exchanges (w.history actions) =
        MemoryStore.operations.history w.store (Action.calls actions) := by
  induction actions generalizing w with
  | nil => exact ⟨rfl, rfl⟩
  | cons a actions ih =>
    obtain ⟨hafter, hhistory⟩ := ih (w.step a).2
    rw [after_cons, hafter, history_cons]
    rcases w.exists_call_or_store_eq a with ⟨c, rfl⟩ | ⟨hcall, hx, -, hstore⟩
    · exact ⟨rfl, congrArg _ hhistory⟩
    · have hcalls : Action.calls (a :: actions) = Action.calls actions :=
        List.filterMap_cons_none hcall
      rw [hcalls, ← hstore]
      exact ⟨rfl, (List.filterMap_cons_none hx).trans hhistory⟩

variable (d : Descriptor) (capacity : ℕ)

/-- After a run the store holds what the flat map holds after the calls, and they have been
answered as the flat map does. -/
lemma contents_after (actions : List Action) :
    ((fresh d capacity).after actions).store.contents =
        (Contents.operations d).after ∅ (Action.calls actions) ∧
      exchanges ((fresh d capacity).history actions) =
        (Contents.operations d).history ∅ (Action.calls actions) := by
  obtain ⟨hafter, hhistory⟩ := (fresh d capacity).store_after actions
  rw [hafter, hhistory]
  exact ⟨MemoryStore.contents_after_empty d capacity _,
    MemoryStore.history_eq_contents_history rfl _⟩

lemma sound_after (actions : List Action) :
    ((fresh d capacity).after actions).store.contents.Sound d := by
  rw [(contents_after d capacity actions).1]
  exact Contents.sound_after _

variable {d capacity}

/-- One more action keeps the changes a log. -/
lemma isLog_step {w : Watched} {m : Contents} {since : List Happening}
    (h : m.IsLog (exchanges since) (committed since) w.store.contents)
    (hw : w.store.contents.Sound d) (a : Action) :
    m.IsLog (exchanges (since ++ [(w.step a).1])) (committed (since ++ [(w.step a).1]))
      (w.step a).2.store.contents := by
  rw [exchanges_append, committed_append, exchanges_singleton, committed_singleton]
  rcases w.exists_call_or_store_eq a with ⟨c, rfl⟩ | ⟨-, hx, heffect, hstore⟩
  · have hstep := MemoryStore.change_step hw c
    rw [step, exchange?, Happening.effect?, Option.toList_some]
    cases hchange : Exchange.effect? w.store.get?
        ⟨c, (MemoryStore.operations.step w.store c).1⟩ with
    | none =>
      simp only [hchange] at hstep
      rw [Option.toList_none, List.append_nil, hstep.2]
      exact h.concat_of_none hstep.1
    | some change =>
      simp only [hchange] at hstep
      rw [Option.toList_some, hstep.2.2]
      exact h.concat hstep.1 hstep.2.1
  · rwa [hx, heffect, hstore, Option.toList_none, Option.toList_none, List.append_nil,
      List.append_nil]

/-- The changes of a run are a log of it, from whatever time on they are taken. -/
lemma isLog_committed (d : Descriptor) (capacity : ℕ) (first actions : List Action) :
    let start := (fresh d capacity).after first
    start.store.contents.IsLog (exchanges (start.history actions))
      (committed (start.history actions)) (start.after actions).store.contents := by
  intro start
  induction actions using List.reverseRecOn with
  | nil => exact Contents.isLog_nil _
  | append_singleton actions a ih =>
    have hsound : (start.after actions).store.contents.Sound d := by
      rw [← after_append]
      exact sound_after d capacity _
    rw [history_concat, after_concat]
    exact isLog_step ih hsound a

/-- If no revision is handed out twice, every update in a run gives its object another one. -/
lemma along_renews_committed {first actions : List Action}
    (hf : FreshRevisions (exchanges ((fresh d capacity).history (first ++ actions)))) :
    let start := (fresh d capacity).after first
    start.store.contents.Along Contents.Renews (committed (start.history actions)) := by
  intro start
  induction actions using List.reverseRecOn with
  | nil => trivial
  | append_singleton actions a ih =>
    have hbefore : start.after actions = (fresh d capacity).after (first ++ actions) :=
      (after_append _ _ _).symm
    rw [← List.append_assoc, history_concat, exchanges_append, ← hbefore] at hf
    have hsofar := ih hf.of_append
    rw [history_concat, committed_append, committed_singleton]
    rcases (start.after actions).exists_call_or_store_eq a with ⟨c, rfl⟩ | ⟨-, -, heffect, -⟩
    · rw [step, Happening.effect?]
      cases hchange : Exchange.effect? (start.after actions).store.get?
          ⟨c, (MemoryStore.operations.step (start.after actions).store c).1⟩ with
      | none => simpa using hsofar
      | some change =>
        obtain ⟨hcontents, hhistory⟩ := contents_after d capacity (first ++ actions)
        rw [hhistory] at hf
        rw [← hbefore] at hcontents
        refine Contents.along_concat_iff.mpr ⟨hsofar, ?_⟩
        rw [(isLog_committed d capacity first actions).replay_eq]
        exact MemoryStore.renews_step hcontents hf hchange
    · rwa [heffect, Option.toList_none, List.append_nil]

end Watched

/-- **What a subscriber gets is a log.**  Let clients call a store, subscribe to it and drain, in
any order, and let one of them subscribe, not subscribe again, and drain in the end.  If he has not
been told of any lag, then he has got changes, and they lead from what the store held when he
subscribed to what it holds now.  Each of them could be made when its turn came, and each stands
for one call that has succeeded in changing something.  An update gives its object another revision
than it has had, as long as no revision is handed out twice. -/
theorem received_isLog (d : Descriptor) (capacity : ℕ) (before between : List Action) (who : ℕ)
    (hwho : .subscribe who ∉ between) :
    let start := (Watched.fresh d capacity).after (before ++ [.subscribe who])
    let run := between ++ [.drain who]
    (∀ count, .lagged count ∉ received who (start.history run)) →
      ∃ changes : List Change,
        received who (start.history run) = changes.map .change ∧
        start.store.contents.IsLog (exchanges (start.history run)) changes
          (start.after run).store.contents ∧
        (FreshRevisions
            (exchanges ((Watched.fresh d capacity).history (before ++ [.subscribe who] ++ run))) →
          start.store.contents.Along Contents.Renews changes) := by
  intro start run hlag
  have hfollows : start.Follows who
      (committed ((Watched.fresh d capacity).history before)) [] :=
    Watched.follows_start d capacity before who
  refine ⟨committed (start.history run), ?_, Watched.isLog_committed d capacity _ run,
    fun hf => Watched.along_renews_committed hf⟩
  -- without a lag, what he has got can only account for the changes by bearing them
  exact (hfollows.accounts_received hwho).eq_map_change hlag

theorem received_isLog_slowSubscriber :
    let start := (Watched.fresh Broker.known 8).after ([.subscribe 2] ++ [.subscribe 1])
    let run := Broker.slowSubscriber ++ [.drain 1]
    .subscribe 1 ∉ Broker.slowSubscriber ∧
      (received 1 (start.history run)).length = 7 ∧
      (∀ count, .lagged count ∉ received 1 (start.history run)) ∧
      FreshRevisions (exchanges
        ((Watched.fresh Broker.known 8).history ([.subscribe 2] ++ [.subscribe 1] ++ run))) ∧
      ∃ changes : List Change,
        received 1 (start.history run) = changes.map .change ∧
        start.store.contents.IsLog (exchanges (start.history run)) changes
          (start.after run).store.contents ∧
        start.store.contents.Along Contents.Renews changes := by
  intro start run
  have hwho : .subscribe 1 ∉ Broker.slowSubscriber := by
    simp [Broker.slowSubscriber]
  have hgot : received 1 (start.history run) = (committed (start.history run)).map .change := by
    decide +kernel
  have hlag : ∀ count, .lagged count ∉ received 1 (start.history run) := by
    intro count
    rw [hgot]
    exact lagged_notMem_map_change count _
  have hf : FreshRevisions (exchanges
      ((Watched.fresh Broker.known 8).history ([.subscribe 2] ++ [.subscribe 1] ++ run))) := by
    decide +kernel
  obtain ⟨changes, hchanges, hlog, hrenews⟩ :=
    received_isLog Broker.known 8 [.subscribe 2] Broker.slowSubscriber 1 hwho hlag
  exact ⟨hwho, by decide +kernel, hlag, hf, changes, hchanges, hlog, hrenews hf⟩

end ConfigRegistry
