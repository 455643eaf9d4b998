/-
# A mutation that fails leaves no trace

A call that is to change a store may be refused for many reasons, some of them found out early and
some late, when the store has been written to.  What has been written by then comes to nothing
(`MemoryStore.step_of_isRefusal`), because a table is there already where an identity turns out to
be taken, and an entry that is not held cannot be taken out of a table.  So whatever the reason was,
the call might as well not have been made: without it every other call is answered the same, every
subscriber gets the same, every view and every catalog shows the same, and the store is the same in
the end (`Watched.erase_refused`).

A run consists of requests here.  Besides the actions that reach a store itself, a broker may at any
time ask for one of its views or for the catalog.  A call that is to write an entry comes with the
revision drawn for it, so leaving out a call does not change what the others are given.
-/
import ConfigRegistry.Catalog.Builder
import ConfigRegistry.Proofs.Catalog.Kinds
import ConfigRegistry.Proofs.Store.Subscribers

namespace ConfigRegistry

/-- Whether a call that was to change the store has been refused. -/
def Exchange.isRefusal : Exchange → Bool
  | ⟨.create _ _, .revision (.error _)⟩ => true
  | ⟨.update _ _, .revision (.error _)⟩ => true
  | ⟨.delete _, .removal (.error _)⟩ => true
  | _ => false

/-- What may be asked for in a run: an action on the store, or something that a broker with some
settings makes out of what the store holds. -/
inductive Request where
  | action (a : Action)
  | classes (config : ViewConfig)
  | plans (config : ViewConfig)
  | plansOf (config : ViewConfig) (service : String)
  | catalog (config : ViewConfig)

/-- What came of a request. -/
inductive Reply where
  | happening (x : Happening)
  | classes (r : Except StoreError (SortedMap String ServiceClass))
  | plans (r : Except StoreError (SortedMap String ServicePlan))
  | catalog (r : Except StoreError Catalog)

/-- Whether a call that was to change the store has been refused. -/
def Reply.isRefusal : Reply → Bool
  | happening (.answered x _) => x.isRefusal
  | _ => false

/-- A call that has been refused makes no change. -/
lemma Exchange.mutation?_of_isRefusal {x : Exchange} (h : x.isRefusal = true) :
    x.mutation? = none := by
  rw [isRefusal.eq_def] at h
  split at h
  · rfl
  · rfl
  · rfl
  · cases h

/-- A call that is refused leaves the store as it was. -/
lemma MemoryStore.step_of_isRefusal {s : MemoryStore} {c : Call}
    (h : Exchange.isRefusal ⟨c, (operations.step s c).1⟩ = true) :
    (operations.step s c).2 = s := by
  have hnone := Exchange.mutation?_of_isRefusal h
  rcases step_cases s c with ⟨-, -, hs⟩ | ⟨e, hmutation, -⟩ | ⟨e, old, hmutation, -⟩ |
    ⟨i, removed, hmutation, -⟩
  · exact hs
  · cases hmutation.symm.trans hnone
  · cases hmutation.symm.trans hnone
  · cases hmutation.symm.trans hnone

namespace Watched

/-- What comes of a request, and the state after it. -/
def serve (w : Watched) : Request → Reply × Watched
  | .action a => (.happening (w.step a).1, (w.step a).2)
  | .classes config => (.classes (View.serviceClasses ⟨w.store, config⟩), w)
  | .plans config => (.plans (View.servicePlans ⟨w.store, config⟩), w)
  | .plansOf config service => (.plans (View.plansOf ⟨w.store, config⟩ service), w)
  | .catalog config => (.catalog (View.catalog ⟨w.store, config⟩), w)

/-- The state after a run of requests. -/
def afterAll (w : Watched) (requests : List Request) : Watched :=
  requests.foldl (fun w r => (w.serve r).2) w

/-- The requests of a run, each with what came of it. -/
def transcript (w : Watched) : List Request → List (Request × Reply)
  | [] => []
  | r :: requests => (r, (w.serve r).1) :: (w.serve r).2.transcript requests

/-- The part of a transcript that is left without the calls that have been refused. -/
def granted (t : List (Request × Reply)) : List (Request × Reply) :=
  t.filter fun p => !p.2.isRefusal

section

variable (w : Watched)

@[simp] lemma afterAll_cons (r : Request) (requests : List Request) :
    w.afterAll (r :: requests) = (w.serve r).2.afterAll requests := rfl

@[simp] lemma transcript_cons (r : Request) (requests : List Request) :
    w.transcript (r :: requests) = (r, (w.serve r).1) :: (w.serve r).2.transcript requests := rfl

lemma granted_cons (p : Request × Reply) (t : List (Request × Reply)) :
    granted (p :: t) = if p.2.isRefusal then granted t else p :: granted t := by
  rw [granted, List.filter_cons]
  cases p.2.isRefusal <;> rfl

end

/-- A request that is refused leaves the store and its subscribers as they were. -/
lemma serve_of_isRefusal {w : Watched} {r : Request} (h : (w.serve r).1.isRefusal = true) :
    (w.serve r).2 = w := by
  cases r with
  | action a =>
    cases a with
    | call c =>
      have hstore : (MemoryStore.operations.step w.store c).2 = w.store :=
        MemoryStore.step_of_isRefusal h
      show { w with store := (MemoryStore.operations.step w.store c).2 } = w
      rw [hstore]
    | subscribe who => cases h
    | drain who =>
      obtain ⟨deliveries, hstep, -, -⟩ := w.step_drain who
      rw [serve, hstep] at h
      cases h
  | classes config => rfl
  | plans config => rfl
  | plansOf config service => rfl
  | catalog config => rfl

/-- **Mutations that fail can be erased.**  Take any run on a store with its subscribers, and leave
out of it the calls that were to change the store and have been refused.  The replies to all other
requests are then the same, one by one, and so are the store and the places of its subscribers in
the end. -/
theorem erase_refused (w : Watched) (requests : List Request) :
    let lasting := granted (w.transcript requests)
    w.transcript (lasting.map Prod.fst) = lasting ∧
      w.afterAll (lasting.map Prod.fst) = w.afterAll requests := by
  intro lasting
  induction requests generalizing w with
  | nil => exact ⟨rfl, rfl⟩
  | cons r requests ih =>
    obtain ⟨htranscript, hafter⟩ := ih (w.serve r).2
    simp only [lasting, transcript_cons, afterAll_cons, granted_cons]
    cases h : (w.serve r).1.isRefusal with
    | true =>
      -- nothing has changed, so the requests behind the call find the same state without it
      rw [serve_of_isRefusal h] at htranscript hafter ⊢
      exact ⟨htranscript, hafter⟩
    | false => exact ⟨congrArg _ htranscript, hafter⟩

end Watched

end ConfigRegistry
