/-
# Calls, answers and runs

Whoever uses a store sees nothing of it but the answers to his calls.  This file makes calls and
answers data, so that whatever may happen to a store is a list of calls.  Each call is atomic, as
a store takes a lock for it; so the calls of any number of clients are one list, in the order in
which they got hold of the lock, and every interleaving of the clients is such a list.

`Operations` collects what a store has to offer.  The history of a run is the list of its calls
with their answers.  Two stores of different make have the same histories as soon as some function
from the states of one to those of the other carries each step over (`Operations.history_map`).
-/
import Mathlib.Tactic.Common
import ConfigRegistry.Store.Memory

namespace ConfigRegistry

/-- A call on a store.  A call that is to write an entry comes with the revision that has been
drawn for it. -/
inductive Call where
  | create (revision : String) (e : Entry)
  | update (revision : String) (e : Entry)
  | delete (i : Identity)
  | get (i : Identity)
  | list (typeName space : String)
  | size
deriving DecidableEq

/-- An answer of a store. -/
inductive Answer where
  /-- To `create` and `update`: the new revision. -/
  | revision (r : Except StoreError String)
  /-- To `delete`. -/
  | removal (r : Except StoreError Unit)
  /-- To `get`. -/
  | entry (e : Option Entry)
  /-- To `list`. -/
  | entries (r : Except StoreError (List Entry))
  /-- To `size`. -/
  | count (n : Nat)

/-- A call together with its answer. -/
structure Exchange where
  call : Call
  answer : Answer

namespace Exchange

/-- The identity that a call has written to, and the revision that it has returned. -/
def written? : Exchange → Option (Identity × String)
  | ⟨.create _ e, .revision (.ok revision)⟩ => some (e.identity, revision)
  | ⟨.update _ e, .revision (.ok revision)⟩ => some (e.identity, revision)
  | _ => none

/-- The identity whose entry a call has replaced, and the revision with which it was submitted. -/
def replaced? : Exchange → Option (Identity × String)
  | ⟨.update _ e, .revision (.ok _)⟩ => some (e.identity, e.metadata.revision)
  | _ => none

/-- The identity whose entry a call has removed. -/
def removed? : Exchange → Option Identity
  | ⟨.delete i, .removal (.ok ())⟩ => some i
  | _ => none

end Exchange

/-- The operations of a store with states in `σ`, without the runs of validators.  Of a mutation
there is the outcome and the state after it, whatever the outcome. -/
structure Operations (σ : Type) where
  create : σ → (revision : String) → Entry → Except StoreError Unit × σ
  update : σ → (revision : String) → Entry → Except StoreError Unit × σ
  delete : σ → Identity → Except StoreError Unit × σ
  get? : σ → Identity → Option Entry
  list : σ → (typeName space : String) → Except StoreError (List Entry)
  size : σ → Nat

namespace Operations

variable {σ τ : Type}

/-- The answer to a call, and the state after it. -/
def step (o : Operations σ) (s : σ) : Call → Answer × σ
  | .create revision e =>
    let (outcome, s') := o.create s revision e
    (.revision (outcome.map fun _ => revision), s')
  | .update revision e =>
    let (outcome, s') := o.update s revision e
    (.revision (outcome.map fun _ => revision), s')
  | .delete i =>
    let (outcome, s') := o.delete s i
    (.removal outcome, s')
  | .get i => (.entry (o.get? s i), s)
  | .list typeName space => (.entries (o.list s typeName space), s)
  | .size => (.count (o.size s), s)

/-- The state after a run. -/
def after (o : Operations σ) (s : σ) (calls : List Call) : σ :=
  calls.foldl (fun s c => (o.step s c).2) s

/-- The calls of a run with their answers, in the order of the calls. -/
def history (o : Operations σ) (s : σ) : List Call → List Exchange
  | [] => []
  | c :: calls => ⟨c, (o.step s c).1⟩ :: o.history (o.step s c).2 calls

section Step

variable {o : Operations σ} {s s' : σ} {revision : String} {e : Entry} {i : Identity}
  {fault : StoreError}

lemma step_create_ok (h : o.create s revision e = (.ok (), s')) :
    o.step s (.create revision e) = (.revision (.ok revision), s') := by
  rw [step, h]
  rfl

lemma step_create_error (h : o.create s revision e = (.error fault, s')) :
    o.step s (.create revision e) = (.revision (.error fault), s') := by
  rw [step, h]
  rfl

lemma step_update_ok (h : o.update s revision e = (.ok (), s')) :
    o.step s (.update revision e) = (.revision (.ok revision), s') := by
  rw [step, h]
  rfl

lemma step_update_error (h : o.update s revision e = (.error fault, s')) :
    o.step s (.update revision e) = (.revision (.error fault), s') := by
  rw [step, h]
  rfl

lemma step_delete_ok (h : o.delete s i = (.ok (), s')) :
    o.step s (.delete i) = (.removal (.ok ()), s') := by
  rw [step, h]

lemma step_delete_error (h : o.delete s i = (.error fault, s')) :
    o.step s (.delete i) = (.removal (.error fault), s') := by
  rw [step, h]

end Step

variable (o : Operations σ) (s : σ)

@[simp] lemma after_nil : o.after s [] = s := rfl

@[simp] lemma after_cons (c : Call) (calls : List Call) :
    o.after s (c :: calls) = o.after (o.step s c).2 calls := rfl

lemma after_append (calls more : List Call) :
    o.after s (calls ++ more) = o.after (o.after s calls) more := by
  simp [after]

@[simp] lemma history_nil : o.history s [] = [] := rfl

@[simp] lemma history_cons (c : Call) (calls : List Call) :
    o.history s (c :: calls) = ⟨c, (o.step s c).1⟩ :: o.history (o.step s c).2 calls := rfl

lemma history_append (calls more : List Call) :
    o.history s (calls ++ more) = o.history s calls ++ o.history (o.after s calls) more := by
  induction calls generalizing s with
  | nil => rfl
  | cons c calls ih => simp [ih]

@[simp] lemma map_call_history (calls : List Call) :
    (o.history s calls).map Exchange.call = calls := by
  induction calls generalizing s with
  | nil => rfl
  | cons c calls ih => simp [ih]

/-- The history up to some exchange is the history of the calls before it, and that exchange is
the step which follows them. -/
lemma exists_of_history_eq {s : σ} {calls : List Call} {before after : List Exchange}
    {x : Exchange} (h : o.history s calls = before ++ x :: after) :
    ∃ earlier later, calls = earlier ++ x.call :: later ∧ before = o.history s earlier ∧
      x.answer = (o.step (o.after s earlier) x.call).1 := by
  induction calls generalizing s before with
  | nil => simp at h
  | cons c calls ih =>
    cases before with
    | nil =>
      simp only [history_cons, List.nil_append, List.cons.injEq] at h
      obtain ⟨rfl, -⟩ := h
      exact ⟨[], calls, rfl, rfl, rfl⟩
    | cons y before =>
      simp only [history_cons, List.cons_append, List.cons.injEq] at h
      obtain ⟨rfl, h⟩ := h
      obtain ⟨earlier, later, rfl, rfl, hx⟩ := ih h
      exact ⟨c :: earlier, later, rfl, rfl, hx⟩

/-- What holds at the beginning and is kept by each step holds after every run. -/
lemma after_induction {P : σ → Prop} (h : P s) (hstep : ∀ s c, P s → P (o.step s c).2)
    (calls : List Call) : P (o.after s calls) := by
  induction calls generalizing s with
  | nil => exact h
  | cons c calls ih => exact ih _ (hstep s c h)

section Map

variable {o : Operations σ} {o' : Operations τ} {f : σ → τ} {P : σ → Prop}

lemma after_map (hP : ∀ s c, P s → P (o.step s c).2)
    (h : ∀ s c, P s → o'.step (f s) c = ((o.step s c).1, f (o.step s c).2))
    {s : σ} (hs : P s) (calls : List Call) : f (o.after s calls) = o'.after (f s) calls := by
  induction calls generalizing s with
  | nil => rfl
  | cons c calls ih => rw [after_cons, after_cons, h s c hs, ih (hP s c hs)]

/-- If a function on states carries each step over, the histories are the same. -/
lemma history_map (hP : ∀ s c, P s → P (o.step s c).2)
    (h : ∀ s c, P s → o'.step (f s) c = ((o.step s c).1, f (o.step s c).2))
    {s : σ} (hs : P s) (calls : List Call) : o.history s calls = o'.history (f s) calls := by
  induction calls generalizing s with
  | nil => rfl
  | cons c calls ih => rw [history_cons, history_cons, h s c hs, ih (hP s c hs)]

end Map

end Operations

namespace MemoryStore

/-- The operations of a store in memory. -/
def operations : Operations MemoryStore where
  create s revision e := (s.create revision e).unaudited
  update s revision e := (s.update revision e).unaudited
  delete s i := (s.delete i).unaudited
  get? := get?
  list := list
  size := size

end MemoryStore

end ConfigRegistry
